import Longhand.Column.Steps
import Longhand.Proofs.Columns
import Mathlib.Tactic.LinearCombination
/-!
# The pass over the columns

Addition and subtraction go over the columns in the same way; in a subtraction the bottom digits and
what goes from column to column count as negative. The equation for every run of columns is
`Run.value`: what is written, with what goes out at the left end, is what the two numerals make
together. The cells of the result row are the digits written, with a carry that is left in column 0
(`Run.cells_finish`), and without its needless zeros the row is the text of a numeral.
-/

namespace Longhand.Column

namespace Method

/-- How the bottom numeral counts. -/
def sign : Method → Int
  | .addition => 1
  | .subtraction => -1

/-- Nothing is lost in a column. -/
theorem rule_total (m : Method) (top bottom incoming : Int) :
    (m.rule top bottom incoming).1 + m.sign * (10 * (m.rule top bottom incoming).2) =
      top + m.sign * (bottom + incoming) := by
  cases m with
  | addition =>
    have := carryRule_total top bottom incoming
    simp only [rule, sign]
    omega
  | subtraction =>
    have := borrowRule_total top bottom incoming
    simp only [rule, sign]
    omega

variable {top bottom incoming : Int} (ht : 0 ≤ top ∧ top < 10) (hb : 0 ≤ bottom ∧ bottom < 10)
  (hi : incoming = 0 ∨ incoming = 1)

include ht hb hi

theorem rule_digit (m : Method) :
    0 ≤ (m.rule top bottom incoming).1 ∧ (m.rule top bottom incoming).1 < 10 := by
  cases m with
  | addition => exact carryRule_digit top bottom incoming
  | subtraction => exact borrowRule_digit ht hb (by omega)

theorem rule_outgoing (m : Method) :
    (m.rule top bottom incoming).2 = 0 ∨ (m.rule top bottom incoming).2 = 1 := by
  cases m with
  | addition =>
    have htotal := carryRule_total top bottom incoming
    have hdigit := carryRule_digit top bottom incoming
    simp only [rule]
    omega
  | subtraction =>
    simp only [rule, borrowRule]
    split <;> simp

end Method

/-! ## Runs -/

/-- The entry reads the digits of a column. -/
structure Reads (e : Entry) (c : Column) : Prop where
  column : e.column = c.index
  top : e.top = c.top.val
  bottom : e.bottom = c.bottom.val

/-- The entry writes a digit, and sends on what is too much or too little for one digit. -/
structure Settles (m : Method) (e : Entry) : Prop where
  digit : 0 ≤ e.digit ∧ e.digit < 10
  outgoing : e.outgoing = 0 ∨ e.outgoing = 1
  total : e.digit + m.sign * (10 * e.outgoing) = e.top + m.sign * (e.bottom + e.incoming)

/-- A run over columns from right to left, from what comes in on the right to what goes out on the
left: each entry takes in what the column before it sent. -/
inductive Run (m : Method) : Int → List Column → List Entry → Int → Prop
  | done {i : Int} (h : i = 0 ∨ i = 1) : Run m i [] [] i
  | column {i last : Int} {c : Column} {cs : List Column} {e : Entry} {es : List Entry}
      (reads : Reads e c) (next : e.next = nextIndex cs) (incoming : e.incoming = i)
      (settles : Settles m e) (rest : Run m e.outgoing cs es last) :
      Run m i (c :: cs) (e :: es) last

/-- What goes out of some columns, if something comes in. -/
def outgoing (m : Method) (incoming : Int) : List Column → Int
  | [] => incoming
  | c :: rest => outgoing m (m.rule c.top.val c.bottom.val incoming).2 rest

/-- Whatever the digits, the pass is a run. -/
theorem run_pass (m : Method) {i : Int} (hi : i = 0 ∨ i = 1) (cs : List Column) :
    Run m i cs (pass m.rule i cs) (outgoing m i cs) := by
  induction cs generalizing i with
  | nil => exact .done hi
  | cons c cs ih =>
    have ht : 0 ≤ (c.top.val : Int) ∧ (c.top.val : Int) < 10 := by omega
    have hb : 0 ≤ (c.bottom.val : Int) ∧ (c.bottom.val : Int) < 10 := by omega
    have hout := m.rule_outgoing ht hb hi
    refine .column ⟨rfl, rfl, rfl⟩ rfl rfl ⟨m.rule_digit ht hb hi, hout, m.rule_total _ _ _⟩ ?_
    exact ih hout

def written (es : List Entry) : List Digit :=
  (es.map fun e => Digit.ofNat e.digit.toNat).reverse

@[simp] theorem length_written (es : List Entry) : (written es).length = es.length := by
  simp [written]

theorem written_append (es fs : List Entry) : written (es ++ fs) = written fs ++ written es := by
  simp [written]

namespace Run

variable {m : Method} {i last : Int} {cs : List Column} {es : List Entry} (h : Run m i cs es last)

include h

theorem map_column : es.map (·.column) = cs.map (·.index) := by
  induction h with
  | done => rfl
  | column hr _ _ _ _ ih => simp [hr.column, ih]

theorem map_top : es.map (·.top) = cs.map fun c => (c.top.val : Int) := by
  induction h with
  | done => rfl
  | column hr _ _ _ _ ih => simp [hr.top, ih]

theorem map_bottom : es.map (·.bottom) = cs.map fun c => (c.bottom.val : Int) := by
  induction h with
  | done => rfl
  | column hr _ _ _ _ ih => simp [hr.bottom, ih]

/-- What comes into a column is what went out of the column before it. -/
theorem map_incoming : es.map (·.incoming) ++ [last] = i :: es.map (·.outgoing) := by
  induction h with
  | done => rfl
  | column _ _ hi _ _ ih => simp [hi, ih]

/-- The next column is the one to the left, or column 0. -/
theorem map_next : es.map (·.next) = (cs.map Column.index ++ [0]).tail := by
  induction h with
  | done => rfl
  | @column _ _ _ cs _ _ _ hn _ _ hrest ih =>
    cases cs with
    | nil =>
      cases hrest
      simp [hn, nextIndex]
    | cons c cs => simp [hn, nextIndex, ih]

/-- The entry after this one works on the column this one names. -/
theorem next_getElem {i : Nat} (hi : i + 1 < es.length) : es[i].next = es[i + 1].column := by
  have hnext := h.map_next
  rw [← h.map_column] at hnext
  have hentry := List.getElem_of_eq hnext (i := i) (by simp; omega)
  simpa [List.getElem_append_left, hi] using hentry

/-- The last entry names column 0. -/
theorem next_getLast {e : Entry} (he : es.getLast? = some e) : e.next = 0 := by
  have hne : cs.map Column.index ≠ [] := by
    rw [← h.map_column]
    simp [List.ne_nil_of_mem (List.mem_of_getLast? he)]
  have hlast := congrArg List.getLast? h.map_next
  rw [List.getLast?_map, he, List.tail_append_of_ne_nil hne, List.getLast?_concat] at hlast
  simpa using hlast

/-- What goes out of the last entry goes out of the run. -/
theorem outgoing_getLast {e : Entry} (he : es.getLast? = some e) : e.outgoing = last := by
  have hlast := congrArg List.getLast? h.map_incoming
  rw [List.getLast?_concat, List.getLast?_cons, List.getLast?_map, he] at hlast
  simpa using hlast.symm

theorem settles {e : Entry} (he : e ∈ es) : Settles m e := by
  induction h with
  | done => simp at he
  | column _ _ _ hs _ ih =>
    rcases List.mem_cons.1 he with rfl | he
    · exact hs
    · exact ih he

theorem last_eq : last = 0 ∨ last = 1 := by
  induction h with
  | done h => exact h
  | column _ _ _ _ _ ih => exact ih

/-- **Nothing is lost** in a run of columns. -/
theorem value :
    (Digits.value (written es) : Int) + m.sign * (10 ^ cs.length * last) =
      Digits.value (cs.map (·.top)).reverse +
        m.sign * (Digits.value (cs.map (·.bottom)).reverse + i) := by
  induction h with
  | done => simp [written, Digits.value_nil]
  | @column i last c cs e es hr _ hi hs _ ih =>
    have hd := hs.digit
    have htotal := hs.total
    have hdigit : ((Digit.ofNat e.digit.toNat).val : Int) = e.digit := by
      rw [Digit.val_ofNat]
      omega
    have hw : written (e :: es) = written es ++ [Digit.ofNat e.digit.toNat] := by
      simp [written]
    rw [hw, Digits.value_concat, List.map_cons, List.reverse_cons, Digits.value_concat,
      List.map_cons, List.reverse_cons, Digits.value_concat, List.length_cons]
    push_cast
    rw [hdigit, pow_succ]
    rw [hr.top, hr.bottom, hi] at htotal
    linear_combination 10 * ih + htotal

end Run

/-! ## The result row -/

/-- The cells after the digit of a column has been written. -/
def put (cells : Row) (e : Entry) : Row :=
  cells.set e.column (digitChar e.digit)

theorem digitChar_eq {n : Int} (h : 0 ≤ n ∧ n < 10) : digitChar n = (Digit.ofNat n.toNat).char := by
  have hmod : n.toNat % 10 = n.toNat := Nat.mod_eq_of_lt (by omega)
  rw [Digit.char, Digit.val_ofNat, hmod]
  rfl

namespace Progress

variable {m : Method} {a : Alignment} {p : Progress} {e : Entry}

theorem cells_write_of_next (h : e.next ≠ 0) : (p.write m a e).cells = put p.cells e := by
  unfold write
  split <;> simp [put]

theorem cells_write_of_last (h : e.next = 0) :
    (p.write m a e).cells =
      if e.outgoing = 0 then put p.cells e else (put p.cells e).set 0 (digitChar e.outgoing) := by
  unfold write
  split <;> simp [put]

@[simp] theorem transfers_write :
    (p.write m a e).transfers =
      p.transfers ++ if e.outgoing = 0 then [] else [transfer m a e] := by
  unfold write
  split <;> simp

@[simp] theorem length_cells_write : (p.write m a e).cells.length = p.cells.length := by
  unfold write
  split
  · simp
  · split <;> simp

@[simp] theorem length_cells_start (a : Alignment) : (start a).cells.length = a.width := by
  unfold start
  split <;> simp

variable (m a)

theorem transfers_foldl (p : Progress) (es : List Entry) :
    (es.foldl (write m a) p).transfers =
      p.transfers ++ (es.filter fun e => e.outgoing ≠ 0).map (transfer m a) := by
  induction es generalizing p with
  | nil => simp
  | cons e es ih =>
    rw [List.foldl_cons, ih, transfers_write]
    by_cases h : e.outgoing = 0 <;> simp [h]

theorem length_cells_foldl (p : Progress) (es : List Entry) :
    (es.foldl (write m a) p).cells.length = p.cells.length := by
  induction es generalizing p with
  | nil => rfl
  | cons e es ih => rw [List.foldl_cons, ih, length_cells_write]

/-- The digit of the last column written stands in its cell. -/
theorem getElem_write {e : Entry} (hpos : e.column ≠ 0) (hlt : e.column < p.cells.length) :
    (p.write m a e).cells[e.column]? = some (digitChar e.digit) := by
  unfold write
  split
  · simp [hlt]
  · split
    · simp [hlt, hpos.symm]
    · simp [hlt]

theorem digitAt_write {e : Entry} (hdigit : 0 ≤ e.digit ∧ e.digit < 10) (hpos : e.column ≠ 0)
    (hlt : e.column < p.cells.length) :
    (Row.digitAt (p.write m a e).cells e.column : Int) = e.digit := by
  rw [Row.digitAt, getElem_write m a hpos hlt, digitChar_eq hdigit, Option.map_some,
    Option.getD_some, Row.cellDigit_char, Digit.val_ofNat]
  omega

end Progress

/-- What goes out of the last column stands in column 0. -/
theorem Run.cells_foldl {m : Method} {i last : Int} {cs : List Column} {es : List Entry}
    (h : Run m i cs es last) (hne : cs ≠ []) (hpos : ∀ c ∈ cs, c.index ≠ 0) (a : Alignment)
    (p : Progress) :
    (es.foldl (Progress.write m a) p).cells =
      if last = 0 then es.foldl put p.cells
      else (es.foldl put p.cells).set 0 (digitChar last) := by
  induction h generalizing p with
  | done => exact absurd rfl hne
  | @column i last c cs e es _ hn _ _ hrest ih =>
    cases cs with
    | nil =>
      cases hrest
      exact Progress.cells_write_of_last hn
    | cons c' cs =>
      -- only the last entry has no column to its left, so nothing is written into column 0 yet
      have hnext : e.next ≠ 0 := by
        rw [hn]
        exact hpos c' (by simp)
      have hrest : ∀ c ∈ c' :: cs, c.index ≠ 0 := by
        intro c hc
        exact hpos c (List.mem_cons_of_mem _ hc)
      rw [List.foldl_cons, ih (by simp) hrest, Progress.cells_write_of_next hnext, List.foldl_cons]

/-- Consecutive columns are filled with the digits written. -/
theorem foldl_put {es : List Entry} (hdigit : ∀ e ∈ es, 0 ≤ e.digit ∧ e.digit < 10)
    {before middle : Row} (after : Row)
    (h : es.map (·.column) = (List.range' before.length middle.length).reverse) :
    es.foldl put (before ++ (middle ++ after)) =
      before ++ (Digits.text (written es) ++ after) := by
  induction es generalizing middle after with
  | nil =>
    have hnil : middle = [] := by
      simpa [List.range'_eq_nil_iff] using h
    simp [hnil, written, Digits.text]
  | cons e es ih =>
    -- the columns are filled from the right, so this digit goes into the last of them
    rcases List.eq_nil_or_concat middle with rfl | ⟨init, x, rfl⟩
    · simp at h
    · rw [List.concat_eq_append, List.length_append, List.length_singleton, List.range'_concat,
        List.reverse_append, List.map_cons, Nat.one_mul] at h
      obtain ⟨hcolumn, hcolumns⟩ := List.cons.inj h
      have hrest : ∀ e ∈ es, 0 ≤ e.digit ∧ e.digit < 10 := by
        intro e he
        exact hdigit e (List.mem_cons_of_mem _ he)
      have hput : put (before ++ (init.concat x ++ after)) e =
          before ++ (init ++ (digitChar e.digit :: after)) := by
        simp [put, hcolumn]
      rw [List.foldl_cons, hput, ih hrest _ hcolumns, digitChar_eq (hdigit e (by simp))]
      simp [written, Digits.text]

/-- The blank result row: column 0, the columns before the point, and those after it. -/
theorem cells_start (a : Alignment) :
    (Progress.start a).cells =
      ' ' :: (List.replicate a.integerWidth ' ' ++
        if a.fractionWidth = 0 then [] else '.' :: List.replicate a.fractionWidth ' ') := by
  unfold Progress.start Alignment.pointColumn? Alignment.width
  by_cases hf : a.fractionWidth = 0
  · simp [hf, Nat.add_comm 1, List.replicate_succ]
  · simp only [hf, if_false]
    rw [show 1 + a.integerWidth + (1 + a.fractionWidth) =
        (a.integerWidth + 1) + (a.fractionWidth + 1) by omega, ← List.replicate_append_replicate,
      List.set_append_right _ _ (by simp), List.replicate_succ, List.replicate_succ]
    simp

def leadingCell (last : Int) : Char :=
  if last = 0 then ' ' else digitChar last

def writtenNumeral (a : Alignment) (es : List Entry) : Numeral :=
  ⟨(written es).take a.integerWidth, (written es).drop a.integerWidth⟩

section

variable {m : Method} {a : Alignment} {last : Int} {es : List Entry}
  (h : Run m 0 a.columns.reverse es last)

include h

theorem Run.column_eq : es.map (·.column) = a.columnIndices.reverse := by
  rw [h.map_column, List.map_reverse, a.columns_index]

theorem Run.length_eq : es.length = a.integerWidth + a.fractionWidth := by
  have hlen := congrArg List.length h.column_eq
  simpa [a.length_columnIndices] using hlen

/-- The digits fill the columns before and after the point. -/
theorem Run.foldl_put_start :
    es.foldl put (Progress.start a).cells = ' ' :: (writtenNumeral a es).text := by
  have hcolumns := h.column_eq
  rw [Alignment.columnIndices, List.reverse_append, List.map_eq_append_iff] at hcolumns
  obtain ⟨fes, ies, rfl, hfes, hies⟩ := hcolumns
  have hfbounds : ∀ e ∈ fes, 0 ≤ e.digit ∧ e.digit < 10 := by
    intro e he
    exact (h.settles (List.mem_append_left _ he)).digit
  have hibounds : ∀ e ∈ ies, 0 ≤ e.digit ∧ e.digit < 10 := by
    intro e he
    exact (h.settles (List.mem_append_right _ he)).digit
  have hflen : fes.length = a.fractionWidth := by simpa using congrArg List.length hfes
  have hilen : ies.length = a.integerWidth := by simpa using congrArg List.length hies
  have hnumeral : writtenNumeral a (fes ++ ies) = ⟨written ies, written fes⟩ := by
    simp [writtenNumeral, written_append, ← hilen]
  have hinteger : ∀ after : Row,
      ies.foldl put ([' '] ++ (List.replicate a.integerWidth ' ' ++ after)) =
        [' '] ++ (Digits.text (written ies) ++ after) := by
    intro after
    exact foldl_put hibounds after (by simpa using hies)
  rw [hnumeral, cells_start, List.foldl_append, Numeral.text]
  by_cases hf : a.fractionWidth = 0
  · have hnil : fes = [] := List.length_eq_zero_iff.1 (hflen.trans hf)
    have hrow := hinteger []
    simpa [hf, hnil, written] using hrow
  · let before : Row := ' ' :: (List.replicate a.integerWidth ' ' ++ ['.'])
    have hfraction :
        fes.foldl put (before ++ (List.replicate a.fractionWidth ' ' ++ [])) =
          before ++ (Digits.text (written fes) ++ []) :=
      foldl_put hfbounds [] (by simpa [before] using hfes)
    have hrow := hinteger ('.' :: Digits.text (written fes))
    have hne : written fes ≠ [] := by
      intro hnil
      have := congrArg List.length hnil
      simp [hflen, hf] at this
    simp only [before, List.append_nil, List.cons_append, List.append_assoc, List.nil_append]
      at hfraction hrow
    rw [if_neg hf, hfraction, hrow, if_neg (by simpa using hne)]

/-- **The cells of the result row**: column 0 and the digits written. -/
theorem Run.cells_finish (hw : a.integerWidth ≠ 0) :
    (es.foldl (Progress.write m a) (Progress.start a)).cells =
      leadingCell last :: (writtenNumeral a es).text := by
  have hne : a.columns.reverse ≠ [] := by
    intro hnil
    have hlen := a.length_columns
    rw [List.reverse_eq_nil_iff.1 hnil, List.length_nil] at hlen
    omega
  have hpos : ∀ c ∈ a.columns.reverse, c.index ≠ 0 := by
    intro c hc
    have hmem : c.index ∈ a.columnIndices := by
      rw [← a.columns_index]
      exact List.mem_map_of_mem (List.mem_reverse.1 hc)
    exact (a.mem_columnIndices hmem).1
  rw [h.cells_foldl hne hpos, h.foldl_put_start, leadingCell]
  split <;> rfl

end

/-! ## The answer -/

/-- A row without its needless zeros: blanks stand where they stood, and then the digits of a
number. -/
theorem blankLeading_text {n : Nat} {ds : List Digit} (h : ds.length = n + 1) (tail : Row) :
    blankLeading n (Digits.text ds ++ tail) =
      List.replicate (n + 1 - (Digits.normalize ds).length) ' ' ++
        (Digits.text (Digits.normalize ds) ++ tail) := by
  induction n generalizing ds with
  | zero =>
    obtain ⟨d, rfl⟩ := List.length_eq_one_iff.1 h
    have hnormal : Digits.normalize [d] = [d] := by
      by_cases hd : d = 0 <;> simp [Digits.normalize, hd]
    simp [blankLeading, hnormal]
  | succ n ih =>
    cases ds with
    | nil => simp at h
    | cons d ds =>
      have hds : ds.length = n + 1 := by simpa using h
      have hne : ds ≠ [] := List.ne_nil_of_length_eq_add_one hds
      have hle := Digits.length_normalize_le hne
      rw [Digits.text_cons, List.cons_append, blankLeading]
      by_cases hd : d = 0
      · have hblank : d.char = '0' ∨ d.char = ' ' := .inl (d.char_eq_zero_iff.2 hd)
        have hroom : n + 1 + 1 - (Digits.normalize ds).length =
            n + 1 - (Digits.normalize ds).length + 1 := by omega
        rw [if_pos hblank, ih hds, hd, Digits.normalize_zero_cons, hroom, List.replicate_succ,
          List.cons_append]
      · have hshown : ¬ (d.char = '0' ∨ d.char = ' ') := by
          rintro (hzero | hblank)
          · exact hd (d.char_eq_zero_iff.1 hzero)
          · exact d.char_ne (by decide) hblank
        rw [if_neg hshown, Digits.normalize_cons_of_ne hd]
        simp [hds, Digits.text_cons]

/-- The numeral of the answer: what went out of the last column and the digits written, without the
zeros in front. -/
def answerNumeral (a : Alignment) (last : Int) (es : List Entry) : Numeral :=
  ⟨Digits.normalize (Digit.ofNat last.toNat :: (writtenNumeral a es).integer),
    (writtenNumeral a es).fraction⟩

/-- The numeral of the answer has no needless zero in front. -/
theorem answerNumeral_integer (a : Alignment) (last : Int) (es : List Entry) :
    (answerNumeral a last es).integer = [0] ∨
      ∃ d rest, (answerNumeral a last es).integer = d :: rest ∧ d ≠ 0 :=
  Digits.normalize_eq_zero_or _

section

variable {m : Method} {a : Alignment} {last : Int} {es : List Entry}
  (h : Run m 0 a.columns.reverse es last)

include h

theorem Run.length_written : (written es).length = a.integerWidth + a.fractionWidth := by
  rw [Column.length_written, h.length_eq]

theorem Run.length_integer : (writtenNumeral a es).integer.length = a.integerWidth := by
  simp [writtenNumeral, h.length_eq]

theorem Run.length_fraction : (writtenNumeral a es).fraction.length = a.fractionWidth := by
  simp [writtenNumeral, h.length_eq]

/-- **The answer row**: blanks up to the numeral of the answer. -/
theorem Run.blankLeading_cells (hw : a.integerWidth ≠ 0) :
    blankLeading a.unitsColumn
        (es.foldl (Progress.write m a) (Progress.start a)).cells =
      List.replicate (a.integerWidth + 1 - (answerNumeral a last es).integer.length) ' ' ++
        (answerNumeral a last es).text := by
  have hlen := h.length_integer
  have hwritten := Numeral.text_mk (writtenNumeral a es).integer (writtenNumeral a es).fraction
  change (writtenNumeral a es).text = _ at hwritten
  rw [h.cells_finish hw, Alignment.unitsColumn, answerNumeral, hwritten,
    Numeral.text_mk (Digits.normalize _)]
  rcases h.last_eq with rfl | rfl
  · obtain ⟨k, hk⟩ := Nat.exists_eq_succ_of_ne_zero hw
    have hne := List.ne_nil_of_length_eq_add_one (hlen.trans hk)
    have hle := Digits.length_normalize_le hne
    have hzero : Digit.ofNat (0 : Int).toNat = 0 := rfl
    have hroom : k.succ + 1 - (Digits.normalize (writtenNumeral a es).integer).length =
        k + 1 - (Digits.normalize (writtenNumeral a es).integer).length + 1 := by omega
    rw [hk, leadingCell, if_pos rfl, blankLeading, if_pos (.inr rfl),
      blankLeading_text (hlen.trans hk), hzero, Digits.normalize_zero_cons, hroom,
      List.replicate_succ, List.cons_append]
  · have hlead : leadingCell 1 = (Digit.ofNat (1 : Int).toNat).char := by decide
    rw [hlead, ← List.cons_append, ← Digits.text_cons,
      blankLeading_text (by rw [List.length_cons, hlen])]

/-- Without its blanks the row is the numeral of the answer. -/
theorem Run.compact_answerRow (hw : a.integerWidth ≠ 0) :
    Row.compact (blankLeading a.unitsColumn
        (es.foldl (Progress.write m a) (Progress.start a)).cells) =
      (answerNumeral a last es).text := by
  rw [h.blankLeading_cells hw, Row.compact_append, Row.compact_blanks, List.nil_append,
    Row.compact_numeral]

/-- What is written spells what the two numerals make together, with what went out of the last column
as one more digit in front, if nothing that counts as negative goes out there. -/
theorem Run.value_leading (hlast : m = .addition ∨ last = 0) :
    (Digits.value (Digit.ofNat last.toNat :: written es) : ℚ) =
      (a.top.toRat + m.sign * a.bottom.toRat) * 10 ^ a.fractionWidth := by
  have hsign : (m.sign : ℚ) * last = last := by
    rcases hlast with rfl | rfl
    · simp [Method.sign]
    · simp
  have hdigit : ((Digit.ofNat last.toNat).val : ℚ) = last := by
    rcases h.last_eq with rfl | rfl <;> simp [Digit.ofNat]
  have hvalue := congrArg (fun z : Int => (z : ℚ)) h.value
  simp only [List.map_reverse, List.reverse_reverse, a.columns_top, a.columns_bottom,
    List.length_reverse] at hvalue
  push_cast at hvalue
  rw [a.length_columns, a.holds_top.value_digits, a.holds_bottom.value_digits] at hvalue
  rw [Digits.value_cons, h.length_written, Nat.cast_add, Nat.cast_mul, pow10_eq, hdigit]
  linear_combination hvalue - 10 ^ (a.integerWidth + a.fractionWidth) * hsign

/-- **The answer is exact**: it is what the two numerals make together, if nothing that counts as
negative goes out of the last column. -/
theorem Run.toRat_answerNumeral (hlast : m = .addition ∨ last = 0) :
    (answerNumeral a last es).toRat = a.top.toRat + m.sign * a.bottom.toRat := by
  have hscaled : Digits.value (answerNumeral a last es).scaled =
      Digits.value (Digit.ofNat last.toNat :: written es) := by
    rw [Numeral.scaled, answerNumeral, Digits.value_append, Digits.value_normalize,
      ← Digits.value_append, List.cons_append, writtenNumeral, List.take_append_drop]
  have hfraction : (answerNumeral a last es).fraction.length = a.fractionWidth := h.length_fraction
  rw [Numeral.toRat_eq, hscaled, hfraction, h.value_leading hlast, zpow_neg, zpow_natCast,
    mul_assoc, mul_inv_cancel₀ (by positivity), mul_one]

end

/-! ## Pages -/

section

variable {m : Method} {a : Alignment} {last : Int} {es : List Entry}
  (h : Run m 0 a.columns.reverse es last)

include h

theorem Run.column_mem {e : Entry} (he : e ∈ es) : e.column ∈ a.columnIndices := by
  rw [← List.mem_reverse, ← h.column_eq]
  exact List.mem_map_of_mem he

theorem Run.column_bounds {e : Entry} (he : e ∈ es) : e.column ≠ 0 ∧ e.column < a.width :=
  a.mem_columnIndices (h.column_mem he)

/-- A list over the columns tells something about every entry in its column. -/
theorem Run.forall_column {f : Nat → Int} {g : Entry → Int}
    (hfg : a.columnIndices.reverse.map f = es.map g) : ∀ e ∈ es, f e.column = g e := by
  rw [← List.map_inj_left, ← hfg, ← h.column_eq, List.map_map]
  rfl

/-- What holds of the top digits in their columns holds of what the entries read there. -/
theorem Run.top_eq {f : Nat → Int}
    (hf : a.columnIndices.map f = (a.digits a.top).map fun x => (x.val : Int)) :
    ∀ e ∈ es, f e.column = e.top := by
  apply h.forall_column
  rw [h.map_top, List.map_reverse, List.map_reverse, hf, ← a.columns_top, List.map_map]
  rfl

theorem Run.bottom_eq {f : Nat → Int}
    (hf : a.columnIndices.map f = (a.digits a.bottom).map fun x => (x.val : Int)) :
    ∀ e ∈ es, f e.column = e.bottom := by
  apply h.forall_column
  rw [h.map_bottom, List.map_reverse, List.map_reverse, hf, ← a.columns_bottom, List.map_map]
  rfl

/-- Every entry reads the digits that the two numbers have at the place of its column. -/
theorem Run.operands_eq {d v : Decimal} (hd : d.toRat = a.top.toRat)
    (hv : v.toRat = a.bottom.toRat) :
    ∀ e ∈ es, e.top = d.digitAt (a.exponent e.column) ∧
      e.bottom = v.digitAt (a.exponent e.column) := by
  intro e he
  constructor
  · exact (h.top_eq (a.holds_top.map_digitAt_exponent hd) e he).symm
  · exact (h.bottom_eq (a.holds_bottom.map_digitAt_exponent hv) e he).symm

/-- The columns are passed over from the least significant place up. -/
theorem Run.exponent_getElem {i : Nat} (hi : i < es.length) :
    a.exponent es[i].column = (i : Int) - a.fractionWidth := by
  have hplaces := congrArg List.reverse a.map_exponent
  rw [← List.map_reverse, ← h.column_eq, List.map_map, List.map_reverse, List.reverse_reverse]
    at hplaces
  have hplace := List.getElem_of_eq hplaces (i := i) (by simpa using hi)
  simpa using hplace

/-- Every entry but the last one names the digit column of the next higher place. -/
theorem Run.last_or_next {e : Entry} (he : e ∈ es) :
    es.getLast? = some e ∨
      e.next ∈ a.columnIndices ∧ a.exponent e.next = a.exponent e.column + 1 := by
  obtain ⟨i, hi, rfl⟩ := List.getElem_of_mem he
  by_cases hnext : i + 1 < es.length
  · have hhere := h.exponent_getElem hi
    have hthere := h.exponent_getElem hnext
    rw [h.next_getElem hnext]
    refine .inr ⟨h.column_mem (List.getElem_mem hnext), ?_⟩
    rw [hthere, hhere]
    push_cast
    ring
  · left
    rw [List.getLast?_eq_getElem?, show es.length - 1 = i by omega]
    exact List.getElem?_eq_getElem hi

/-- Every entry writes the digit that the result has at the place of its column. -/
theorem Run.digit_eq (hlast : m = .addition ∨ last = 0) {z : Decimal}
    (hz : z.toRat = a.top.toRat + m.sign * a.bottom.toRat) :
    ∀ e ∈ es, e.digit = z.digitAt (a.exponent e.column) := by
  intro e he
  obtain ⟨i, hi, rfl⟩ := List.getElem_of_mem he
  have hvalue := h.value_leading hlast
  rw [← hz] at hvalue
  have hdigit : (Digit.ofNat last.toNat :: written es).reverse[i]? =
      some (Digit.ofNat es[i].digit.toNat) := by
    rw [List.reverse_cons, written, List.reverse_reverse, List.getElem?_append_left (by simpa),
      List.getElem?_map, List.getElem?_eq_getElem hi, Option.map_some]
  have hbounds := (h.settles he).digit
  rw [h.exponent_getElem hi, Decimal.digitAt_of_spelled hvalue hdigit, Digit.val_ofNat]
  omega

end

theorem getElem_columnDrafts (m : Method) (a : Alignment) (p : Progress) (es : List Entry) (i : Nat)
    (hi : i < es.length) :
    (columnDrafts m a p es)[i]? =
      some (columnDraft m a ((es.take (i + 1)).foldl (Progress.write m a) p) es[i]) := by
  induction es generalizing p i with
  | nil => simp at hi
  | cons e es ih =>
    cases i with
    | zero => simp [columnDrafts]
    | succ i => simpa [columnDrafts] using ih (p.write m a e) i (by simpa using hi)

theorem length_columnDrafts (m : Method) (a : Alignment) (p : Progress) (es : List Entry) :
    (columnDrafts m a p es).length = es.length := by
  induction es generalizing p with
  | nil => rfl
  | cons e es ih => simp [columnDrafts, ih]

@[simp] theorem page_rows (m : Method) (rows : List Row) (highlights : Option (List Highlight))
    (transfers : List Transfer) : (page m rows highlights transfers).rows = rows := by
  cases m <;> rfl

@[simp] theorem page_highlights (m : Method) (rows : List Row)
    (highlights : Option (List Highlight)) (transfers : List Transfer) :
    (page m rows highlights transfers).highlights = highlights := by
  cases m <;> rfl

/-- The pages: the numerals aligned, one page for each column, and the answer. -/
theorem drafts_eq (m : Method) (a : Alignment) (exchanged : Option (String × String))
    (answer : String) :
    ∃ first final, drafts m a exchanged answer =
        first :: (columnDrafts m a (Progress.start a) (passAll m.rule a) ++ [final]) ∧
      first.layout = { rows := header m a } ∧
      final.layout = page m
        (header m a ++ [answerRow a exchanged.isSome (Progress.finish m a).cells]) none
        (Progress.finish m a).transfers := by
  cases exchanged <;> exact ⟨_, _, rfl, rfl, rfl⟩

theorem rows_of_mem_columnDrafts {m : Method} {a : Alignment} {p : Progress} {es : List Entry}
    {d : Draft} (hd : d ∈ columnDrafts m a p es) :
    ∃ cells, d.layout.rows = header m a ++ [cells] := by
  induction es generalizing p with
  | nil => simp [columnDrafts] at hd
  | cons e es ih =>
    rcases List.mem_cons.1 hd with rfl | hd
    · exact ⟨(p.write m a e).cells, by simp [columnDraft]⟩
    · exact ih hd

/-- Every page starts with the two numerals, the bottom one with the sign before it. -/
theorem rows_of_mem_drafts {m : Method} {a : Alignment} {exchanged : Option (String × String)}
    {answer : String} {d : Draft} (hd : d ∈ drafts m a exchanged answer) :
    ∃ rest, d.layout.rows = header m a ++ rest := by
  obtain ⟨first, final, heq, hfirst, hfinal⟩ := drafts_eq m a exchanged answer
  rw [heq, List.mem_cons, List.mem_append, List.mem_singleton] at hd
  rcases hd with rfl | hd | rfl
  · exact ⟨[], by rw [hfirst, List.append_nil]⟩
  · obtain ⟨cells, hcells⟩ := rows_of_mem_columnDrafts hd
    exact ⟨_, hcells⟩
  · exact ⟨_, by rw [hfinal, page_rows]⟩

/-- A page on which a column has just been worked: the entry can be read in its column. -/
structure ShowsEntry (e : Entry) (l : Layout) : Prop where
  top : (l.digitAt 0 e.column : Int) = e.top
  bottom : (l.digitAt 1 e.column : Int) = e.bottom
  digit : (l.digitAt 3 e.column : Int) = e.digit
  highlighted : l.highlights.map (List.map fun x => (x.row, x.column)) =
    some [(0, e.column), (1, e.column), (3, e.column)]

/-- What can be read in its column, once an entry has been written. -/
theorem Run.showsEntry {m : Method} {a : Alignment} {last : Int} {es : List Entry}
    (h : Run m 0 a.columns.reverse es last) {e : Entry} (he : e ∈ es) {p : Progress}
    (hp : p.cells.length = a.width) :
    ShowsEntry e (columnDraft m a (p.write m a e) e).layout.squared := by
  obtain ⟨hpos, hlt⟩ := h.column_bounds he
  have hcast : ∀ n sign, a.Holds n →
      a.columnIndices.map (fun c => (Row.digitAt (sign :: a.row n) c : Int)) =
        (a.digits n).map fun x => (x.val : Int) := by
    intro n sign hn
    have hrow := congrArg (List.map fun k : Nat => (k : Int)) (hn.map_digitAt_row sign)
    simpa [Function.comp_def] using hrow
  have hrows : (columnDraft m a (p.write m a e) e).layout.rows =
      [' ' :: a.row a.top, m.symbol :: a.row a.bottom, List.replicate a.width '-',
        (p.write m a e).cells] := by
    simp [columnDraft, header]
  refine ⟨?_, ?_, ?_, ?_⟩
  · rw [Layout.digitAt_squared, Layout.digitAt, hrows]
    exact h.top_eq (hcast _ _ a.holds_top) e he
  · rw [Layout.digitAt_squared, Layout.digitAt, hrows]
    exact h.bottom_eq (hcast _ _ a.holds_bottom) e he
  · rw [Layout.digitAt_squared, Layout.digitAt, hrows]
    exact Progress.digitAt_write m a (h.settles he).digit hpos (hp ▸ hlt)
  · simp [columnDraft, Layout.squared]

section

variable {m : Method} {a : Alignment} {last : Int} {es : List Entry}

/-- The page of a column, with the columns before it written. -/
theorem Run.showsEntry_take (h : Run m 0 a.columns.reverse es last) {i : Nat} (hi : i < es.length)
    {s : Step} (hs : s.Shows (columnDraft m a
      ((es.take (i + 1)).foldl (Progress.write m a) (Progress.start a)) es[i])) :
    ShowsEntry es[i] s.layout := by
  have hlen := Progress.length_cells_foldl m a (Progress.start a) (es.take i)
  rw [Progress.length_cells_start] at hlen
  rw [hs.layout, List.take_succ_eq_append_getElem hi, List.foldl_append]
  exact h.showsEntry (List.getElem_mem hi) hlen

/-- On the page of a column the digit written stands in the result row. -/
theorem Run.cell?_take (h : Run m 0 a.columns.reverse es last) {i : Nat} (hi : i < es.length)
    {s : Step} (hs : s.Shows (columnDraft m a
      ((es.take (i + 1)).foldl (Progress.write m a) (Progress.start a)) es[i])) :
    ∃ digit : Digit, s.layout.cell? 3 es[i].column = some digit.char ∧
      (digit.val : Int) = es[i].digit := by
  obtain ⟨hpos, hlt⟩ := h.column_bounds (List.getElem_mem hi)
  have hdigit := (h.settles (List.getElem_mem hi)).digit
  refine ⟨Digit.ofNat es[i].digit.toNat, ?_, ?_⟩
  · have hlen := Progress.length_cells_foldl m a (Progress.start a) (es.take i)
    rw [Progress.length_cells_start] at hlen
    have hcell := Progress.getElem_write m a hpos (hlen ▸ hlt)
    rw [hs.layout, List.take_succ_eq_append_getElem hi, List.foldl_append, ← digitChar_eq hdigit]
    apply Layout.cell?_squared
    rw [← hcell]
    simp [Layout.cell?, columnDraft, header]
  · rw [Digit.val_ofNat]
    omega

/-- The steps: one that sets up, one for each column, and one with the answer. -/
theorem pages_of_shows {exchanged : Option (String × String)} {answer : String}
    {steps : List Step} (hshows : List.Forall₂ Step.Shows steps (drafts m a exchanged answer)) :
    ∃ (first : Step) (shown : List Step) (last : Step),
      steps = first :: (shown ++ [last]) ∧
      first.layout = ({ rows := header m a } : Layout).squared ∧
      shown.length = (passAll m.rule a).length ∧
      (∀ i (hi : i < (passAll m.rule a).length), ∃ s, shown[i]? = some s ∧
        s.Shows (columnDraft m a
          (((passAll m.rule a).take (i + 1)).foldl (Progress.write m a) (Progress.start a))
          (passAll m.rule a)[i])) ∧
      last.layout = (page m
        (header m a ++ [answerRow a exchanged.isSome (Progress.finish m a).cells]) none
        (Progress.finish m a).transfers).squared := by
  obtain ⟨first, final, hpages, hfirst, hfinal⟩ := drafts_eq m a exchanged answer
  rw [hpages] at hshows
  obtain ⟨firstStep, others, hfirstStep, hothers, rfl⟩ := List.forall₂_cons_right_iff.1 hshows
  obtain ⟨shown, lastSteps, rfl, hshown, hlast⟩ := Step.exists_append hothers
  obtain ⟨last, hfinalStep, rfl⟩ := Step.exists_singleton hlast
  refine ⟨firstStep, shown, last, rfl, ?_, ?_, ?_, ?_⟩
  · rw [hfirstStep.layout, hfirst]
  · rw [hshown.length_eq, length_columnDrafts]
  · intro i hi
    have hdraft := getElem_columnDrafts m a (Progress.start a) (passAll m.rule a) i hi
    exact Step.exists_getElem hshown hdraft
  · rw [hfinalStep.layout, hfinal]

theorem length_of_mem_header {r : Row} (hr : r ∈ header m a) : r.length = a.width := by
  simp only [header, List.mem_cons, List.not_mem_nil, or_false] at hr
  rcases hr with rfl | rfl | rfl
  · exact a.holds_top.length_row
  · exact a.holds_bottom.length_row
  · exact List.length_replicate

/-- The decimal that the bottom row shows, with the sign before it. -/
def Method.signed (m : Method) (n : Numeral) : Decimal :=
  { n.toDecimal with negative := m = .subtraction }

theorem Method.toRat_signed (m : Method) (n : Numeral) :
    (m.signed n).toRat = m.sign * n.toRat := by
  cases m with
  | addition => simp [signed, sign, Numeral.toRat, Numeral.toDecimal]
  | subtraction => simp [signed, sign, Numeral.toRat, Numeral.toDecimal, Decimal.toRat,
      Decimal.signed]

/-- The first two rows of a page show the two numbers. -/
theorem numbers_header (m : Method) (htop : a.top.integer ≠ []) (hbottom : a.bottom.integer ≠ [])
    (rest : List Row) :
    ((header m a ++ rest).map Row.number?).take 2 =
      [some a.top.toDecimal, some (m.signed a.bottom)] := by
  have hfirst : Row.number? (' ' :: a.row a.top) = some a.top.toDecimal := by
    rw [Row.number?, Row.compact_blank_cons, a.holds_top.compact_row]
    exact Numeral.read?_text htop
  have hsecond : Row.number? (m.symbol :: a.row a.bottom) = some (m.signed a.bottom) := by
    cases m with
    | addition =>
      rw [Row.number?, Method.symbol, Row.compact_cons (by decide), a.holds_bottom.compact_row]
      exact Numeral.read?_plus_text hbottom
    | subtraction =>
      rw [Row.number?, Method.symbol, Row.compact_cons (by decide), a.holds_bottom.compact_row]
      exact Numeral.read?_minus_text hbottom
  simp only [header, List.cons_append, List.map_cons, List.take_succ_cons, List.take_zero]
  rw [hfirst, hsecond]

/-- Every step shows the two numbers in its first two rows. -/
theorem numbers_of_shows {exchanged : Option (String × String)} {answer : String}
    {steps : List Step} (htop : a.top.integer ≠ []) (hbottom : a.bottom.integer ≠ [])
    (hshows : List.Forall₂ Step.Shows steps (drafts m a exchanged answer)) {s : Step}
    (hs : s ∈ steps) :
    s.layout.numbers.take 2 = [some a.top.toDecimal, some (m.signed a.bottom)] := by
  obtain ⟨draft, hdraft, hshow⟩ := Step.exists_draft hshows hs
  obtain ⟨rest, hrest⟩ := rows_of_mem_drafts hdraft
  rw [hshow.layout, Layout.numbers_squared, Layout.numbers, hrest]
  exact numbers_header m htop hbottom rest

end

end Longhand.Column
