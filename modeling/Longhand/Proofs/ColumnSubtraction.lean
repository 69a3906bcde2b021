import Longhand.Proofs.ColumnPass
import Longhand.Proofs.Operands
/-!
# Column subtraction is exact

Whichever operand comes first, the larger one stands on top. Then nothing is borrowed from beyond
the leftmost column (`Run.last_eq_zero`): the digits written spell less than one unit of the column
that would come next, so such a borrow would leave the bottom number the greater one. Every borrow
therefore comes from the digit column to the left, and the last page shows the difference, with a
minus before its first digit if the operands were exchanged.
-/

namespace Longhand.Column

/-! ## The operands -/

def larger (d v : Decimal) : Decimal :=
  if d.toRat < v.toRat then v else d

def smaller (d v : Decimal) : Decimal :=
  if d.toRat < v.toRat then d else v

theorem toRat_larger (d v : Decimal) : (larger d v).toRat = max d.toRat v.toRat := by
  unfold larger
  split
  · rename_i h
    exact (max_eq_right h.le).symm
  · rename_i h
    exact (max_eq_left (not_lt.1 h)).symm

theorem toRat_smaller (d v : Decimal) : (smaller d v).toRat = min d.toRat v.toRat := by
  unfold smaller
  split
  · rename_i h
    exact (min_eq_left h.le).symm
  · rename_i h
    exact (min_eq_right (not_lt.1 h)).symm

def terms (d v : Decimal) : Alignment :=
  ⟨(larger d v).numeral, (smaller d v).numeral⟩

theorem toRat_terms_top {d v : Decimal} (hd : 0 ≤ d.toRat) :
    (terms d v).top.toRat = max d.toRat v.toRat := by
  have hpos : 0 ≤ (larger d v).toRat := by
    rw [toRat_larger]
    exact le_max_of_le_left hd
  rw [← toRat_larger]
  exact Decimal.toRat_numeral_of_nonneg hpos

theorem toRat_terms_bottom {d v : Decimal} (hd : 0 ≤ d.toRat) (hv : 0 ≤ v.toRat) :
    (terms d v).bottom.toRat = min d.toRat v.toRat := by
  have hpos : 0 ≤ (smaller d v).toRat := by
    rw [toRat_smaller]
    exact le_min hd hv
  rw [← toRat_smaller]
  exact Decimal.toRat_numeral_of_nonneg hpos

theorem terms_integerWidth (d v : Decimal) : (terms d v).integerWidth ≠ 0 := by
  have hne := List.length_pos_iff.2 (larger d v).numeral_integer_ne_nil
  have hle := (terms d v).holds_top.integer_le
  simp only [terms] at hle
  intro h
  simp only [terms] at h
  omega

def subtractionPass (d v : Decimal) : List Entry :=
  passAll borrowRule (terms d v)

/-! ## What a subtraction shows -/

/-- The borrows of some columns: from which column, for which one, and how much. -/
def borrowed (es : List Entry) : List (Nat × Nat × Int) :=
  (es.filter fun e => e.outgoing ≠ 0).map fun e => (e.next, e.column, 1)

/-- The borrows on a page, without their descriptions. -/
def borrowsShown (l : Layout) : Option (List (Nat × Nat × Int)) :=
  l.borrows.map (List.map fun t => (t.fromColumn, t.toColumn, t.value))

/-- A borrow of one from the digit column to the left of the one that needs it. -/
structure FromNextPlace (a : Alignment) (t : Transfer) : Prop where
  pos : 1 ≤ t.fromColumn
  columns : t.fromColumn ∈ a.columnIndices ∧ t.toColumn ∈ a.columnIndices
  places : a.exponent t.fromColumn = a.exponent t.toColumn + 1
  value : t.value = 1
  description : t.description = "Borrow 1 from the " ++ a.place t.fromColumn ++ " column"

/-- A step that subtracts a column. `done` are the columns so far, this one included. -/
structure SubtractsColumn (a : Alignment) (done : List Entry) (e : Entry) (s : Step) : Prop where
  entry : ShowsEntry e s.layout
  /-- A digit is written, and nothing else. -/
  written : ∃ digit : Digit, s.layout.cell? 3 e.column = some digit.char ∧
    (digit.val : Int) = e.digit
  borrows : borrowsShown s.layout = some (borrowed done)
  explanation : s.explanation = (narrateSubtraction a e).explanation

/-- A last row that shows the difference of two numbers: blanks, a minus if the first number is the
smaller one, and right after it the digits, without needless zeros before the ones. -/
structure ShowsDifference (l : Layout) (d v : Decimal) : Prop where
  row : ∃ (blanks : Nat) (n : Numeral),
    l.rows.getLast? = some (List.replicate blanks ' ' ++
      ((if d.toRat < v.toRat then ['-'] else []) ++ n.text)) ∧
    (n.integer = [0] ∨ ∃ digit rest, n.integer = digit :: rest ∧ digit ≠ 0)
  number : ∃ W : Decimal, l.numbers.getLast? = some (some W) ∧ W.toRat = d.toRat - v.toRat

/-- The pass over the columns of a subtraction. -/
structure ExactBorrowing (d v : Decimal) (es : List Entry) : Prop where
  /-- Every digit column once, from right to left. -/
  columns : es.map (·.column) =
    ((List.range (terms d v).width).filter fun c =>
      c ≠ 0 ∧ (terms d v).pointColumn? ≠ some c).reverse
  /-- The digits of the operands at the place of the column. -/
  operands : ∀ e ∈ es, e.top = (larger d v).digitAt ((terms d v).exponent e.column) ∧
    e.bottom = (smaller d v).digitAt ((terms d v).exponent e.column)
  /-- A digit and a borrow that make up the difference of the column. -/
  digits : ∀ e ∈ es, 0 ≤ e.digit ∧ e.digit ≤ 9 ∧ (e.outgoing = 0 ∨ e.outgoing = 1) ∧
    e.digit - 10 * e.outgoing = e.top - e.bottom - e.incoming
  /-- What is lent is what the column before borrowed. -/
  chain : es.map (·.incoming) = (0 :: es.map (·.outgoing)).dropLast
  /-- The leftmost digit column borrows nothing. -/
  last : ∀ e ∈ es.getLast?, e.outgoing = 0

/-- The pages of a subtraction: one for the set-up, one for each column, and one for the answer. -/
structure DifferencePages (d v : Decimal) (first : Step) (shown : List Step) (last : Step) :
    Prop where
  length_eq : shown.length = (subtractionPass d v).length
  subtractsColumn : ∀ i (hi : i < (subtractionPass d v).length), ∃ s, shown[i]? = some s ∧
    SubtractsColumn (terms d v) ((subtractionPass d v).take (i + 1)) (subtractionPass d v)[i] s
  borrows : borrowsShown last.layout = some (borrowed (subtractionPass d v))
  answer : ShowsDifference last.layout d v

/-- A subtraction that is exact on the page, with the larger operand above the smaller one on every
page. -/
structure ExactDifference (d v : Decimal) (steps : List Step) : Prop where
  pass : ExactBorrowing d v (subtractionPass d v)
  operands : ∀ s ∈ steps, ∃ top bottom : Decimal,
    s.layout.numbers.take 2 = [some top, some bottom] ∧ top.toRat = max d.toRat v.toRat ∧
      bottom.toRat = -min d.toRat v.toRat
  borrows : ∀ s ∈ steps, ∀ ts ∈ s.layout.borrows, ∀ t ∈ ts, FromNextPlace (terms d v) t
  pages : ∃ (first : Step) (shown : List Step) (last : Step),
    steps = first :: (shown ++ [last]) ∧ DifferencePages d v first shown last

/-! ## Nothing is borrowed from beyond the last column -/

/-- If the bottom number is not the greater one, nothing goes out of the last column. -/
theorem Run.last_eq_zero {a : Alignment} {last : Int} {es : List Entry}
    (h : Run .subtraction 0 a.columns.reverse es last) (hle : a.bottom.toRat ≤ a.top.toRat) :
    last = 0 := by
  have hpos : (0 : ℚ) < 10 ^ a.fractionWidth := by positivity
  have hvalue := h.value
  simp only [List.map_reverse, List.reverse_reverse, a.columns_top, a.columns_bottom,
    List.length_reverse, Method.sign, add_zero] at hvalue
  -- the digits in the columns compare as the numbers do
  have hdigits : Digits.value (a.digits a.bottom) ≤ Digits.value (a.digits a.top) := by
    have hcast : (Digits.value (a.digits a.bottom) : ℚ) ≤ Digits.value (a.digits a.top) := by
      rw [a.holds_top.value_digits, a.holds_bottom.value_digits]
      exact mul_le_mul_of_nonneg_right hle hpos.le
    exact_mod_cast hcast
  have hlt : (Digits.value (written es) : Int) < 10 ^ a.columns.length := by
    have hbound := Digits.value_lt (written es)
    rw [h.length_written, ← a.length_columns] at hbound
    exact_mod_cast hbound
  rcases h.last_eq with hzero | hone
  · exact hzero
  · rw [hone] at hvalue
    omega

/-- A column that borrows is not the last one, and borrows from the one to its left. -/
theorem Run.fromNextPlace {a : Alignment} {es : List Entry}
    (h : Run .subtraction 0 a.columns.reverse es 0) {e : Entry} (he : e ∈ es)
    (hout : e.outgoing ≠ 0) : FromNextPlace a (transfer .subtraction a e) := by
  rcases h.last_or_next he with hlast | ⟨hnext, hplace⟩
  · exact absurd (h.outgoing_getLast hlast) hout
  · refine ⟨Nat.pos_of_ne_zero (a.mem_columnIndices hnext).1, ⟨hnext, h.column_mem he⟩, hplace, rfl, ?_⟩
    simp [transfer, toString]

/-! ## The last row -/

theorem length_blankLeading (n : Nat) (r : Row) : (blankLeading n r).length = r.length := by
  fun_induction blankLeading n r <;> simp_all

theorem length_signFirst (r : Row) : (signFirst r).length = r.length := by
  fun_induction signFirst r <;> simp_all

theorem length_answerRow (a : Alignment) (negative : Bool) (cells : Row) :
    (answerRow a negative cells).length = cells.length := by
  unfold answerRow
  split <;> simp [length_signFirst, length_blankLeading]

/-- The minus takes the place of the last blank. -/
theorem signFirst_blanks (k : Nat) {c : Char} (hc : c ≠ ' ') (rest : Row) :
    signFirst (List.replicate (k + 1) ' ' ++ c :: rest) =
      List.replicate k ' ' ++ '-' :: c :: rest := by
  induction k with
  | zero => simp [signFirst, hc]
  | succ k ih =>
    rw [List.replicate_succ, List.replicate_succ, List.cons_append, List.cons_append, signFirst]
    rw [List.replicate_succ, List.cons_append] at ih
    rw [ih]
    rfl

section

variable {d v : Decimal} (hd : 0 ≤ d.toRat) (hv : 0 ≤ v.toRat)

include hd hv

theorem run_subtraction : Run .subtraction 0 (terms d v).columns.reverse (subtractionPass d v) 0 := by
  have hrun : Run .subtraction 0 (terms d v).columns.reverse (subtractionPass d v) _ :=
    run_pass .subtraction (.inl rfl) _
  have hle : (terms d v).bottom.toRat ≤ (terms d v).top.toRat := by
    rw [toRat_terms_top hd, toRat_terms_bottom hd hv]
    exact min_le_max
  rwa [hrun.last_eq_zero hle] at hrun

/-- The difference of the larger operand and the smaller one. -/
theorem toRat_answerNumeral_subtraction :
    (answerNumeral (terms d v) 0 (subtractionPass d v)).toRat =
      max d.toRat v.toRat - min d.toRat v.toRat := by
  rw [(run_subtraction hd hv).toRat_answerNumeral (.inr rfl), toRat_terms_top hd,
    toRat_terms_bottom hd hv]
  simp [Method.sign, sub_eq_add_neg]

/-- Nothing went out of the last column, so the difference has no more digits than the columns. -/
theorem length_answerNumeral_subtraction :
    (answerNumeral (terms d v) 0 (subtractionPass d v)).integer.length ≤
      (terms d v).integerWidth := by
  have hlen := (run_subtraction hd hv).length_integer
  have hpos := Nat.pos_of_ne_zero (terms_integerWidth d v)
  have hle := Digits.length_normalize_le (List.ne_nil_of_length_pos (hlen ▸ hpos))
  rw [hlen] at hle
  exact (congrArg List.length (Digits.normalize_zero_cons _)).trans_le hle

/-- The last row: blanks, the sign, and the numeral of the difference. -/
theorem answerRow_subtraction :
    ∃ blanks, answerRow (terms d v) (decide (d.toRat < v.toRat))
        (Progress.finish .subtraction (terms d v)).cells =
      List.replicate blanks ' ' ++ ((if d.toRat < v.toRat then ['-'] else []) ++
        (answerNumeral (terms d v) 0 (subtractionPass d v)).text) := by
  have hrow : blankLeading (terms d v).unitsColumn
      (Progress.finish .subtraction (terms d v)).cells = _ :=
    (run_subtraction hd hv).blankLeading_cells (terms_integerWidth d v)
  have hroom := length_answerNumeral_subtraction hd hv
  have hne : (answerNumeral (terms d v) 0 (subtractionPass d v)).integer ≠ [] :=
    Digits.normalize_ne_nil _
  unfold answerRow
  rw [hrow]
  generalize answerNumeral (terms d v) 0 (subtractionPass d v) = n at *
  by_cases hlt : d.toRat < v.toRat
  · -- column 0 is blank and has room for the minus
    obtain ⟨digit, rest, htext⟩ := Numeral.exists_text_eq_cons hne
    refine ⟨(terms d v).integerWidth - n.integer.length, ?_⟩
    rw [Nat.sub_add_comm hroom, htext]
    simpa [hlt] using signFirst_blanks _ (digit.char_ne (by decide)) rest
  · refine ⟨(terms d v).integerWidth + 1 - n.integer.length, ?_⟩
    simp [hlt]

/-- The last page shows the difference. -/
theorem showsDifference_of_rows {l : Layout}
    (hl : l.rows = header .subtraction (terms d v) ++
      [answerRow (terms d v) (decide (d.toRat < v.toRat))
        (Progress.finish .subtraction (terms d v)).cells]) :
    ShowsDifference l.squared d v := by
  obtain ⟨blanks, hrow⟩ := answerRow_subtraction hd hv
  have hexact := toRat_answerNumeral_subtraction hd hv
  have hinteger := answerNumeral_integer (terms d v) 0 (subtractionPass d v)
  have hne : (answerNumeral (terms d v) 0 (subtractionPass d v)).integer ≠ [] :=
    Digits.normalize_ne_nil _
  generalize answerNumeral (terms d v) 0 (subtractionPass d v) = n at *
  have hwidth : ∀ r ∈ l.rows, r.length = (terms d v).width := by
    intro r hr
    rw [hl, List.mem_append, List.mem_singleton] at hr
    rcases hr with hr | rfl
    · exact length_of_mem_header hr
    · rw [length_answerRow, Progress.finish, Progress.length_cells_foldl,
        Progress.length_cells_start]
  have hlast : l.squared.rows.getLast? = some (List.replicate blanks ' ' ++
      ((if d.toRat < v.toRat then ['-'] else []) ++ n.text)) := by
    rw [Layout.rows_squared hwidth, hl, List.getLast?_concat, hrow]
  refine ⟨⟨blanks, n, hlast, hinteger⟩, ?_⟩
  have hnumbers : l.squared.numbers.getLast? = some (Row.number? (List.replicate blanks ' ' ++
      ((if d.toRat < v.toRat then ['-'] else []) ++ n.text))) := by
    rw [Layout.numbers, List.getLast?_map, hlast, Option.map_some]
  rw [hnumbers, Row.number?, Row.compact_append, Row.compact_blanks, List.nil_append]
  by_cases hlt : d.toRat < v.toRat
  · rw [if_pos hlt, List.singleton_append, Row.compact_cons (by decide), Row.compact_numeral,
      Numeral.read?_minus_text hne]
    refine ⟨_, rfl, ?_⟩
    have hneg : ({ n.toDecimal with negative := true } : Decimal).toRat = -n.toRat :=
      Decimal.toRat_neg n.toDecimal
    rw [hneg, hexact, max_eq_right hlt.le, min_eq_left hlt.le, neg_sub]
  · rw [if_neg hlt, List.nil_append, Row.compact_numeral, Numeral.read?_text hne]
    refine ⟨_, rfl, ?_⟩
    have hle := not_lt.1 hlt
    rw [show n.toDecimal.toRat = n.toRat from rfl, hexact, max_eq_left hle, min_eq_right hle]

end

/-! ## The pages -/

theorem exactBorrowing_subtractionPass {d v : Decimal} (hd : 0 ≤ d.toRat) (hv : 0 ≤ v.toRat) :
    ExactBorrowing d v (subtractionPass d v) := by
  have hrun := run_subtraction hd hv
  have htop : (larger d v).toRat = (terms d v).top.toRat := by
    rw [toRat_terms_top hd, toRat_larger]
  have hbottom : (smaller d v).toRat = (terms d v).bottom.toRat := by
    rw [toRat_terms_bottom hd hv, toRat_smaller]
  refine ⟨?_, ?_, ?_, ?_, ?_⟩
  · rw [hrun.column_eq, (terms d v).columnIndices_eq]
  · exact hrun.operands_eq htop hbottom
  · intro e he
    obtain ⟨hdigit, houtgoing, htotal⟩ := hrun.settles he
    simp only [Method.sign] at htotal
    exact ⟨hdigit.1, by omega, houtgoing, by omega⟩
  · rw [← hrun.map_incoming, List.dropLast_concat]
  · intro e he
    exact hrun.outgoing_getLast he

theorem borrowsShown_page (a : Alignment) (rows : List Row) (highlights : Option (List Highlight))
    (es : List Entry) :
    borrowsShown (page .subtraction rows highlights
      (es.foldl (Progress.write .subtraction a) (Progress.start a)).transfers).squared =
        some (borrowed es) := by
  rw [Progress.transfers_foldl]
  simp only [borrowsShown, page, Layout.squared, Option.map_some, Option.some.injEq]
  exact List.map_map

/-- The borrows on a page are those of some of the columns. -/
theorem exists_entry_of_borrow {a : Alignment} {rows : List Row}
    {highlights : Option (List Highlight)} {es : List Entry} {ts : List Transfer} {t : Transfer}
    (hts : (page .subtraction rows highlights
      (es.foldl (Progress.write .subtraction a) (Progress.start a)).transfers).squared.borrows =
        some ts) (ht : t ∈ ts) :
    ∃ e ∈ es, e.outgoing ≠ 0 ∧ t = transfer .subtraction a e := by
  rw [Progress.transfers_foldl] at hts
  obtain rfl := Option.some.inj hts
  simp only [Progress.start, List.nil_append, List.mem_map, List.mem_filter,
    decide_eq_true_eq] at ht
  obtain ⟨e, ⟨he, hout⟩, rfl⟩ := ht
  exact ⟨e, he, hout, rfl⟩

section

variable {d v : Decimal} (hd : 0 ≤ d.toRat) (hv : 0 ≤ v.toRat)
  {exchanged : Option (String × String)} {answer : String} {steps : List Step}
  (hshows : List.Forall₂ Step.Shows steps (drafts .subtraction (terms d v) exchanged answer))

include hd hv

theorem fromNextPlace_of_borrow {rows : List Row} {highlights : Option (List Highlight)}
    {es : List Entry} (hes : ∀ e ∈ es, e ∈ subtractionPass d v) {ts : List Transfer}
    (hts : (page .subtraction rows highlights (es.foldl (Progress.write .subtraction (terms d v))
      (Progress.start (terms d v))).transfers).squared.borrows = some ts) :
    ∀ t ∈ ts, FromNextPlace (terms d v) t := by
  intro t ht
  obtain ⟨e, he, hout, rfl⟩ := exists_entry_of_borrow hts ht
  exact (run_subtraction hd hv).fromNextPlace (hes e he) hout

include hshows

theorem operands_of_shows_subtraction {s : Step} (hs : s ∈ steps) :
    ∃ top bottom : Decimal, s.layout.numbers.take 2 = [some top, some bottom] ∧
      top.toRat = max d.toRat v.toRat ∧ bottom.toRat = -min d.toRat v.toRat := by
  refine ⟨_, _, numbers_of_shows (larger d v).numeral_integer_ne_nil
    (smaller d v).numeral_integer_ne_nil hshows hs, toRat_terms_top hd, ?_⟩
  rw [Method.toRat_signed, toRat_terms_bottom hd hv]
  simp [Method.sign]

theorem borrows_of_shows {s : Step} (hs : s ∈ steps) {ts : List Transfer}
    (hts : s.layout.borrows = some ts) : ∀ t ∈ ts, FromNextPlace (terms d v) t := by
  obtain ⟨first, shown, last, rfl, hfirst, hlen, hshown, hlast⟩ := pages_of_shows hshows
  rw [List.mem_cons, List.mem_append, List.mem_singleton] at hs
  rcases hs with rfl | hs | rfl
  · rw [hfirst] at hts
    exact absurd hts (by simp [Layout.squared])
  · obtain ⟨i, hi, rfl⟩ := List.getElem_of_mem hs
    obtain ⟨s, hget, hshow⟩ := hshown i (hlen ▸ hi)
    obtain rfl := Option.some.inj ((List.getElem?_eq_getElem hi).symm.trans hget)
    rw [hshow.layout] at hts
    exact fromNextPlace_of_borrow hd hv (fun e he => List.mem_of_mem_take he) hts
  · rw [hlast] at hts
    exact fromNextPlace_of_borrow hd hv (fun e he => he) hts

theorem differencePages_of_shows (hexchanged : exchanged.isSome = decide (d.toRat < v.toRat)) :
    ∃ (first : Step) (shown : List Step) (last : Step),
      steps = first :: (shown ++ [last]) ∧ DifferencePages d v first shown last := by
  obtain ⟨first, shown, last, hsteps, -, hlen, hshown, hlast⟩ := pages_of_shows hshows
  refine ⟨first, shown, last, hsteps, hlen, ?_, ?_, ?_⟩
  · intro i hi
    obtain ⟨s, hs, hshow⟩ := hshown i hi
    refine ⟨s, hs, (run_subtraction hd hv).showsEntry_take hi hshow,
      (run_subtraction hd hv).cell?_take hi hshow, ?_, hshow.explanation⟩
    rw [hshow.layout]
    exact borrowsShown_page _ _ _ _
  · rw [hlast]
    exact borrowsShown_page _ _ _ _
  · rw [hlast]
    refine showsDifference_of_rows hd hv ?_
    rw [page_rows, hexchanged]

end

/-- The pages of a subtraction: the larger operand is on top, and the pages tell an exchange of the
operands. -/
theorem drafts_subtraction (left right : Term) :
    ∃ exchanged : Option (String × String),
      (Problem.binary .subtraction left right).drafts =
        drafts .subtraction (terms left.exact right.exact) exchanged
          (Problem.plain (Problem.binary .subtraction left right).result) ∧
      exchanged.isSome = decide (left.exact.toRat < right.exact.toRat) := by
  by_cases hlt : left.exact.toRat < right.exact.toRat
  · have hterms : terms left.exact right.exact = ⟨right.exact.numeral, left.exact.numeral⟩ := by
      simp [terms, larger, smaller, hlt]
    refine ⟨some (Problem.plain left.number.simplest, Problem.plain right.number.simplest), ?_, ?_⟩
    · simp only [Problem.drafts]
      rw [if_pos ((Decimal.lt_iff _ _).2 hlt), hterms]
    · simp [hlt]
  · have hterms : terms left.exact right.exact = ⟨left.exact.numeral, right.exact.numeral⟩ := by
      simp [terms, larger, smaller, hlt]
    refine ⟨none, ?_, ?_⟩
    · simp only [Problem.drafts]
      rw [if_neg (fun h => hlt ((Decimal.lt_iff _ _).1 h)), hterms]
    · simp [hlt]

/-- **Column subtraction is exact.** Two operands that are not negative, in either order, have
steps; every borrow comes from the digit column to the left, and the last row shows the
difference with its sign. -/
theorem column_subtraction_exact {left right : Number} {d v : Decimal} (hl : left.Denotes d)
    (hr : right.Denotes v) (hd : 0 ≤ d.toRat) (hv : 0 ≤ v.toRat) :
    ∃ p, Problem.ofTask (.written "-") (.number left) (some (.number right)) = .ok p ∧
      ExactDifference d v p.steps := by
  refine ⟨_, Problem.ofTask_binary rfl (by decide) hl hr hd hv (by simp), ?_⟩
  generalize hp : Problem.binary .subtraction hl.term hr.term = p
  obtain ⟨exchanged, hdrafts, hexchanged⟩ := drafts_subtraction hl.term hr.term
  rw [hp] at hdrafts
  have hshows := Step.ofDrafts_shows p.operation p.operands p.result p.drafts
  rw [hdrafts] at hshows
  refine ⟨exactBorrowing_subtractionPass hd hv, ?_, ?_, ?_⟩
  · intro s hs
    rw [Problem.steps, hdrafts] at hs
    exact operands_of_shows_subtraction hd hv hshows hs
  · intro s hs ts hts
    rw [Problem.steps, hdrafts] at hs
    exact borrows_of_shows hd hv hshows hs hts
  · rw [Problem.steps, hdrafts]
    exact differencePages_of_shows hd hv hshows hexchanged

/-- A smaller number first, with a fraction on one side only and borrows that pass through zeros
and the point. -/
theorem column_subtraction_exact_ninety_nine :
    (Number.float 99.75).Denotes ⟨false, 9975, -2⟩ ∧ (Number.int 100).Denotes ⟨false, 100, 0⟩ ∧
      0 ≤ (⟨false, 9975, -2⟩ : Decimal).toRat ∧ 0 ≤ (⟨false, 100, 0⟩ : Decimal).toRat ∧
      ∃ p, Problem.ofTask (.written "-") (.number (.float 99.75)) (some (.number (.int 100))) =
          .ok p ∧
        ExactDifference ⟨false, 9975, -2⟩ ⟨false, 100, 0⟩ p.steps := by
  have hl : (Number.float 99.75).Denotes ⟨false, 9975, -2⟩ :=
    ⟨by decide +kernel, fun i h => by cases h⟩
  have hr : (Number.int 100).Denotes ⟨false, 100, 0⟩ :=
    ⟨rfl, fun i h => by cases h; decide +kernel⟩
  have hd : 0 ≤ (⟨false, 9975, -2⟩ : Decimal).toRat := Decimal.toRat_mk_nonneg _ _
  have hv : 0 ≤ (⟨false, 100, 0⟩ : Decimal).toRat := Decimal.toRat_mk_nonneg _ _
  exact ⟨hl, hr, hd, hv, column_subtraction_exact hl hr hd hv⟩

end Longhand.Column
