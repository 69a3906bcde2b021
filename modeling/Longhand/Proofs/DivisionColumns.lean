import Longhand.Proofs.WellFormedPages
import Mathlib.Data.List.DropRight
/-!
# The digits of a division stand in their columns

A page of a long division is made of rows that are built apart: the quotient with its point and its
blanks, the bracket with the zeros that are filled in, and three numbers moved to the right. Still
the quotient digit just written, the digit brought down for it and the ends of the three numbers
stand in one column (`standsIn_of_shows`). The quotient and the bracket have as many cells before
that digit: one for every digit before it, the divisor and its parenthesis, and the point if it has
been passed (`Work.exists_quotientRow_concat`, `Work.exists_bracket_eq`). The three numbers have
room there, since none has more than one digit more than the divisor
(`Work.length_ofNat_le_offset`).
-/

namespace Longhand

/-! ## Cells of rows -/

namespace Row

/-- The column of the last cell that is not blank. -/
def lastColumn? (r : Row) : Option Nat :=
  match (r.rdropWhile (· = ' ')).length with
  | 0 => none
  | n + 1 => some n

theorem lastColumn?_of_getLast? {r : Row} {c : Char} (h : r.getLast? = some c) (hc : c ≠ ' ') :
    r.lastColumn? = some (r.length - 1) := by
  obtain ⟨front, rfl⟩ := List.getLast?_eq_some_iff.1 h
  rw [lastColumn?, List.rdropWhile_concat_neg _ _ _ (by simpa using hc), List.length_append]
  rfl

theorem lastColumn?_append_blanks (r : Row) (n : Nat) :
    lastColumn? (r ++ List.replicate n ' ') = r.lastColumn? := by
  induction n with
  | zero => simp
  | succ n ih =>
    rw [List.replicate_succ', ← List.append_assoc, ← ih, lastColumn?, lastColumn?,
      List.rdropWhile_concat_pos _ _ _ (by simp)]

/-- A row that is moved to the right, and has room there, ends in the last column. -/
theorem lastColumn?_padStart {column : Nat} {r : Row} {c : Char} (hlast : r.getLast? = some c)
    (hc : c ≠ ' ') (hroom : r.length ≤ column + 1) :
    lastColumn? (padStart (column + 1) r) = some column := by
  have hpadded : (padStart (column + 1) r).getLast? = some c := by
    rw [padStart, List.getLast?_append, hlast]
    rfl
  rw [lastColumn?_of_getLast? hpadded hc, length_padStart, max_eq_left hroom, Nat.add_sub_cancel]

/-- The digit before which so many digits stand. -/
theorem digitColumns_getElem? {front : Row} (back : Row) {c : Char} (hc : isDigitCell c = true) :
    (digitColumns (front ++ c :: back))[front.countP isDigitCell]? = some front.length := by
  have hzip : (List.range (front ++ c :: back).length).zip (front ++ c :: back) =
      (List.range front.length).zip front ++ (front.length, c) ::
        (List.range' (front.length + 1) back.length).zip back := by
    rw [List.length_append, List.length_cons, List.range_eq_range', List.range_eq_range',
      ← List.range'_append_1, List.zip_append (by simp), List.range'_succ, List.zip_cons_cons]
    simp
  have hbefore : (((List.range front.length).zip front).filter fun x => isDigitCell x.2).length =
      front.countP isDigitCell := by
    rw [← length_digitColumns, digitColumns_eq, List.length_map]
  have hfilter : ((front.length, c) :: (List.range' (front.length + 1) back.length).zip back).filter
      (fun x => isDigitCell x.2) = (front.length, c) ::
        ((List.range' (front.length + 1) back.length).zip back).filter fun x => isDigitCell x.2 :=
    List.filter_cons_of_pos hc
  rw [digitColumns_eq, hzip, List.filter_append, hfilter, List.map_append,
    List.getElem?_append_right (by rw [List.length_map, hbefore]), List.length_map, hbefore,
    Nat.sub_self]
  rfl

theorem idxsOf_eq_nil {r : Row} {c : Char} (h : c ∉ r) : r.idxsOf c = [] := by
  rw [List.idxsOf_eq_nil_iff]
  intro x hx
  rw [beq_eq_false_iff_ne]
  rintro rfl
  exact h hx

theorem idxsOf_append (front back : Row) (c : Char) :
    (front ++ back).idxsOf c = front.idxsOf c ++ (back.idxsOf c).map (· + front.length) := by
  have hshift : back.idxsOf c front.length = (back.idxsOf c).map (· + front.length) :=
    List.idxsOf_start
  rw [List.idxsOf_append, Nat.zero_add, hshift]

end Row

def Layout.lastColumn? (l : Layout) (row : Nat) : Option Nat :=
  l.rows[row]?.bind Row.lastColumn?

theorem Layout.lastColumn?_squared (l : Layout) (row : Nat) :
    l.squared.lastColumn? row = l.lastColumn? row := by
  unfold lastColumn? squared
  cases h : l.rows[row]? <;> simp [h, Row.padEnd, Row.lastColumn?_append_blanks]

def Layout.digitColumns (l : Layout) (row : Nat) : List Nat :=
  (l.rows[row]?.map Row.digitColumns).getD []

namespace Division

/-! ## Lines and quotients -/

/-- A line comes as far in a run as the digit that it brings down. -/
theorem exists_of_mem_trace {divisor index r : Nat} {ds : List Digit} {l : Line}
    (h : l ∈ trace divisor index r ds) :
    ∃ before after lines rest, ds = before ++ l.brought :: after ∧
      l.index = index + before.length ∧ trace divisor index r ds = lines ++ l :: rest ∧
      lines.length = before.length := by
  induction ds generalizing index r with
  | nil => simp [trace] at h
  | cons d ds ih =>
    rw [trace] at h ⊢
    rcases List.mem_cons.1 h with rfl | h
    · exact ⟨[], ds, [], _, rfl, rfl, rfl, rfl⟩
    · obtain ⟨before, after, lines, rest, hds, hindex, htrace, hlength⟩ := ih h
      rw [htrace, hds]
      refine ⟨d :: before, after, _ :: lines, rest, rfl, ?_, rfl, ?_⟩
      · rw [hindex, List.length_cons]
        omega
      · rw [List.length_cons, List.length_cons, hlength]

/-- The last digit of a quotient is shown, unless it is a zero with a digit still to come before the
point. -/
theorem exists_quotientCells_concat (n : Nat) (leading : Bool) (index : Nat) (cs : List Char)
    {c : Char} (h : c ≠ '0' ∨ n ≤ index + cs.length + 1) :
    ∃ front, quotientCells n leading index (cs ++ [c]) = front ++ [c] := by
  induction cs generalizing leading index with
  | nil =>
    have hshown : ¬ (leading = true ∧ c = '0' ∧ (index : Int) < n - 1) := by
      rintro ⟨-, hzero, hlt⟩
      have hle := h.resolve_left (not_not_intro hzero)
      rw [List.length_nil] at hle
      omega
    rw [List.nil_append, quotientCells]
    simp only [if_neg hshown, quotientCells]
    split
    · exact ⟨['.'], rfl⟩
    · exact ⟨[], rfl⟩
  | cons x cs ih =>
    rw [List.cons_append, quotientCells]
    obtain ⟨front, hfront⟩ := ih (decide (leading = true ∧ x = '0' ∧ (index : Int) < n - 1))
      (index + 1) (h.imp_right fun hle => by rw [List.length_cons] at hle; omega)
    simp only [hfront]
    split
    · exact ⟨'.' :: _ :: front, rfl⟩
    · exact ⟨_ :: front, rfl⟩

/-- A quotient has one point, if it goes on after the digits before the point. -/
theorem idxsOf_quotientCells {n index : Nat} (leading : Bool) {cs : List Char} (h : index ≤ n)
    (hcs : '.' ∉ cs) :
    (quotientCells n leading index cs).idxsOf '.' =
      if n < index + cs.length then [n - index] else [] := by
  induction cs generalizing leading index with
  | nil =>
    rw [if_neg (by simpa using h)]
    rfl
  | cons c cs ih =>
    rw [List.mem_cons, not_or] at hcs
    obtain ⟨hc, hcs⟩ := hcs
    have hcell (blank : Prop) [Decidable blank] : '.' ∉ [if blank then ' ' else c] := by
      split <;> simp [hc]
    rw [quotientCells]
    by_cases hindex : index = n
    · subst hindex
      have hcells (x : Char) (hx : '.' ∉ [x]) : '.' ∉ x :: cs := by
        rw [← List.singleton_append, List.mem_append, not_or]
        exact ⟨hx, hcs⟩
      simp only [if_true, quotientCells_fraction index _ (Nat.lt_succ_self index)]
      rw [← List.singleton_append, Row.idxsOf_append, Row.idxsOf_eq_nil (hcells _ (hcell _)),
        if_pos (by rw [List.length_cons]; omega), Nat.sub_self]
      rfl
    · have hpoint : ¬ ((index : Int) = n) := by omega
      simp only [hpoint, if_false]
      rw [← List.singleton_append, Row.idxsOf_append, Row.idxsOf_eq_nil (hcell _),
        ih _ (by omega) hcs, List.nil_append, List.length_singleton, List.length_cons]
      split
      · rw [if_pos (by omega), List.map_singleton, show n - (index + 1) + 1 = n - index by omega]
      · rw [if_neg (by omega), List.map_nil]

namespace Work

/-! ## The bracket -/

/-- Before a digit of the dividend stand the divisor and the digits before it, and the point once it
has been passed. -/
theorem exists_bracket_eq (w : Work) {before after : List Digit} {d : Digit}
    (h : w.digits = before ++ d :: after) :
    ∃ front back, w.bracket = front ++ d.char :: back ∧ front.length = w.column before.length ∧
      front.countP Row.isDigitCell = w.divisorText.length + before.length := by
  have hdivisor : w.divisorText.countP Row.isDigitCell = w.divisorText.length := by
    rw [divisorText, Row.countP_isDigitCell_text, Digits.length_text]
  have hparenthesis : Row.isDigitCell ')' = false := by decide
  have hpoint : Row.isDigitCell '.' = false := by decide
  have hfraction (more : List Digit) (hbefore : before = w.moved.integer ++ more)
      (hmore : w.fraction = more ++ d :: after) :
      ∃ front back, w.bracket = front ++ d.char :: back ∧ front.length = w.column before.length ∧
        front.countP Row.isDigitCell = w.divisorText.length + before.length := by
    have hempty : w.fraction.isEmpty = false := by rw [hmore]; simp
    refine ⟨w.divisorText ++ ')' :: Digits.text w.moved.integer ++ '.' :: Digits.text more,
      Digits.text (after ++ Digits.zeros (w.shownPlaces - w.fraction.length)), ?_, ?_, ?_⟩
    · rw [bracket, hempty, if_neg Bool.false_ne_true]
      simp only [hmore, Digits.text_append, Digits.text_cons, List.append_assoc, List.cons_append]
    · have hle : w.moved.integer.length ≤ before.length := by
        rw [hbefore, List.length_append]
        omega
      rw [column, if_pos hle, offset, hbefore]
      simp only [List.length_append, List.length_cons, Digits.length_text]
      omega
    · rw [hbefore]
      simp only [List.countP_append, List.countP_cons, hdivisor, hparenthesis, hpoint,
        Row.countP_isDigitCell_text, List.length_append]
      simp [Nat.add_assoc]
  rw [digits, List.append_eq_append_iff] at h
  rcases h with ⟨more, hbefore, hmore⟩ | ⟨rest, hinteger, hrest⟩
  · exact hfraction more hbefore hmore
  · cases rest with
    | nil => exact hfraction [] (by simpa using hinteger.symm) (by simpa using hrest.symm)
    | cons x rest =>
      obtain ⟨rfl, -⟩ := List.cons.inj hrest
      have hlt : ¬ w.moved.integer.length ≤ before.length := by
        rw [hinteger, List.length_append, List.length_cons]
        omega
      obtain ⟨tail, htail⟩ : ∃ tail, w.bracket =
          w.divisorText ++ ')' :: Digits.text w.moved.integer ++ tail := ⟨_, rfl⟩
      refine ⟨w.divisorText ++ ')' :: Digits.text before, Digits.text rest ++ tail, ?_, ?_, ?_⟩
      · rw [htail, hinteger]
        simp only [Digits.text_append, Digits.text_cons, List.append_assoc, List.cons_append]
      · rw [column, if_neg hlt, offset]
        simp only [List.length_append, List.length_cons, Digits.length_text]
        omega
      · simp only [List.countP_append, List.countP_cons, hdivisor, hparenthesis,
          Row.countP_isDigitCell_text]
        simp

theorem length_bracket (w : Work) :
    w.bracket.length = w.offset + w.moved.integer.length +
      if w.fraction.isEmpty then 0 else 1 + (w.fraction.length + w.padding) := by
  rw [bracket, List.length_append, List.length_append, List.length_cons, Digits.length_text, offset,
    apply_ite List.length, List.length_nil, List.length_cons, Digits.length_text,
    List.length_append, Digits.length_zeros, padding]
  split <;> omega

theorem idxsOf_bracket (w : Work) :
    w.bracket.idxsOf '.' =
      if w.fraction.isEmpty then [] else [w.offset + w.moved.integer.length] := by
  have hdigits (ds : List Digit) : '.' ∉ Digits.text ds := Digits.not_mem_text (by decide) ds
  have hfront : '.' ∉ w.divisorText ++ ')' :: Digits.text w.moved.integer := by
    rw [List.mem_append, List.mem_cons]
    rintro (h | h | h)
    · exact hdigits _ h
    · exact absurd h (by decide)
    · exact hdigits _ h
  have hlength : (w.divisorText ++ ')' :: Digits.text w.moved.integer).length =
      w.offset + w.moved.integer.length := by
    rw [List.length_append, List.length_cons, Digits.length_text, offset]
    omega
  rw [bracket, Row.idxsOf_append, Row.idxsOf_eq_nil hfront, List.nil_append, hlength]
  split
  · rfl
  · rw [← List.singleton_append, Row.idxsOf_append, Row.idxsOf_eq_nil (hdigits _), List.map_nil,
      List.append_nil]
    exact congrArg List.singleton (Nat.zero_add _)

/-- A bracket has no blanks, so its last cell is written. -/
theorem lastColumn?_bracket (w : Work) : w.bracket.lastColumn? = some (w.bracket.length - 1) := by
  have hdigits (ds : List Digit) : ' ' ∉ Digits.text ds := Digits.not_mem_text (by decide) ds
  have hblank : ' ' ∉ w.bracket := by
    rw [bracket, List.mem_append, List.mem_append, List.mem_cons]
    rintro ((h | h | h) | h)
    · exact hdigits _ h
    · exact absurd h (by decide)
    · exact hdigits _ h
    · split at h
      · exact List.not_mem_nil h
      · rcases List.mem_cons.1 h with h | h
        · exact absurd h (by decide)
        · exact hdigits _ h
  have hne : w.bracket ≠ [] := by simp [bracket]
  have hlast := List.getLast?_eq_some_getLast hne
  exact Row.lastColumn?_of_getLast? hlast fun h => hblank (h ▸ List.getLast_mem hne)

/-! ## The quotient -/

/-- A quotient that is written up to the last digit before the point, or further, or whose last
digit is not zero ends in the column of that digit. -/
theorem exists_quotientRow_concat (w : Work) (cs : List Char) {c : Char}
    (h : c ≠ '0' ∨ w.moved.integer.length ≤ cs.length + 1) :
    ∃ front, w.quotientRow (cs ++ [c]) = front ++ [c] ∧ front.length = w.column cs.length := by
  obtain ⟨front, hfront⟩ := exists_quotientCells_concat w.moved.integer.length true 0 cs
    (h.imp_right fun hle => by omega)
  have hrow : w.quotientRow (cs ++ [c]) = (List.replicate w.offset ' ' ++ front) ++ [c] := by
    rw [quotientRow, Division.quotientRow, hfront, List.append_assoc]
  have hlength : (w.quotientRow (cs ++ [c])).length = w.column cs.length + 1 :=
    w.length_quotientRow List.length_append
  rw [hrow, List.length_append] at hlength
  exact ⟨_, hrow, Nat.succ_injective hlength⟩

theorem idxsOf_quotientRow (w : Work) {cs : List Char} (hcs : '.' ∉ cs) :
    (w.quotientRow cs).idxsOf '.' =
      if w.moved.integer.length < cs.length then [w.offset + w.moved.integer.length] else [] := by
  have hblank : '.' ∉ List.replicate w.offset ' ' := by simp
  rw [quotientRow, Division.quotientRow, Row.idxsOf_append, Row.idxsOf_eq_nil hblank,
    idxsOf_quotientCells true (Nat.zero_le _) hcs, List.length_replicate, List.nil_append,
    Nat.zero_add]
  split
  · rw [List.map_singleton, Nat.sub_zero, Nat.add_comm]
  · rfl

/-! ## The page of a line -/

/-- What is worked on is below ten times the divisor. -/
theorem current_lt {w : Work} {l : Line} (hl : l ∈ w.lines) (hwhole : 0 < w.whole)
    (hnine : l.quotient ≤ 9) : l.current < 10 * w.whole := by
  obtain ⟨hcurrent, hremainder⟩ := current_of_mem_trace hl
  have hlt : l.remainder < w.whole := hremainder ▸ Nat.mod_lt _ hwhole
  have hproduct := Nat.mul_le_mul_right w.whole hnine
  omega

/-- A number below ten times the divisor has at most one digit more than the divisor. -/
theorem length_ofNat_le_offset {w : Work} {n : Nat} (h : n < 10 * w.whole) :
    (Digits.ofNat n).length ≤ w.offset := by
  have hwhole := Digits.lt_pow10_length w.whole
  have hoffset : w.offset = (Digits.ofNat w.whole).length + 1 := by
    rw [offset, divisorText, Digits.length_text]
  rw [hoffset]
  refine Digits.length_ofNat_le (Nat.succ_pos _) ?_
  rw [pow10_succ]
  omega

/-- A number that is not too long ends in the column to which it is moved. -/
theorem lastColumn?_padStart_ofNat {w : Work} {n : Nat} (h : n < 10 * w.whole) (index : Nat)
    (sign : List Char) (hsign : sign.length ≤ 1) :
    (Row.padStart (w.column index + 1) (sign ++ Digits.text (Digits.ofNat n))).lastColumn? =
      some (w.column index) := by
  obtain ⟨front, d, hdigits⟩ := List.eq_nil_or_concat (Digits.ofNat n) |>.resolve_left
    (Digits.ofNat_ne_nil n)
  have hlast : (sign ++ Digits.text (Digits.ofNat n)).getLast? = some d.char := by
    rw [hdigits, List.concat_eq_append, Digits.text_append, ← List.append_assoc,
      List.getLast?_append]
    rfl
  refine Row.lastColumn?_padStart hlast (d.char_ne (by decide)) ?_
  have hroom := length_ofNat_le_offset h
  rw [List.length_append, Digits.length_text, column]
  omega

end Work

/-- The cells of a step for a line stand in a column: both highlighted cells; the quotient digit, as
the last one written in its row; the digit brought down, which in the bracket has the place that it
has in the dividend; and the ends of the three numbers below. -/
structure StandsIn (w : Work) (l : Line) (s : Step) (c : Nat) : Prop where
  highlighted : s.layout.highlights.map (List.map fun h => (h.row, h.column)) =
    some [(0, c), (1, c)]
  quotient : s.layout.cell? 0 c = some (Nat.digitChar l.quotient)
  quotient_last : s.layout.lastColumn? 0 = some c
  brought : s.layout.cell? 1 c = some l.brought.char
  brought_index : (s.layout.digitColumns 1)[w.divisorText.length + l.index]? = some c
  working : ∀ row ∈ [2, 3, 4], s.layout.lastColumn? row = some c

namespace Work

variable {w : Work} {l : Line}

/-- The quotient on the page of a line ends in the digit of that line. -/
theorem exists_quotientRow_take (hl : l ∈ w.lines) (hq : 1 ≤ l.quotient) (hnine : l.quotient ≤ 9) :
    ∃ front, w.quotientRow (quotientChars (w.lines.take (l.index + 1))) =
      front ++ [Nat.digitChar l.quotient] ∧ front.length = w.column l.index := by
  obtain ⟨before, after, lines, rest, -, hindex, htrace, hlength⟩ := exists_of_mem_trace hl
  rw [Nat.zero_add] at hindex
  have hcount : (quotientChars lines).length = l.index := by
    rw [quotientChars, List.length_map, hlength, hindex]
  have htake : w.lines.take (l.index + 1) = lines ++ [l] := by
    rw [Work.lines, htrace, ← List.singleton_append, ← List.append_assoc]
    refine List.take_left' ?_
    rw [List.length_append, hlength, hindex, List.length_singleton]
  have hzero : ∀ q ≤ 9, 1 ≤ q → Nat.digitChar q ≠ '0' := by decide
  obtain ⟨front, hrow, hfront⟩ := w.exists_quotientRow_concat (quotientChars lines)
    (.inl (hzero _ hnine hq))
  refine ⟨front, ?_, hcount ▸ hfront⟩
  rw [htake, quotientChars, List.map_append, List.map_singleton]
  exact hrow

theorem rows_lineDraft (w : Work) (l : Line) :
    (w.lineDraft l).layout.rows =
      [w.quotientRow (quotientChars (w.lines.take (l.index + 1))), w.bracket,
        Row.padStart (w.column l.index + 1) (Digits.text (Digits.ofNat l.current)),
        Row.padStart (w.column l.index + 1)
          (['-'] ++ Digits.text (Digits.ofNat (l.quotient * w.whole))),
        Row.padStart (w.column l.index + 1) (Digits.text (Digits.ofNat l.remainder))] := by
  have hcount (n : Nat) : (count n).toList = Digits.text (Digits.ofNat n) := by
    rw [count, String.toList_ofList]
  rw [← hcount l.current, ← hcount l.remainder]
  rfl

/-- **The page of a line lines up**: its quotient digit, the digit brought down and the ends of the
three numbers stand in one column. -/
theorem standsIn_of_shows (hl : l ∈ w.lines) (hwhole : 0 < w.whole) (hq : 1 ≤ l.quotient)
    (hnine : l.quotient ≤ 9) {s : Step} (h : s.Shows (w.lineDraft l)) :
    StandsIn w l s (w.column l.index) := by
  obtain ⟨before, after, -, -, hdigits, hindex, -, -⟩ := exists_of_mem_trace hl
  rw [Nat.zero_add] at hindex
  obtain ⟨top, htop, htopLength⟩ := exists_quotientRow_take hl hq hnine
  obtain ⟨front, back, hbracket, hfront, hcount⟩ := w.exists_bracket_eq hdigits
  rw [← hindex] at hfront hcount
  have hrows := w.rows_lineDraft l
  rw [htop] at hrows
  have hblank : Nat.digitChar l.quotient ≠ ' ' := by
    have hdigit : ∀ q ≤ 9, Nat.digitChar q ≠ ' ' := by decide
    exact hdigit _ hnine
  have hlast (row : Nat) : s.layout.lastColumn? row = (w.lineDraft l).layout.rows[row]?.bind
      Row.lastColumn? := by
    rw [h.layout, Layout.lastColumn?_squared, Layout.lastColumn?]
  -- the product and the remainder are parts of what is worked on
  have hlt := current_lt hl hwhole hnine
  obtain ⟨hcurrent, -⟩ := current_of_mem_trace hl
  refine ⟨?_, ?_, ?_, ?_, ?_, ?_⟩
  · rw [h.layout]
    rfl
  · rw [h.layout]
    refine Layout.cell?_squared ?_
    rw [Layout.cell?, hrows, List.getElem?_cons_zero, Option.bind_some, ← htopLength,
      List.getElem?_concat_length]
  · rw [hlast, hrows, List.getElem?_cons_zero, Option.bind_some,
      Row.lastColumn?_of_getLast? List.getLast?_concat hblank, List.length_append, htopLength]
    rfl
  · rw [h.layout]
    refine Layout.cell?_squared ?_
    rw [Layout.cell?, hrows, List.getElem?_cons_succ, List.getElem?_cons_zero, Option.bind_some,
      hbracket, ← hfront, List.getElem?_append_right le_rfl, Nat.sub_self]
    rfl
  · rw [h.layout, Layout.digitColumns, Layout.squared, List.getElem?_map, hrows,
      List.getElem?_cons_succ, List.getElem?_cons_zero, Option.map_some, Option.map_some,
      Option.getD_some, Row.padEnd, hbracket, List.append_assoc, List.cons_append, ← hcount,
      ← hfront]
    exact Row.digitColumns_getElem? _ (Row.isDigitCell_char _)
  · intro row hmem
    simp only [List.mem_cons, List.not_mem_nil, or_false] at hmem
    rw [hlast, hrows]
    rcases hmem with rfl | rfl | rfl
    · exact lastColumn?_padStart_ofNat (by omega) _ [] (Nat.zero_le 1)
    · exact lastColumn?_padStart_ofNat (by omega) _ ['-'] le_rfl
    · exact lastColumn?_padStart_ofNat (by omega) _ [] (Nat.zero_le 1)

end Work

/-! ## The last page -/

/-- A quotient stands above a bracket: they have one length, the last cell of each is written, and
their points stand in one column, if they have any. -/
structure StandsAbove (quotient bracket : Row) : Prop where
  length : quotient.length = bracket.length
  quotient_last : quotient.lastColumn? = some (bracket.length - 1)
  bracket_last : bracket.lastColumn? = some (bracket.length - 1)
  points : quotient.idxsOf '.' = bracket.idxsOf '.'
  points_le : (bracket.idxsOf '.').length ≤ 1

namespace Work

variable {d v : Decimal}

/-- The quotient of the last page has a digit for every digit of the bracket. -/
theorem exists_finalQuotient (hv : 0 < v.toRat) :
    ∃ ds : List Digit, quotientChars (of d v).lines ++ List.replicate (of d v).padding '0' =
        Digits.text ds ∧
      ds.length =
        (of d v).moved.integer.length + ((of d v).fraction.length + (of d v).padding) := by
  have hrun := run (d := d) hv
  refine ⟨quotientDigits (of d v).lines ++ Digits.zeros (of d v).padding, ?_, ?_⟩
  · rw [quotientChars_eq hrun.quotient_le, Digits.text_append]
    simp [Digits.text, Digits.zeros, Digit.char]
  · rw [List.length_append, quotientDigits, List.length_map, hrun.length_eq, digits,
      List.length_append, Digits.length_zeros, Nat.add_assoc]

theorem standsAbove_final (hv : 0 < v.toRat) :
    StandsAbove ((of d v).quotientRow (quotientChars (of d v).lines ++
      List.replicate (of d v).padding '0')) (of d v).bracket := by
  obtain ⟨ds, hchars, hlength⟩ := exists_finalQuotient (d := d) hv
  have hinteger : 0 < (of d v).moved.integer.length :=
    List.length_pos_of_ne_nil (integer_ne_nil d v)
  rw [hchars]
  generalize of d v = w at hlength hinteger
  have hwhole : w.fraction.isEmpty → w.fraction.length + w.padding = 0 := by
    intro hempty
    rw [padding, shownPlaces, if_pos hempty, List.isEmpty_iff.1 hempty]
    rfl
  have hfraction : ¬ w.fraction.isEmpty → 0 < w.fraction.length := by
    rw [List.isEmpty_iff]
    exact List.length_pos_of_ne_nil
  have hpoint : '.' ∉ Digits.text ds := Digits.not_mem_text (by decide) ds
  have hpoints := w.idxsOf_quotientRow hpoint
  obtain ⟨before, last, rfl⟩ := List.eq_nil_or_concat ds |>.resolve_left
    (List.ne_nil_of_length_pos (by omega))
  rw [List.concat_eq_append, List.length_append, List.length_singleton] at hlength
  obtain ⟨front, hrow, hfront⟩ := w.exists_quotientRow_concat (Digits.text before)
    (c := last.char) (.inr (by rw [Digits.length_text]; omega))
  rw [Digits.length_text, column] at hfront
  have htext : Digits.text (before.concat last) = Digits.text before ++ [last.char] := by
    rw [List.concat_eq_append, Digits.text_append]
    rfl
  rw [htext, List.length_append, Digits.length_text, List.length_singleton] at hpoints
  have hlen : (front ++ [last.char]).length = w.bracket.length := by
    rw [List.length_append, hfront, w.length_bracket, List.length_singleton]
    by_cases hempty : w.fraction.isEmpty
    · have := hwhole hempty
      rw [if_pos hempty, if_neg (by omega)]
      omega
    · have := hfraction hempty
      rw [if_neg hempty, if_pos (by omega)]
      omega
  rw [htext]
  refine ⟨?_, ?_, w.lastColumn?_bracket, ?_, ?_⟩
  · rw [hrow, hlen]
  · rw [hrow, Row.lastColumn?_of_getLast? List.getLast?_concat (last.char_ne (by decide)), hlen]
  · rw [hpoints, w.idxsOf_bracket]
    by_cases hempty : w.fraction.isEmpty
    · have := hwhole hempty
      rw [if_pos hempty, if_neg (by omega)]
    · have := hfraction hempty
      rw [if_neg hempty, if_pos (by omega)]
  · rw [w.idxsOf_bracket]
    split <;> simp

end Work

/-- Two rows of one length are not changed when the page is brought to one width. -/
theorem rows_squared_of_length_eq {l : Layout} {top bottom : Row} (hrows : l.rows = [top, bottom])
    (hlength : top.length = bottom.length) : l.squared.rows = [top, bottom] := by
  have hwidth : Row.maxWidth [top, bottom] = bottom.length := by
    rw [Row.maxWidth, List.foldl_cons, List.foldl_cons, List.foldl_nil, hlength]
    omega
  have hkeep (r : Row) (h : r.length = bottom.length) : Row.padEnd bottom.length r = r := by
    rw [Row.padEnd, h, Nat.sub_self, List.replicate_zero, List.append_nil]
  rw [Layout.squared, hrows, hwidth, List.map_cons, List.map_singleton, hkeep _ hlength,
    hkeep _ rfl]

/-! ## Main result -/

/-- The steps of a division of `d` by `v` line up: each of those for a digit of the quotient tells
its line, and has the cells of the line in one column; and on the last page the quotient stands
above the bracket. -/
structure LinesUp (d v : Decimal) (steps : List Step) : Prop where
  pages : ∃ setUp shown last, steps = setUp ++ shown ++ [last] ∧
    setUp.length = (if (Work.of d v).shift = 0 then 1 else 2) ∧
    List.Forall₂ (fun l s => Narrates (Work.of d v).whole l s ∧ ∃ c, StandsIn (Work.of d v) l s c)
      ((Work.of d v).lines.filter fun l => 1 ≤ l.quotient) shown ∧
    ∃ quotient bracket, last.layout.rows = [quotient, bracket] ∧ StandsAbove quotient bracket

/-- **The digits of a division stand in their columns.** Every dividend that is not negative and
every divisor above zero have steps, and they line up. -/
theorem division_lines_up {name : OperationName}
    (hname : name.resolve true = .ok (.binary .division)) {left right : Number} {d v : Decimal}
    (hl : left.Denotes d) (hr : right.Denotes v) (hd : 0 ≤ d.toRat) (hv : 0 < v.toRat) :
    ∃ p, Problem.ofTask name (.number left) (some (.number right)) = .ok p ∧
      LinesUp d v p.steps := by
  refine ⟨_, Problem.ofTask_binary hname (by decide) hl hr hd hv.le fun _ => hv.ne', ?_⟩
  generalize hp : Problem.binary .division hl.term hr.term = p
  have hdrafts : p.drafts = (Work.of d v).drafts (Problem.plain p.result) := by
    rw [← hp]; rfl
  have hrun := Work.run (d := d) hv
  obtain ⟨front, final, hpages, hfront, -, hrows⟩ :=
    (Work.of d v).drafts_eq (Problem.plain p.result)
  have hshows := Step.ofDrafts_shows p.operation p.operands p.result p.drafts
  rw [hdrafts, hpages] at hshows
  obtain ⟨init, lastStep, hsteps, hinit, hlast⟩ := Step.exists_append hshows
  obtain ⟨setUp, shown, rfl, hset, hshown⟩ := Step.exists_append hinit
  obtain ⟨last, hfinal, rfl⟩ := Step.exists_singleton hlast
  have habove := Work.standsAbove_final (d := d) hv
  refine ⟨setUp, shown, last, ?_, ?_, ?_, _, _, ?_, habove⟩
  · rw [Problem.steps, hdrafts, hpages, hsteps]
  · rw [hset.length_eq, hfront]
  · have hlines := (List.forall₂_map_right_iff.1 hshown).flip
    rw [hrun.filter_shown] at hlines
    refine ((List.forall₂_and_left _ _).2 ⟨fun l hl => hl, hlines⟩).imp fun l s h => ?_
    obtain ⟨hmem, hs⟩ := h
    obtain ⟨hl, hq⟩ := List.mem_filter.1 hmem
    exact ⟨narrates_of_shows hs, _, Work.standsIn_of_shows hl (Work.whole_pos hv)
      (of_decide_eq_true hq) (hrun.quotient_le l hl) hs⟩
  · rw [hfinal.layout]
    exact rows_squared_of_length_eq hrows habove.length

/-- One divided by six hundredths: the first digits of the quotient stay blank, the point is passed
and zeros are brought down. -/
theorem division_lines_up_six_hundredths :
    (OperationName.written "/").resolve true = .ok (.binary .division) ∧
      (Number.int 1).Denotes ⟨false, 1, 0⟩ ∧ (Number.float 0.06).Denotes ⟨false, 6, -2⟩ ∧
      0 ≤ (⟨false, 1, 0⟩ : Decimal).toRat ∧ 0 < (⟨false, 6, -2⟩ : Decimal).toRat ∧
      ∃ p, Problem.ofTask (.written "/") (.number (.int 1)) (some (.number (.float 0.06))) = .ok p ∧
        LinesUp ⟨false, 1, 0⟩ ⟨false, 6, -2⟩ p.steps := by
  have hname : (OperationName.written "/").resolve true = .ok (.binary .division) := rfl
  have hl : (Number.int 1).Denotes ⟨false, 1, 0⟩ :=
    ⟨rfl, fun i h => by cases h; decide +kernel⟩
  have hr : (Number.float 0.06).Denotes ⟨false, 6, -2⟩ :=
    ⟨by decide +kernel, fun i h => by cases h⟩
  have hd : 0 ≤ (⟨false, 1, 0⟩ : Decimal).toRat := by
    rw [Decimal.toRat_mk]; norm_num
  have hv : 0 < (⟨false, 6, -2⟩ : Decimal).toRat := by
    rw [Decimal.toRat_mk]; norm_num
  exact ⟨hname, hl, hr, hd, hv, division_lines_up hname hl hr hd hv⟩

end Division

end Longhand
