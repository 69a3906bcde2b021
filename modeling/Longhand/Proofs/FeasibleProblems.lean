import Longhand.Proofs.BroughtDigits
import Longhand.Proofs.ColumnSubtraction
import Longhand.Proofs.DivisionColumns
import Longhand.Proofs.WidePrecision
/-!
# The methods have what they take for granted

A written method takes for granted that there is a blank for its minus, that every digit it points
at stands on the page, that its divisor is no zero, that no integer is too long to be written or
read, and that no calculation on decimals overflows. All of it holds of a problem that has passed
its check (`Problem.feasible_of_check`), so working one cannot fail half way. In particular the digits
before the point can be read, which is where bringing down the digits of a division begins
(`Division.digits_brought_down`).
-/

namespace Longhand

/-- The answer of an exchanged subtraction has a digit, and at least one blank before it that the
minus can take. -/
def Column.MinusHasRoom (a : Alignment) : Prop :=
  ∃ blanks c rest, c ≠ ' ' ∧
    blankLeading a.unitsColumn (Progress.finish .subtraction a).cells =
      List.replicate (blanks + 1) ' ' ++ c :: rest

/-- There is a partial product to add, and all digits that are pointed at stand in their rows, one
column for each. -/
structure Multiplication.DigitsStand (precision : Nat) (left right : Numeral) : Prop where
  partials_ne_nil : partials left right ≠ []
  multiplier : (Row.digitColumns ('×' :: Row.padStart (pageWidth precision left right - 1)
    right.text)).length = (partials left right).length
  multiplicand : (Row.digitColumns (Row.padStart (pageWidth precision left right)
    left.text)).length = left.scaled.length
  carries : ∀ p ∈ partials left right, ∀ c ∈ p.carries, c.1 < left.scaled.length

/-- The integers of a division are short enough to be written and read: the two that are worked
with, what is brought down, and the rounded quotient. -/
structure Division.StaysShort (d v : Decimal) : Prop where
  divisor : v.numeral.scaled.length ≤ Digits.maxLength
  dividend : (Work.of d v).moved.integer.length ≤ Digits.maxLength
  brought : ∀ l ∈ (Work.of d v).lines, (Digits.ofNat l.current).length ≤ Digits.maxLength
  quotient : (d.divideHalfUp v places).digitCount ≤ Digits.maxLength

/-- What the method of a problem takes for granted. -/
structure Problem.Feasible (p : Problem) : Prop where
  calculations : ∀ rounded d v, p.Calculates rounded d v → rounded = d ∧ d.HeldIn p.precision
  rows : ∀ d ∈ p.drafts, d.layout.rows ≠ []
  minus : ∀ l r, p = .binary .subtraction l r →
    Column.MinusHasRoom (Column.terms l.exact r.exact)
  factors : ∀ l r, p = .binary .multiplication l r →
    Multiplication.DigitsStand p.precision l.exact.numeral r.exact.numeral
  product : ∀ l r, p = .binary .multiplication l r →
    (Multiplication.total (Multiplication.partials l.exact.numeral r.exact.numeral)).length ≤
      Digits.maxLength
  divisor : ∀ l r, p = .binary .division l r →
    0 < (Division.Work.of l.exact r.exact).whole ∧ (Division.Work.of l.exact r.exact).digits ≠ []
  quotient : ∀ l r, p = .binary .division l r → Division.StaysShort l.exact r.exact

/-! ## Lengths -/

/-- A number below a power of ten is short if the exponent is. -/
theorem Digits.length_ofNat_le_maxLength {n k : Nat} (h : n < pow10 k) (hk : k < maxLength) :
    (ofNat n).length ≤ maxLength := by
  have hsucc : n < pow10 (k + 1) := by
    rw [pow10_succ]
    omega
  exact (length_ofNat_le (Nat.succ_pos k) hsucc).trans hk

/-- Moving the point to the right makes the digits before it longer. -/
theorem Numeral.length_integer_shiftPoint_le {n : Numeral} (h : n.integer ≠ []) (places : Nat) :
    (n.shiftPoint places).integer.length ≤ n.integer.length + places := by
  have hinteger : (n.shiftPoint places).integer = Digits.normalize (n.integer ++
      n.fraction.take places ++ Digits.zeros (places - (n.fraction.take places).length)) := by
    simp [shiftPoint, cut]
  rw [hinteger]
  refine (Digits.length_normalize_le (by simp [h])).trans ?_
  simp only [List.length_append, Digits.length_zeros, List.length_take]
  omega

namespace Decimal

/-- A decimal in plain notation has no more digits than it spans. -/
theorem length_scaled_le (d : Decimal) : d.numeral.scaled.length ≤ d.span := by
  have hcoefficient := d.coefficient_lt
  have hpos := d.digitCount_pos
  unfold numeral
  split
  · rename_i hexponent
    have hlt : d.coefficient * pow10 d.exponent.toNat < pow10 d.span := by
      rw [span, pow10_add, show d.exponent.toNat = d.exponent.natAbs by omega]
      exact Nat.mul_lt_mul_of_pos_right hcoefficient (pow10_pos _)
    simp only [Numeral.scaled, List.append_nil]
    exact Digits.length_ofNat_le (Nat.add_pos_left hpos _) hlt
  · rename_i hexponent
    have hinteger := Digits.length_ofNat_le hpos
      ((Nat.div_le_self d.coefficient (pow10 (-d.exponent).toNat)).trans_lt hcoefficient)
    have hfraction := Digits.length_trimEnd_le
      (Digits.ofNatPadded (-d.exponent).toNat (d.coefficient % pow10 (-d.exponent).toNat))
    rw [Digits.length_ofNatPadded] at hfraction
    simp only [Numeral.scaled, List.length_append, span]
    omega

theorem Short.span_le {d : Decimal} (h : d.Short) : d.span ≤ 1509 :=
  Nat.add_le_add h.digits h.exponent

end Decimal

namespace Division.Work

variable {d v : Decimal}

theorem shift_le (d v : Decimal) : (of d v).shift ≤ v.span :=
  le_trans (by simp [of, Numeral.scaled]) v.length_scaled_le

/-- The dividend is made longer by the places that the point of the divisor is moved. -/
theorem length_integer_le (d v : Decimal) :
    (of d v).moved.integer.length ≤ d.span + v.span := by
  have hshift := shift_le d v
  have hlength := d.length_scaled_le
  rw [Numeral.scaled, List.length_append] at hlength
  have hinteger : (of d v).moved.integer.length ≤ d.numeral.integer.length + (of d v).shift :=
    Numeral.length_integer_shiftPoint_le d.numeral_integer_ne_nil _
  omega

theorem whole_lt (d v : Decimal) : (of d v).whole < pow10 v.span :=
  Multiplication.value_scaled_lt v

/-- The rounded quotient has no more digits than the dividend, the places that the point of the
divisor moves it, and its own places. -/
theorem coefficient_divideHalfUp_lt (hd : 0 ≤ d.toRat) (hv : 0 < v.toRat) :
    (d.divideHalfUp v places).coefficient < pow10 (d.span + v.span + places) := by
  have hone : (1 : ℚ) ≤ (of d v).whole := by exact_mod_cast whole_pos (d := d) hv
  have hspan := shift_le d v
  have hwhole : ((of d v).whole : ℚ) = v.toRat * 10 ^ (of d v).shift := whole_eq hv.le
  generalize (of d v).whole = whole at *
  generalize (of d v).shift = shift at *
  let n := Digits.value d.numeral.scaled * pow10 (shift + places)
  have hdividend : d.toRat ≤ Digits.value d.numeral.scaled := by
    rw [← Decimal.toRat_numeral_of_nonneg hd, Numeral.toRat_eq]
    exact mul_le_of_le_one_right (Nat.cast_nonneg _)
      (zpow_le_one_of_nonpos₀ (by norm_num) (by omega))
  have hquotient : d.toRat / v.toRat * 10 ^ places ≤ (n : ℚ) :=
    calc d.toRat / v.toRat * 10 ^ places
        = d.toRat * 10 ^ (shift + places) / whole := by
          rw [hwhole, pow_add]
          field_simp
      _ ≤ d.toRat * 10 ^ (shift + places) := div_le_self (by positivity) hone
      _ ≤ Digits.value d.numeral.scaled * 10 ^ (shift + places) := by gcongr
      _ = n := by rw [Nat.cast_mul, pow10_eq]
  have hle : halfUp (d.toRat / v.toRat * 10 ^ places) ≤ n :=
    (Nat.floor_le_floor (by linarith)).trans_eq (halfUp_natCast n)
  rw [Decimal.divideHalfUp_eq hd hv]
  refine hle.trans_lt ?_
  calc n < pow10 d.span * pow10 (shift + places) :=
        Nat.mul_lt_mul_of_pos_right (Multiplication.value_scaled_lt d) (pow10_pos _)
    _ = pow10 (d.span + (shift + places)) := (pow10_add _ _).symm
    _ ≤ pow10 (d.span + v.span + places) := Nat.pow_le_pow_right (by norm_num) (by omega)

end Division.Work

/-- The operands are short, and so are all integers of their division. -/
theorem Division.staysShort {d v : Decimal} (hd : 0 ≤ d.toRat) (hv : 0 < v.toRat)
    (hdshort : d.Short) (hvshort : v.Short) : StaysShort d v := by
  have hdspan := hdshort.span_le
  have hvspan := hvshort.span_le
  have hmax : Digits.maxLength = 4300 := rfl
  refine ⟨v.length_scaled_le.trans (by omega), (Work.length_integer_le d v).trans (by omega), ?_,
    Digits.length_ofNat_le_maxLength (Work.coefficient_divideHalfUp_lt hd hv) ?_⟩
  · intro l hl
    have hcurrent := Work.current_lt hl (Work.whole_pos hv) ((Work.run hv).quotient_le l hl)
    have hwhole := Work.whole_lt d v
    have hsucc := pow10_succ v.span
    exact Digits.length_ofNat_le_maxLength (k := v.span + 1) (by omega) (by omega)
  · rw [places]
    omega

/-- The digits of a division that stays short can be brought down. -/
theorem Division.StaysShort.bringDown_eq {d v : Decimal} (h : StaysShort d v) (hv : 0 < v.toRat) :
    bringDown (Work.of d v).moved (Work.of d v).whole = .ok (Work.of d v).fraction := by
  have hwhole : ((Work.of d v).whole : Int) ≠ 0 := by
    exact_mod_cast (Work.whole_pos (d := d) hv).ne'
  exact bringDown_of_readable ⟨Work.integer_ne_nil d v, h.dividend⟩ hwhole

/-- **The digits brought down are enough and no more.** If the digits before the point can be read,
those after it are brought down and behind them the least number of zeros with which nothing remains
or the answer has a place more than it is rounded to. The numeral itself, with its point moved to the
right, is the number times that power of ten, without needless zeros in front. In a division that is
worked, the digits can be read, and what is brought down is what stands on its pages. -/
theorem Division.digits_brought_down (work : Numeral) {divisor : Int} (hdivisor : divisor ≠ 0)
    (hreadable : Digits.Readable work.integer) :
    (∃ zeros, bringDown work divisor = .ok (work.fraction ++ Digits.zeros zeros) ∧
        IsLeast {k | Enough work divisor (work.fraction ++ Digits.zeros k)} zeros) ∧
      (∀ (n : Numeral) (shift : Nat), (n.shiftPoint shift).toRat = n.toRat * 10 ^ shift ∧
        ((n.shiftPoint shift).integer = [0] ∨
          ∃ d rest, (n.shiftPoint shift).integer = d :: rest ∧ d ≠ 0)) ∧
      ∀ (left right : Number) (d v : Decimal), left.Denotes d → right.Denotes v → 0 ≤ d.toRat →
        0 < v.toRat → Digits.Readable (Work.of d v).moved.integer ∧ 0 < (Work.of d v).whole ∧
          bringDown (Work.of d v).moved (Work.of d v).whole = .ok (Work.of d v).fraction := by
  refine ⟨?_, fun n shift => ⟨n.toRat_shiftPoint shift, Digits.normalize_eq_zero_or _⟩, ?_⟩
  · obtain ⟨zeros, hzeros, hleast⟩ := isLeast_broughtDown work divisor
    exact ⟨zeros, by rw [bringDown_of_readable hreadable hdivisor, hzeros], hleast⟩
  · intro left right d v hl hr hd hv
    have hshort := staysShort hd hv hl.short hr.short
    exact ⟨⟨Work.integer_ne_nil d v, hshort.dividend⟩, Work.whole_pos hv, hshort.bringDown_eq hv⟩

/-- 0.075 divided by 0.02, which is seven and a half by two: one zero is brought down, and then
nothing remains. -/
theorem Division.digits_brought_down_seven_halves :
    (2 : Int) ≠ 0 ∧ Digits.Readable [7] ∧
      bringDown ⟨[7], [5]⟩ 2 = .ok [5, 0] ∧
      IsLeast {k | Enough ⟨[7], [5]⟩ 2 ([5] ++ Digits.zeros k)} 1 ∧
      (⟨[0], [0, 7, 5]⟩ : Numeral).shiftPoint 2 = ⟨[7], [5]⟩ ∧
      (⟨[7], [5]⟩ : Numeral).toRat = (⟨[0], [0, 7, 5]⟩ : Numeral).toRat * 10 ^ 2 ∧
      (Work.of ⟨false, 75, -3⟩ ⟨false, 2, -2⟩).moved = ⟨[7], [5]⟩ ∧
      bringDown (Work.of ⟨false, 75, -3⟩ ⟨false, 2, -2⟩).moved
          (Work.of ⟨false, 75, -3⟩ ⟨false, 2, -2⟩).whole =
        .ok (Work.of ⟨false, 75, -3⟩ ⟨false, 2, -2⟩).fraction := by
  have hdivisor : (2 : Int) ≠ 0 := by decide
  have hreadable : Digits.Readable [7] := by decide
  have hmoved : (⟨[0], [0, 7, 5]⟩ : Numeral).shiftPoint 2 = ⟨[7], [5]⟩ := by decide
  have hl : (Number.float 0.075).Denotes ⟨false, 75, -3⟩ :=
    ⟨by decide +kernel, fun i h => by cases h⟩
  have hr : (Number.float 0.02).Denotes ⟨false, 2, -2⟩ :=
    ⟨by decide +kernel, fun i h => by cases h⟩
  obtain ⟨⟨zeros, hzeros, hleast⟩, hshift, hworked⟩ :=
    digits_brought_down ⟨[7], [5]⟩ hdivisor hreadable
  have hresult : bringDown ⟨[7], [5]⟩ 2 = .ok [5, 0] := by rfl
  have hone : zeros = 1 := by
    rw [hresult, Except.ok.injEq] at hzeros
    have hlength := congrArg List.length hzeros
    simp only [List.length_append, Digits.length_zeros, List.length_cons, List.length_nil]
      at hlength
    omega
  have hvalue := (hshift ⟨[0], [0, 7, 5]⟩ 2).1
  rw [Nat.cast_ofNat, hmoved] at hvalue
  obtain ⟨-, -, hpages⟩ := hworked _ _ _ _ hl hr (by rw [Decimal.toRat_mk]; norm_num)
    (by rw [Decimal.toRat_mk]; norm_num)
  exact ⟨hdivisor, hreadable, hresult, hone ▸ hleast, hmoved, hvalue, by decide +kernel, hpages⟩

/-! ## Nothing is missing -/

/-- Column 0 of a difference is blank, since nothing is borrowed there. -/
theorem Column.minusHasRoom {d v : Decimal} (hd : 0 ≤ d.toRat) (hv : 0 ≤ v.toRat) :
    MinusHasRoom (terms d v) := by
  have hrow : blankLeading (terms d v).unitsColumn
      (Progress.finish .subtraction (terms d v)).cells = _ :=
    (run_subtraction hd hv).blankLeading_cells (terms_integerWidth d v)
  have hroom := length_answerNumeral_subtraction hd hv
  have hne : (answerNumeral (terms d v) 0 (subtractionPass d v)).integer ≠ [] :=
    Digits.normalize_ne_nil _
  generalize answerNumeral (terms d v) 0 (subtractionPass d v) = n at *
  obtain ⟨digit, rest, htext⟩ := Numeral.exists_text_eq_cons hne
  refine ⟨(terms d v).integerWidth - n.integer.length, digit.char, rest,
    digit.char_ne (by decide), ?_⟩
  rw [hrow, htext, Nat.sub_add_comm hroom]

theorem Multiplication.digitsStand (precision : Nat) {left : Numeral} {right : Numeral}
    (hright : right.scaled ≠ []) : DigitsStand precision left right := by
  refine ⟨?_, ?_, ?_, ?_⟩
  · refine List.ne_nil_of_length_pos ?_
    rw [length_partials]
    exact List.length_pos_of_ne_nil hright
  · rw [Row.length_digitColumns, List.countP_cons_of_neg (by decide),
      Row.countP_isDigitCell_padStart, Row.countP_isDigitCell_numeral, length_partials]
  · exact (columns_left (length_text_lt_pageWidth (.inl rfl))).1
  · rintro p hp ⟨index, value⟩ hc
    exact index_lt_of_mem_partials hp hc

namespace Problem

/-- No page is empty. -/
theorem rows_ne_nil {p : Problem} {d : Draft} (hd : d ∈ p.drafts) : d.layout.rows ≠ [] := by
  have hcolumn {m : Column.Method} {a : Alignment} {exchanged : Option (String × String)}
      {answer : String} (hd : d ∈ Column.drafts m a exchanged answer) : d.layout.rows ≠ [] := by
    obtain ⟨rest, hrows⟩ := Column.rows_of_mem_drafts hd
    simp [hrows, Column.header]
  cases p with
  | negation value =>
    obtain rfl := List.mem_singleton.1 hd
    simp
  | binary op l r =>
    cases op with
    | addition =>
      simp only [drafts] at hd
      exact hcolumn hd
    | subtraction =>
      simp only [drafts] at hd
      split at hd
      · exact hcolumn hd
      · exact hcolumn hd
    | multiplication =>
      obtain ⟨rest, hrows⟩ := Multiplication.rows_of_mem_drafts hd
      simp [hrows, Multiplication.header]
    | division =>
      simp only [drafts, Division.Work.drafts, List.cons_append, List.mem_cons, List.mem_append,
        List.mem_map, List.not_mem_nil, or_false] at hd
      rcases hd with rfl | (hd | ⟨l, -, rfl⟩) | rfl
      · simp
      · split at hd
        · simp at hd
        · obtain rfl := List.mem_singleton.1 hd
          simp
      · simp [Division.Work.lineDraft]
      · simp
    | percentage =>
      simp only [drafts, percentageDrafts, List.mem_cons, List.not_mem_nil, or_false] at hd
      rcases hd with rfl | rfl
      · simp [rightAligned]
      · simp [rightAligned]

/-- **Nothing that a method takes for granted is missing** from a problem that is worked. -/
theorem feasible_of_check {p : Problem} (hp : ∀ t ∈ p.terms, t.number.Denotes t.exact)
    (h : p.check = .ok ()) : p.Feasible := by
  have hshort {t : Term} (ht : t ∈ p.terms) : t.exact.Short := (hp t ht).short
  refine ⟨?_, fun d hd => rows_ne_nil hd, ?_, ?_, ?_, ?_, ?_⟩
  · intro rounded d v hcalculates
    exact ⟨hcalculates.eq_exact, .of_natAbs_le hcalculates.digitCount_le (precision_le hp)
      (hcalculates.natAbs_exponent_le hp)⟩
  · rintro l r rfl
    obtain ⟨hl, hr⟩ := nonneg_of_check (by decide) h
    exact Column.minusHasRoom hl hr
  · rintro l r rfl
    exact Multiplication.digitsStand _
      (List.append_ne_nil_of_left_ne_nil r.exact.numeral_integer_ne_nil _)
  · rintro l r rfl
    have hlspan := (hshort (t := l) (by simp [terms])).span_le
    have hrspan := (hshort (t := r) (by simp [terms])).span_le
    have hproduct := Nat.mul_lt_mul'' (Multiplication.value_scaled_lt l.exact)
      (Multiplication.value_scaled_lt r.exact)
    rw [← pow10_add] at hproduct
    rw [Multiplication.total_partials]
    refine Digits.length_ofNat_le_maxLength hproduct ?_
    rw [Digits.maxLength]
    omega
  · rintro l r rfl
    obtain ⟨-, hr⟩ := divisor_pos_of_check h
    refine ⟨Division.Work.whole_pos hr, ?_⟩
    exact List.append_ne_nil_of_left_ne_nil (Division.Work.integer_ne_nil _ _) _
  · rintro l r rfl
    obtain ⟨hl, hr⟩ := divisor_pos_of_check h
    exact Division.staysShort hl hr (hshort (by simp [terms])) (hshort (by simp [terms]))

end Problem

end Longhand
