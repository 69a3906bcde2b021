import Longhand.Proofs.RecordedOperands
import Longhand.Proofs.WrittenDoubles
import Mathlib.Computability.RegularExpressions
import Mathlib.Data.List.DropRight
/-!
# Plain notation is canonical

Every number has one text in plain notation, and the text has one form: a minus, digits without a
needless zero in front of them, and a point only before digits that do not end in a zero. What is at
work is that a numeral has no needless zeros (`Decimal.trim_numeral`) and depends on the size of the
number alone (`Decimal.numeral_eq_of_abs_eq`), so that a text which is read back as the number
(`DecimalValue.read?_plain`) is the only one.

Main result: `plain_notation_canonical`.
-/

namespace Longhand

/-! ## The form of a text -/

namespace Text

def oneOf (cs : List Char) : RegularExpression Char :=
  (cs.map RegularExpression.char).sum

def optional (p : RegularExpression Char) : RegularExpression Char :=
  1 + p

theorem mem_oneOf {cs : List Char} {c : Char} (h : c ∈ cs) : [c] ∈ (oneOf cs).matches' := by
  induction cs with
  | nil => cases h
  | cons x cs ih =>
    rw [oneOf, List.map_cons, List.sum_cons, RegularExpression.matches'_add, Language.mem_add]
    rcases List.mem_cons.1 h with rfl | h
    · exact .inl rfl
    · exact .inr (ih h)

theorem nil_mem_optional (p : RegularExpression Char) : [] ∈ (optional p).matches' := by
  rw [optional, RegularExpression.matches'_add, Language.mem_add]
  exact .inl rfl

theorem mem_optional {p : RegularExpression Char} {s : List Char} (h : s ∈ p.matches') :
    s ∈ (optional p).matches' := by
  rw [optional, RegularExpression.matches'_add, Language.mem_add]
  exact .inr h

theorem append_mem {p q : RegularExpression Char} {s t : List Char} (hs : s ∈ p.matches')
    (ht : t ∈ q.matches') : s ++ t ∈ (p * q).matches' := by
  rw [RegularExpression.matches'_mul]
  exact Language.append_mem_mul hs ht

def digit : RegularExpression Char :=
  oneOf ['0', '1', '2', '3', '4', '5', '6', '7', '8', '9']

def nonzero : RegularExpression Char :=
  oneOf ['1', '2', '3', '4', '5', '6', '7', '8', '9']

/-- Plain notation without a sign: `(0|[1-9][0-9]*)(.[0-9]*[1-9])?`. -/
def unsignedForm : RegularExpression Char :=
  (.char '0' + nonzero * digit.star) * optional (.char '.' * (digit.star * nonzero))

/-- Plain notation: `-?(0|[1-9][0-9]*)(.[0-9]*[1-9])?`. -/
def plainForm : RegularExpression Char :=
  optional (.char '-') * unsignedForm

theorem text_mem_star_digit (ds : List Digit) : Digits.text ds ∈ digit.star.matches' := by
  have hdigit : ∀ d : Digit, [d.char] ∈ digit.matches' := fun d => mem_oneOf (by revert d; decide)
  rw [RegularExpression.matches'_star, Language.mem_kstar]
  refine ⟨ds.map fun d => [d.char], ?_, ?_⟩
  · rw [← List.flatMap_def, Digits.text, List.map_eq_flatMap]
  · intro s hs
    obtain ⟨d, -, rfl⟩ := List.mem_map.1 hs
    exact hdigit d

theorem char_mem_nonzero {d : Digit} (h : d ≠ 0) : [d.char] ∈ nonzero.matches' := by
  have hmem : ∀ d : Digit, d ≠ 0 → d.char ∈ ['1', '2', '3', '4', '5', '6', '7', '8', '9'] := by
    decide
  exact mem_oneOf (hmem d h)

end Text

/-! ## Numerals without needless zeros -/

/-- A numeral without needless zeros: none in front, unless it is the only digit before the point,
and none at the end. -/
structure Numeral.Trim (n : Numeral) : Prop where
  integer : n.integer = [0] ∨ ∃ d ds, d ≠ 0 ∧ n.integer = d :: ds
  fraction : n.fraction = [] ∨ ∃ ds d, d ≠ 0 ∧ n.fraction = ds ++ [d]

theorem Digits.ofNat_eq_zero_or (n : Nat) : ofNat n = [0] ∨ ∃ d ds, d ≠ 0 ∧ ofNat n = d :: ds := by
  rw [← normalize_ofNat]
  rcases normalize_eq_zero_or (ofNat n) with hzero | ⟨d, ds, hds, hd⟩
  · exact .inl hzero
  · exact .inr ⟨d, ds, hd, hds⟩

theorem Digits.trimEnd_eq_nil_or (ds : List Digit) :
    trimEnd ds = [] ∨ ∃ front d, d ≠ 0 ∧ trimEnd ds = front ++ [d] := by
  have htrim : trimEnd ds = ds.rdropWhile (· = 0) := rfl
  rw [htrim, or_iff_not_imp_left]
  intro hne
  have hlast := List.rdropWhile_last_not _ ds hne
  exact ⟨_, _, by simpa using hlast, (List.dropLast_append_getLast hne).symm⟩

theorem Decimal.trim_numeral (d : Decimal) : d.numeral.Trim := by
  unfold numeral
  split
  · exact ⟨Digits.ofNat_eq_zero_or _, .inl rfl⟩
  · exact ⟨Digits.ofNat_eq_zero_or _, Digits.trimEnd_eq_nil_or _⟩

theorem Numeral.Trim.text_mem {n : Numeral} (h : n.Trim) : n.text ∈ Text.unsignedForm.matches' := by
  have hinteger : Digits.text n.integer ∈
      (.char '0' + Text.nonzero * Text.digit.star : RegularExpression Char).matches' := by
    rw [RegularExpression.matches'_add, Language.mem_add]
    rcases h.integer with hzero | ⟨d, ds, hd, hds⟩
    · rw [hzero]
      exact .inl rfl
    · rw [hds, Digits.text_cons, ← List.singleton_append]
      exact .inr (Text.append_mem (Text.char_mem_nonzero hd) (Text.text_mem_star_digit ds))
  refine Text.append_mem hinteger ?_
  rcases h.fraction with hempty | ⟨ds, d, hd, hds⟩
  · rw [hempty]
    exact Text.nil_mem_optional _
  · have hfraction : n.fraction.isEmpty = false := by simp [hds]
    rw [hfraction, if_neg Bool.false_ne_true, hds, Digits.text_append, ← List.singleton_append]
    exact Text.mem_optional (Text.append_mem rfl
      (Text.append_mem (Text.text_mem_star_digit ds) (Text.char_mem_nonzero hd)))

/-! ## Plain notation is read back -/

namespace Decimal

theorem plain_mem_plainForm (d : Decimal) : d.plain ∈ Text.plainForm.matches' := by
  have hnumeral := d.trim_numeral.text_mem
  rw [plain]
  split
  · exact Text.append_mem (Text.mem_optional rfl) hnumeral
  · exact Text.append_mem (Text.nil_mem_optional _) hnumeral

theorem mem_plain {d : Decimal} {c : Char} (h : c ∈ d.plain) :
    c = '-' ∨ c = '.' ∨ ∃ x : Digit, c = x.char := by
  rw [plain, List.mem_append] at h
  rcases h with h | h
  · split at h
    · exact .inl (List.mem_singleton.1 h)
    · cases h
  · exact .inr (Numeral.mem_text h)

/-- Without its minus the text is the numeral. -/
theorem dropWhile_minus_plain (d : Decimal) : d.plain.dropWhile (· = '-') = d.numeral.text := by
  have hnumeral : d.numeral.text.dropWhile (· = '-') = d.numeral.text := by
    obtain ⟨x, rest, htext⟩ := Numeral.exists_text_eq_cons d.numeral_integer_ne_nil
    rw [htext, List.dropWhile_cons_of_neg (by simpa using x.char_ne (by decide))]
  rw [plain]
  split
  · rw [List.singleton_append, List.dropWhile_cons_of_pos (by decide), hnumeral]
  · rw [List.nil_append, hnumeral]

example : Text.plainForm.rmatch "-0.050".toList = false := by decide +kernel

/-- Zero has no sign. -/
theorem plain_ne_minus_zero (d : Decimal) : d.plain ≠ "-0".toList := by
  intro h
  have hread := d.toRat_read?_plain
  have hzero : (read? "-0".toList).map toRat = some 0 := by
    have hvalue : read? "-0".toList = some ⟨true, 0, 0⟩ := by decide +kernel
    rw [hvalue, Option.map_some, toRat_signed_mk]
    norm_num
  rw [h, hzero] at hread
  have hnonneg : 0 ≤ d.toRat := (Option.some.inj hread).le
  have hminus : '-' ∈ d.numeral.text := by
    rw [← plain_of_nonneg hnonneg, h]
    decide
  exact d.numeral.not_mem_text (by decide) (by decide) hminus

/-- **Numbers with the same text are equal.** -/
theorem plain_eq_iff {d e : Decimal} : d.plain = e.plain ↔ d.toRat = e.toRat := by
  constructor
  · intro h
    have hread := d.toRat_read?_plain
    rw [h, e.toRat_read?_plain] at hread
    exact (Option.some.inj hread).symm
  · intro h
    have hsign : d.isNegative = e.isNegative := by
      rw [Bool.eq_iff_iff, isNegative_iff, isNegative_iff, h]
    rw [plain, plain, hsign, numeral_eq_of_abs_eq (congrArg _ h)]

end Decimal

/-- Plain notation has no blanks and no underscores, so all of it is read as a numeral. -/
theorem DecimalValue.read?_plain (d : Decimal) :
    ∃ c, read? d.plain = some (.finite c) ∧ c.toRat = d.toRat := by
  obtain ⟨c, hc, hvalue⟩ := Option.map_eq_some_iff.1 d.toRat_read?_plain
  have hblank : ∀ x ∈ d.plain, Text.isBlank x = false := by
    have hdigit : ∀ x : Digit, Text.isBlank x.char = false := by decide
    intro x hx
    rcases Decimal.mem_plain hx with rfl | rfl | ⟨x, rfl⟩
    · decide
    · decide
    · exact hdigit x
  have hunderscore : d.plain.filter (· ≠ '_') = d.plain := by
    rw [List.filter_eq_self]
    intro x hx
    rw [decide_eq_true_eq]
    rintro rfl
    exact d.not_mem_plain (by decide) (by decide) (by decide) hx
  refine ⟨c, ?_, hvalue⟩
  rw [Decimal.read?] at hc
  rw [read?, Text.trim, Text.trimWhile_eq_self hblank, hunderscore]
  simp only [hc]

/-! ## The digits of a text -/

/-- The numeral has the digits of a text: those between its minus and its point, and those after the
point. -/
structure Numeral.SplitFrom (n : Numeral) (s : List Char) : Prop where
  integer : Digits.text n.integer = (s.dropWhile (· = '-')).takeWhile (· ≠ '.')
  fraction : Digits.text n.fraction = ((s.dropWhile (· = '-')).dropWhile (· ≠ '.')).drop 1

theorem Decimal.numeral_splitFrom (d : Decimal) : d.numeral.SplitFrom d.plain := by
  have hinteger : ∀ c ∈ Digits.text d.numeral.integer, decide (c ≠ '.') = true := by
    intro c hc
    obtain ⟨x, rfl⟩ := Digits.exists_of_mem_text hc
    exact decide_eq_true (x.char_ne (by decide))
  have hrest : ∀ c ∈ (if d.numeral.fraction.isEmpty then []
      else '.' :: Digits.text d.numeral.fraction).head?, decide (c ≠ '.') = false := by
    intro c hc
    split at hc
    · cases hc
    · obtain rfl := Option.some.inj hc
      decide
  constructor
  · rw [d.dropWhile_minus_plain, Numeral.text, takeWhile_append_of_head hinteger hrest]
  · rw [d.dropWhile_minus_plain, Numeral.text, dropWhile_append_of_head hinteger hrest]
    split
    · rename_i hempty
      rw [List.isEmpty_iff.1 hempty]
      rfl
    · rfl

/-- All digits of the numeral make the size of the number, moved along by the digits after the
point. -/
theorem Decimal.value_scaled_numeral (d : Decimal) :
    (Digits.value d.numeral.scaled : ℚ) = |d.toRat| * 10 ^ d.numeral.fraction.length := by
  have hvalue := d.toRat_numeral
  rw [Numeral.toRat_eq, zpow_neg, zpow_natCast] at hvalue
  rw [← hvalue]
  field_simp

/-! ## Main result -/

/-- A double is told by its text, but for the sign of a zero. -/
theorem Double.plain_eq_iff {x y : Float} {d e : Decimal} (hx : exact x = .finite d)
    (hy : exact y = .finite e) : d.plain = e.plain ↔ x = y ∨ d.toRat = 0 ∧ e.toRat = 0 := by
  rw [Decimal.plain_eq_iff]
  constructor
  · intro h
    by_cases hzero : d.toRat = 0
    · exact .inr ⟨hzero, h ▸ hzero⟩
    · obtain ⟨negative, m, q, hparts, -, -⟩ := exists_parts_of_exact hx
      have hparts' := (parts_ofDecimal_exact hy hzero h).symm.trans
        ((parts_ofDecimal_exact hx hzero rfl).trans hparts)
      exact .inl (eq_of_parts hparts hparts')
  · rintro (rfl | ⟨hd, he⟩)
    · rw [DecimalValue.finite.inj (hx.symm.trans hy)]
    · rw [hd, he]

/-- **Plain notation is canonical.** The text of a quantity has the one form, is read back as the
quantity, and is shared by the quantities that are equal to it and by no others; and its numeral
holds the digits of the text, without needless zeros, which make the size of the quantity. -/
theorem plain_notation_canonical {q r : Quantity} {d e : Decimal} (hq : q.exact = .finite d)
    (hr : r.exact = .finite e) :
    (q.exact.plain ∈ Text.plainForm.matches' ∧ q.exact.plain ≠ "-0".toList) ∧
      (∃ c, DecimalValue.read? q.exact.plain = some (.finite c) ∧ c.toRat = d.toRat) ∧
      (q.exact.plain = r.exact.plain ↔ d.toRat = e.toRat) ∧
      (∀ x y, q = .number (.float x) → r = .number (.float y) →
        (q.exact.plain = r.exact.plain ↔ x = y ∨ d.toRat = 0 ∧ e.toRat = 0)) ∧
      d.numeral.SplitFrom q.exact.plain ∧ d.numeral.Trim ∧
      (Digits.value d.numeral.scaled : ℚ) = |d.toRat| * 10 ^ d.numeral.fraction.length := by
  have hplain : q.exact.plain = d.plain := congrArg DecimalValue.plain hq
  have hother : r.exact.plain = e.plain := congrArg DecimalValue.plain hr
  rw [hplain, hother]
  refine ⟨⟨d.plain_mem_plainForm, d.plain_ne_minus_zero⟩, DecimalValue.read?_plain d,
    Decimal.plain_eq_iff, ?_, d.numeral_splitFrom, d.trim_numeral, d.value_scaled_numeral⟩
  rintro x y rfl rfl
  exact Double.plain_eq_iff hq hr

/-- Fifty thousandths less than zero and the double next to five hundredths less than zero have one
text. -/
theorem plain_notation_canonical_hundredths :
    (Quantity.decimal (.finite ⟨true, 50, -3⟩)).exact = .finite ⟨true, 50, -3⟩ ∧
      (Quantity.number (.float (-0.05))).exact = .finite ⟨true, 5, -2⟩ ∧
      (Quantity.decimal (.finite ⟨true, 50, -3⟩)).exact.plain = "-0.05".toList ∧
      "-0.05".toList ∈ Text.plainForm.matches' ∧
      (Quantity.number (.float (-0.05))).exact.plain = "-0.05".toList ∧
      (⟨true, 50, -3⟩ : Decimal).numeral = ⟨[0], [0, 5]⟩ ∧
      (Digits.value [0, 0, 5] : ℚ) = |(⟨true, 50, -3⟩ : Decimal).toRat| * 10 ^ 2 := by
  have hq : (Quantity.decimal (.finite ⟨true, 50, -3⟩)).exact = .finite ⟨true, 50, -3⟩ := rfl
  have hr : (Quantity.number (.float (-0.05))).exact = .finite ⟨true, 5, -2⟩ := by decide +kernel
  have hplain : (Quantity.decimal (.finite ⟨true, 50, -3⟩)).exact.plain = "-0.05".toList := by
    decide +kernel
  have hnumeral : (⟨true, 50, -3⟩ : Decimal).numeral = ⟨[0], [0, 5]⟩ := by decide +kernel
  obtain ⟨⟨hform, -⟩, -, hsame, -, -, -, hvalue⟩ := plain_notation_canonical hq hr
  have hequal : (⟨true, 50, -3⟩ : Decimal).toRat = (⟨true, 5, -2⟩ : Decimal).toRat := by
    rw [Decimal.toRat_signed_mk, Decimal.toRat_signed_mk]
    norm_num
  rw [hnumeral] at hvalue
  exact ⟨hq, hr, hplain, hplain ▸ hform, (hsame.2 hequal).symm.trans hplain, hnumeral, hvalue⟩

end Longhand
