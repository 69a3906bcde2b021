import Longhand.Proofs.DigitProducts
import Longhand.Proofs.Operands
/-!
# Long multiplication is exact on the page

Every digit of the multiplier, a zero too, has one page, and on it the product of the multiplicand
with that digit in the place of the digit (`rowProducts`). These rows add up to the product of the
two integers that the factors spell without their points. The last row is that product with the
point put in; the precision has room for all its digits, so no digit is rounded away.
-/

namespace Longhand.Multiplication

/-! ## Partial products -/

/-- The products of a number with single digits, for the last digit first, each in the place of its
digit. -/
def rowProducts (n : Nat) (ds : List Digit) : List Nat :=
  ds.reverse.mapIdx fun place d => n * d.val * 10 ^ place

theorem sum_mapIdx_places (n unit : Nat) (ds : List Digit) :
    (ds.mapIdx fun place d => n * d.val * (unit * 10 ^ place)).sum =
      n * unit * Digits.value ds.reverse := by
  induction ds generalizing unit with
  | nil => simp [Digits.value_nil]
  | cons d ds ih =>
    have hplace : ∀ place : Nat, unit * 10 ^ (place + 1) = unit * 10 * 10 ^ place := by
      intro place
      rw [pow_succ]
      ring
    rw [List.mapIdx_cons, List.sum_cons, List.reverse_cons, Digits.value_concat]
    simp only [hplace, ih]
    ring

/-- **The partial products add up** to the product of the numbers. -/
theorem sum_rowProducts (n : Nat) (ds : List Digit) :
    (rowProducts n ds).sum = n * Digits.value ds := by
  have h := sum_mapIdx_places n 1 ds.reverse
  rw [List.reverse_reverse, Nat.mul_one] at h
  rw [rowProducts, ← h]
  simp only [Nat.one_mul]

/-- Zeros behind the digits of a number other than zero. -/
theorem ofNat_append_zeros {n : Nat} (h : n ≠ 0) (k : Nat) :
    Digits.ofNat n ++ Digits.zeros k = Digits.ofNat (n * 10 ^ k) := by
  induction k with
  | zero => simp [Digits.zeros]
  | succ k ih =>
    have hpos : 0 < n * 10 ^ k := by positivity
    have hzeros : Digits.zeros (k + 1) = Digits.zeros k ++ [0] := List.replicate_succ'
    have hnext : n * 10 ^ (k + 1) = 10 * (n * 10 ^ k) + (0 : Digit).val := by
      rw [pow_succ, Fin.val_zero]
      ring
    rw [hzeros, ← List.append_assoc, ih, hnext, Digits.ofNat_concat hpos]

/-- A partial product, with the zeros that its place asks for. -/
theorem shifted_partialProduct (ds : List Digit) (shift : Nat) (d : Digit) :
    (partialProduct ds shift d).shifted =
      Digits.ofNat (Digits.value ds * d.val * 10 ^ shift) := by
  unfold partialProduct
  simp only [Digits.digits_times, Digits.value_ofNat]
  by_cases h : Digits.value ds * d.val = 0
  · rw [if_pos h, h, Nat.zero_mul]
  · rw [if_neg h, ofNat_append_zeros h]

section

variable (left right : Numeral)

theorem map_shifted_partials :
    (partials left right).map (·.shifted) =
      (rowProducts (Digits.value left.scaled) right.scaled).map Digits.ofNat := by
  refine List.ext_getElem? fun place => ?_
  simp only [partials, rowProducts, List.getElem?_map, List.getElem?_mapIdx, Option.map_map,
    Function.comp_def, shifted_partialProduct]

theorem length_partials : (partials left right).length = right.scaled.length := by
  simp [partials]

theorem total_partials :
    total (partials left right) =
      Digits.ofNat (Digits.value left.scaled * Digits.value right.scaled) := by
  rw [total, map_shifted_partials, Digits.sum_eq_ofNat, ← sum_rowProducts, List.map_map]
  congr 2
  exact (List.map_congr_left fun n _ => Digits.value_ofNat n).trans (List.map_id _)

/-- The rows of the partial products show them. -/
theorem numbers_partialRows (width : Nat) :
    ((partials left right).map fun p => Row.padStart width (Digits.text p.shifted)).map
        Row.number? =
      (rowProducts (Digits.value left.scaled) right.scaled).map fun n => some ⟨false, n, 0⟩ := by
  have hrows : ((partials left right).map fun p => Row.padStart width (Digits.text p.shifted)) =
      ((partials left right).map (·.shifted)).map fun ds => Row.padStart width (Digits.text ds) := by
    rw [List.map_map]
    rfl
  rw [hrows, map_shifted_partials, List.map_map, List.map_map]
  refine List.map_congr_left fun n _ => ?_
  exact (Row.number?_padStart width _).trans (Row.number?_ofNat n)

end

/-! ## The product -/

def product (left right : Numeral) : Decimal :=
  ⟨false, Digits.value left.scaled * Digits.value right.scaled, -scale left right⟩

theorem toRat_product (left right : Numeral) :
    (product left right).toRat = left.toRat * right.toRat := by
  have hscale : (-(scale left right : Int)) =
      -(left.fraction.length : Int) + -(right.fraction.length : Int) := by
    rw [scale]
    push_cast
    ring
  rw [product, Decimal.toRat_mk, hscale, Decimal.ten_zpow_add, Numeral.toRat_eq, Numeral.toRat_eq]
  push_cast
  ring

/-- The integer that a decimal spells without its point has no more digits than it spans. -/
theorem value_scaled_lt (d : Decimal) : Digits.value d.numeral.scaled < pow10 d.span := by
  have hcoefficient : d.coefficient < pow10 d.digitCount := Digits.lt_pow10_length d.coefficient
  have hplaces : d.exponent + d.numeral.fraction.length ≤ d.exponent.natAbs := by
    unfold Decimal.numeral
    split
    · simp only [List.length_nil]
      omega
    · have h := Digits.length_trimEnd_le
        (Digits.ofNatPadded (-d.exponent).toNat (d.coefficient % pow10 (-d.exponent).toNat))
      rw [Digits.length_ofNatPadded] at h
      simp only
      omega
  have hvalue : (Digits.value d.numeral.scaled : ℚ) ≤ d.coefficient * pow10 d.exponent.natAbs := by
    have h := d.numeral.value_scaled_zeros 0
    rw [Digits.value_append_zeros, pow10_zero, mul_one, Decimal.toRat_numeral, Decimal.toRat,
      abs_mul, Decimal.signed_natAbs, abs_of_pos (Decimal.ten_zpow_pos _)] at h
    rw [h, Nat.add_zero, mul_assoc, ← zpow_natCast (10 : ℚ) d.numeral.fraction.length,
      ← Decimal.ten_zpow_add, pow10_eq, ← zpow_natCast]
    exact mul_le_mul_of_nonneg_left (zpow_le_zpow_right₀ (by norm_num) hplaces) (Nat.cast_nonneg _)
  have hnat : Digits.value d.numeral.scaled ≤ d.coefficient * pow10 d.exponent.natAbs := by
    exact_mod_cast hvalue
  rw [Decimal.span, pow10_add]
  exact hnat.trans_lt (Nat.mul_lt_mul_of_pos_right hcoefficient (pow10_pos _))

theorem roundTo_of_digitCount_le {precision : Nat} {d : Decimal} (h : d.digitCount ≤ precision) :
    d.roundTo precision = d := by
  simp [Decimal.roundTo, Nat.sub_eq_zero_of_le h]

/-- The sum of the partial products with the point put in is the product. -/
theorem shift_total (left right : Numeral) :
    (Decimal.ofScaled (Digits.value (total (partials left right))) 0).shift (-scale left right) =
      product left right := by
  rw [total_partials, Digits.value_ofNat]
  generalize hn : Digits.value left.scaled * Digits.value right.scaled = n
  simp [Decimal.ofScaled, Decimal.shift, product, hn]

/-- **The precision has room** for all digits of the product. -/
theorem digitCount_product_le (d v : Decimal) :
    (product d.numeral v.numeral).digitCount ≤ precisionOfSpans [d.span, v.span] := by
  let precision := precisionOfSpans [d.span, v.span]
  have hroom : d.span + v.span ≤ precision := by
    simp only [precision, precisionOfSpans, List.foldl_cons, List.foldl_nil]
    omega
  have hpos : 0 < precision := by
    simp only [precision, precisionOfSpans, defaultPrecision]
    omega
  have hlt : Digits.value d.numeral.scaled * Digits.value v.numeral.scaled < pow10 precision := by
    calc Digits.value d.numeral.scaled * Digits.value v.numeral.scaled
        < pow10 d.span * pow10 v.span :=
          Nat.mul_lt_mul'' (value_scaled_lt d) (value_scaled_lt v)
      _ = pow10 (d.span + v.span) := (pow10_add _ _).symm
      _ ≤ pow10 precision := Nat.pow_le_pow_right (by norm_num) hroom
  exact Digits.length_ofNat_le hpos hlt

theorem productText_eq (d v : Decimal) :
    productText (precisionOfSpans [d.span, v.span]) d.numeral v.numeral =
      (product d.numeral v.numeral).numeral.text := by
  rw [productText, shift_total, roundTo_of_digitCount_le (digitCount_product_le d v)]
  simp [Decimal.plain, Decimal.isNegative, product]

theorem toRat_numeral_product (left right : Numeral) :
    (product left right).numeral.toDecimal.toRat = (product left right).toRat := by
  have hpos : 0 ≤ (product left right).toRat := Decimal.toRat_mk_nonneg _ _
  exact Decimal.toRat_numeral_of_nonneg hpos

/-- Without digits after the points the product is written as its digits. -/
theorem text_product_of_scale {left right : Numeral} (h : scale left right = 0) :
    (product left right).numeral.text = Digits.text (total (partials left right)) := by
  rw [total_partials]
  simp [product, h, Decimal.numeral, Numeral.text, pow10_zero]

/-! ## What the last page says -/

/-- The number in the last word of an explanation, with which the sentence ends. -/
def statedProduct? (explanation : String) : Option Decimal :=
  (Text.words explanation).getLast?.bind fun word => Decimal.read? word.dropLast

theorem statedProduct?_of_end {explanation : String} (before : List Char) {n : Numeral}
    (hn : n.integer ≠ []) (h : explanation.toList = before ++ ' ' :: (n.text ++ ['.'])) :
    statedProduct? explanation = some n.toDecimal := by
  have hblank : ' ' ∉ n.text ++ ['.'] := by
    simp [n.not_mem_text (c := ' ') (by decide) (by decide)]
  rw [statedProduct?, Text.getLast?_words before hblank h, Option.bind_some, List.dropLast_concat,
    Numeral.read?_text hn]

/-- The last page states the product. -/
theorem statedProduct?_totalExplanation {precision : Nat} {left right : Numeral}
    (h : productText precision left right = (product left right).numeral.text) :
    statedProduct? (totalExplanation precision left right) =
      some (product left right).numeral.toDecimal := by
  have hn := (product left right).numeral_integer_ne_nil
  unfold totalExplanation
  simp only [h]
  by_cases hscale : scale left right = 0
  · have htext := text_product_of_scale hscale
    by_cases hone : (partials left right).length = 1
    · refine statedProduct?_of_end (left.text ++ " × ".toList ++ right.text ++ " =".toList)
        hn ?_
      simp [hscale, hone, toString]
    · refine statedProduct?_of_end ("Add the partial products: ".toList ++
        (" + ".intercalate ((partials left right).map fun p => digitsText p.shifted)).toList ++
        " =".toList) hn ?_
      simp [hscale, hone, toString, digitsText, htext]
  · generalize hworked : (if (partials left right).length = 1 then _ else _ : String) = worked
    refine statedProduct?_of_end (worked.toList ++ " The two numbers have ".toList ++
      (plural (scale left right) "decimal place").toList ++
      " between them, so the product is".toList) hn ?_
    simp [hscale, toString]

/-! ## The pages -/

/-- The step for the digit of the multiplier that stands `place` places before the end: it names the
digit, and its page shows the partial products so far. -/
structure MultipliesBy (d v : Decimal) (place : Nat) (s : Step) : Prop where
  digit : (Text.words s.description).getLast? =
    v.numeral.scaled.reverse[place]?.map fun b => [b.char]
  rows : s.layout.numbers.drop 3 =
    ((rowProducts (Digits.value d.numeral.scaled) v.numeral.scaled).take (place + 1)).map
      fun n => some ⟨false, n, 0⟩

/-- The last step shows all partial products, a line and the product, and states the product. -/
structure Answers (d v : Decimal) (s : Step) (W : Decimal) : Prop where
  rows : s.layout.numbers.drop 3 =
    (rowProducts (Digits.value d.numeral.scaled) v.numeral.scaled).map
      (fun n => some ⟨false, n, 0⟩) ++ [none, some W]
  stated : statedProduct? s.explanation = some W
  spelled : W.toRat = Digits.value d.numeral.scaled * Digits.value v.numeral.scaled *
    10 ^ (-(scale d.numeral v.numeral : Int))
  toRat_eq : W.toRat = d.toRat * v.toRat

/-- The steps of a multiplication of `d` by `v` are exact: one for each digit of the multiplier,
between the set-up and the answer, and the partial products add up. -/
structure Exact (d v : Decimal) (steps : List Step) : Prop where
  multiplicand : (Digits.value d.numeral.scaled : ℚ) = d.toRat * 10 ^ d.numeral.fraction.length
  multiplier : (Digits.value v.numeral.scaled : ℚ) = v.toRat * 10 ^ v.numeral.fraction.length
  factors : ∀ s ∈ steps, (s.layout.rows.take 2).map Row.compact =
    [d.numeral.text, '×' :: v.numeral.text]
  sum : (rowProducts (Digits.value d.numeral.scaled) v.numeral.scaled).sum =
    Digits.value d.numeral.scaled * Digits.value v.numeral.scaled
  pages : ∃ (first : Step) (shown : List Step) (last : Step), steps = first :: (shown ++ [last]) ∧
    shown.length = v.numeral.scaled.length ∧
    (∀ place < v.numeral.scaled.length, ∃ s, shown[place]? = some s ∧ MultipliesBy d v place s) ∧
    ∃ W, Answers d v last W

/-- The factors stand on a page that starts with them. -/
theorem compact_factors {s : Step} {draft : Draft} (hs : s.Shows draft) {width : Nat}
    {left right : Numeral} {rest : List Row}
    (h : draft.layout.rows = header width left right ++ rest) :
    (s.layout.rows.take 2).map Row.compact = [left.text, '×' :: right.text] := by
  have hfactor := Row.compact_cons (c := '×') (by decide) (Row.padStart (width - 1) right.text)
  rw [Row.compact_padStart, Row.compact_numeral] at hfactor
  rw [hs.layout]
  simp [Layout.squared, h, header, Row.compact_padEnd, Row.compact_padStart, Row.compact_numeral,
    hfactor]

/-- Every page starts with the factors. -/
theorem rows_of_mem_drafts {precision : Nat} {left right : Numeral} {draft : Draft}
    (h : draft ∈ drafts precision left right) :
    ∃ rest, draft.layout.rows = header (pageWidth precision left right) left right ++ rest := by
  simp only [drafts, List.cons_append, List.mem_cons, List.mem_append, List.mem_mapIdx,
    List.not_mem_nil, or_false] at h
  rcases h with rfl | ⟨place, _, rfl⟩ | rfl
  · exact ⟨[], (List.append_nil _).symm⟩
  · exact ⟨_, rfl⟩
  · exact ⟨_, List.append_assoc ..⟩

section

variable {d v : Decimal} {s : Step} {width : Nat}

theorem multipliesBy_of_shows {place : Nat} {p : Partial}
    (hp : (partials d.numeral v.numeral)[place]? = some p)
    (hs : s.Shows (partialDraft width d.numeral v.numeral
      ((partials d.numeral v.numeral).map fun p => Row.padStart width (Digits.text p.shifted))
      place p)) : MultipliesBy d v place s := by
  constructor
  · have hdigit : v.numeral.scaled.reverse[place]? = some p.digit := by
      rw [partials, List.getElem?_mapIdx, Option.map_eq_some_iff] at hp
      obtain ⟨b, hb, rfl⟩ := hp
      exact hb
    have hblank : ' ' ∉ [p.digit.char] := by
      simpa using (p.digit.char_ne (by decide)).symm
    rw [hdigit, Option.map_some, hs.description]
    refine Text.getLast?_words ("Multiply ".toList ++ d.numeral.text ++
      " by the ".toList ++ (multiplierPlace v.numeral place).toList ++ " digit".toList) hblank ?_
    simp [partialDraft, digitText, toString]
  · rw [hs.layout, Layout.numbers_squared]
    change (List.take (place + 1) _).map Row.number? = _
    rw [List.map_take, numbers_partialRows, List.map_take]

theorem answers_of_shows {draft : Draft} (hs : s.Shows draft)
    (hrows : draft.layout.rows = header width d.numeral v.numeral ++
      ((partials d.numeral v.numeral).map fun p => Row.padStart width (Digits.text p.shifted)) ++
      [List.replicate width '-', Row.padStart width
        (productText (precisionOfSpans [d.span, v.span]) d.numeral v.numeral)])
    (hexplanation : draft.explanation =
      totalExplanation (precisionOfSpans [d.span, v.span]) d.numeral v.numeral)
    (hd : 0 ≤ d.toRat) (hv : 0 ≤ v.toRat) : ∃ W, Answers d v s W := by
  have htext := productText_eq d v
  have hnumber : Row.number? (Row.padStart width (product d.numeral v.numeral).numeral.text) =
      some (product d.numeral v.numeral).numeral.toDecimal :=
    (Row.number?_padStart width _).trans (Row.number?_numeral (Decimal.numeral_integer_ne_nil _))
  refine ⟨(product d.numeral v.numeral).numeral.toDecimal, ?_, ?_, ?_, ?_⟩
  · rw [hs.layout, Layout.numbers_squared, Layout.numbers, hrows, htext, List.append_assoc]
    change List.map Row.number? (_ ++ [_, _]) = _
    rw [List.map_append, numbers_partialRows, List.map_cons, List.map_cons, List.map_nil,
      Row.number?_line, hnumber]
  · rw [hs.explanation, hexplanation, statedProduct?_totalExplanation htext]
  · rw [toRat_numeral_product, product, Decimal.toRat_mk]
    push_cast
    ring
  · rw [toRat_numeral_product, toRat_product, Decimal.toRat_numeral_of_nonneg hd,
      Decimal.toRat_numeral_of_nonneg hv]

end

/-- The integer that a decimal spells, against its number. -/
theorem value_scaled_eq {d : Decimal} (hd : 0 ≤ d.toRat) :
    (Digits.value d.numeral.scaled : ℚ) = d.toRat * 10 ^ d.numeral.fraction.length := by
  have h := d.numeral.value_scaled_zeros 0
  rwa [Digits.value_append_zeros, pow10_zero, mul_one, Nat.add_zero,
    Decimal.toRat_numeral_of_nonneg hd] at h

/-- **Long multiplication is exact.** Two factors that are not negative have steps, one for each
digit of the multiplier, and the last row is their product. -/
theorem long_multiplication_exact {left right : Number} {d v : Decimal} (hl : left.Denotes d)
    (hr : right.Denotes v) (hd : 0 ≤ d.toRat) (hv : 0 ≤ v.toRat) :
    ∃ p, Problem.ofTask (.written "×") (.number left) (some (.number right)) = .ok p ∧
      Exact d v p.steps := by
  refine ⟨_, Problem.ofTask_binary rfl (by decide) hl hr hd hv (by simp), ?_⟩
  generalize hp : Problem.binary .multiplication hl.term hr.term = p
  have hdrafts : p.drafts =
      drafts (precisionOfSpans [d.span, v.span]) d.numeral v.numeral := by
    rw [← hp]
    rfl
  have hshows := Step.ofDrafts_shows p.operation p.operands p.result p.drafts
  rw [hdrafts] at hshows
  refine ⟨value_scaled_eq hd, value_scaled_eq hv, ?_, sum_rowProducts _ _, ?_⟩
  · intro s hs
    rw [Problem.steps, hdrafts] at hs
    obtain ⟨draft, hdraft, hsd⟩ := Step.exists_draft hshows hs
    obtain ⟨rest, hrows⟩ := rows_of_mem_drafts hdraft
    exact compact_factors hsd hrows
  · -- the steps fall into the set-up, those of the digits and the last one
    rw [Problem.steps, hdrafts]
    obtain ⟨first, others, -, hothers, hsteps⟩ := List.forall₂_cons_right_iff.1 hshows
    obtain ⟨shown, lastStep, rfl, hshown, hlast⟩ := Step.exists_append hothers
    obtain ⟨last, hfinal, rfl⟩ := Step.exists_singleton hlast
    refine ⟨first, shown, last, hsteps, ?_, ?_, ?_⟩
    · rw [hshown.length_eq, List.length_mapIdx, length_partials]
    · intro place hplace
      rw [← length_partials d.numeral v.numeral] at hplace
      have hp : (partials d.numeral v.numeral)[place]? = some _ := List.getElem?_eq_getElem hplace
      obtain ⟨s, hs, hsd⟩ := Step.exists_getElem hshown (i := place) (by
        rw [List.getElem?_mapIdx, hp, Option.map_some])
      exact ⟨s, hs, multipliesBy_of_shows hp hsd⟩
    · exact answers_of_shows hfinal rfl rfl hd hv

/-- A factor below one, a zero inside the other, and a multiplier that starts with a zero. -/
theorem long_multiplication_exact_five_hundredths :
    (Number.float 10.3).Denotes ⟨false, 103, -1⟩ ∧ (Number.float 0.05).Denotes ⟨false, 5, -2⟩ ∧
      0 ≤ (⟨false, 103, -1⟩ : Decimal).toRat ∧ 0 ≤ (⟨false, 5, -2⟩ : Decimal).toRat ∧
      ∃ p, Problem.ofTask (.written "×") (.number (.float 10.3)) (some (.number (.float 0.05))) =
          .ok p ∧
        Exact ⟨false, 103, -1⟩ ⟨false, 5, -2⟩ p.steps := by
  have hl : (Number.float 10.3).Denotes ⟨false, 103, -1⟩ :=
    ⟨by decide +kernel, fun i h => by cases h⟩
  have hr : (Number.float 0.05).Denotes ⟨false, 5, -2⟩ :=
    ⟨by decide +kernel, fun i h => by cases h⟩
  have hd : 0 ≤ (⟨false, 103, -1⟩ : Decimal).toRat := Decimal.toRat_mk_nonneg _ _
  have hv : 0 ≤ (⟨false, 5, -2⟩ : Decimal).toRat := Decimal.toRat_mk_nonneg _ _
  exact ⟨hl, hr, hd, hv, long_multiplication_exact hl hr hd hv⟩

end Longhand.Multiplication
