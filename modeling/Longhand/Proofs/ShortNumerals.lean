import Longhand.Proofs.StepReplies
import Longhand.Proofs.TokenPlaces
/-!
# Short numerals

The tokens of an expression spell its text without the blanks (`CutInto.flatMap_chars`), and a number
token is a run of digits and points. So the length of an expression bounds its numerals, from above
and, if they are not zero, from below (`Decimal.IsShort`), and the doubles that they are read as keep
to these bounds up to a factor of two.

Main result, `Expression.not_overflows_of_short`: no expression of at most 300 characters asks for a
quotient that is too large for a double.
-/

namespace Longhand

/-! ## Reading a run -/

theorem Digit.exists_char_of_isDigit {c : Char} (h : Token.isDigit c = true) :
    ∃ d : Digit, c = d.char := by
  simp only [Token.isDigit, Bool.and_eq_true, decide_eq_true_eq] at h
  have hlow : 48 ≤ c.toNat := h.1
  have hhigh : c.toNat ≤ 57 := h.2
  have hchar : ∀ d : Digit, Char.ofNat (48 + d.val) = d.char := by decide
  refine ⟨⟨c.toNat - 48, by omega⟩, ?_⟩
  rw [← hchar, Nat.add_sub_cancel' hlow, Char.ofNat_toNat]

theorem Text.digitsValue_lt (s : List Char) : digitsValue s < 10 ^ s.length := by
  suffices h : ∀ n, s.foldl (fun n c => 10 * n + (decimalDigit? c).getD 0) n <
      10 ^ s.length * (n + 1) by
    simpa [digitsValue] using h 0
  induction s with
  | nil => simp
  | cons c s ih =>
    intro n
    have hdigit : (decimalDigit? c).getD 0 < 10 := by
      cases hc : decimalDigit? c with
      | none => simp
      | some d => exact decimalDigit?_lt hc
    calc (c :: s).foldl (fun n c => 10 * n + (decimalDigit? c).getD 0) n
        < 10 ^ s.length * (10 * n + (decimalDigit? c).getD 0 + 1) := ih _
      _ ≤ 10 ^ s.length * (10 * (n + 1)) := Nat.mul_le_mul_left _ (by omega)
      _ = 10 ^ (c :: s).length * (n + 1) := by rw [List.length_cons, pow_succ]; ring

/-- A decimal without a sign that has at most `k` digits, and at most `k` of them after its point. -/
structure Decimal.IsShort (k : Nat) (d : Decimal) : Prop where
  unsigned : d.negative = false
  coefficient_lt : d.coefficient < 10 ^ k
  exponent_le : d.exponent ≤ 0
  le_exponent : -(k : Int) ≤ d.exponent

/-- Digits and points have no exponent after them. -/
theorem Text.readExponent?_of_numeric {s : List Char} (hs : ∀ c ∈ s, Token.isNumeric c = true)
    {e : Int} (h : readExponent? s = some e) : e = 0 := by
  cases s with
  | nil => exact (Option.some.inj h).symm
  | cons c rest =>
    have hc : c ≠ 'e' ∧ c ≠ 'E' := by
      constructor
      · rintro rfl
        exact absurd (hs 'e' (by simp)) (by decide)
      · rintro rfl
        exact absurd (hs 'E' (by simp)) (by decide)
    simp [readExponent?, hc] at h

theorem Decimal.isShort_of_readUnsigned? {s : List Char} (hs : ∀ c ∈ s, Token.isNumeric c = true)
    {d : Decimal} (h : readUnsigned? false s = some d) : d.IsShort s.length := by
  have hparts {whole fraction rest : List Char} (hlength : whole.length + fraction.length ≤ s.length)
      (hrest : rest ⊆ s) (h : (if whole.isEmpty && fraction.isEmpty then none
        else (Text.readExponent? rest).map fun e =>
          (⟨false, Text.digitsValue (whole ++ fraction), e - fraction.length⟩ : Decimal)) = some d) :
      d.IsShort s.length := by
    split at h
    · cases h
    obtain ⟨e, he, rfl⟩ := Option.map_eq_some_iff.1 h
    obtain rfl := Text.readExponent?_of_numeric (fun c hc => hs c (hrest hc)) he
    refine ⟨rfl, (Text.digitsValue_lt _).trans_le ?_, by simp, by simp; omega⟩
    rw [List.length_append]
    exact Nat.pow_le_pow_right (by norm_num) hlength
  have hsplit : (s.takeWhile Text.isDecimalDigit).length +
      (s.dropWhile Text.isDecimalDigit).length = s.length := by
    rw [← List.length_append, List.takeWhile_append_dropWhile]
  have hdrop : s.dropWhile Text.isDecimalDigit ⊆ s := (List.dropWhile_suffix _).subset
  unfold readUnsigned? at h
  simp only at h
  split at h
  · have hfraction := (List.takeWhile_prefix Text.isDecimalDigit
      (l := (s.dropWhile Text.isDecimalDigit).tail)).length_le
    rw [List.length_tail] at hfraction
    refine hparts (by omega) ?_ h
    exact List.Subset.trans (List.drop_subset _ _) (List.Subset.trans (List.tail_subset _) hdrop)
  · exact hparts (by simp; omega) (List.Subset.trans (List.drop_subset _ _) hdrop) h

section

variable {s : List Char} (hs : Token.IsRun s)

include hs

theorem Token.IsRun.splitSign : Text.splitSign s = (false, s) ∧ ∃ d rest, s = Digit.char d :: rest := by
  obtain ⟨c, rest, rfl, hc, -⟩ := hs
  obtain ⟨d, rfl⟩ := Digit.exists_char_of_isDigit hc
  exact ⟨Digit.splitSign_cons d rest, d, rest, rfl⟩

/-- A run is read as the double nearest to the decimal that it denotes. -/
theorem Double.read?_of_isRun : read? s = (Decimal.read? s).map ofDecimal := by
  obtain ⟨hsign, d, rest, hd⟩ := hs.splitSign
  have hwhite : ∀ c ∈ s, Text.isWhiteSpace c = false := by
    intro c hc
    have hblank := Expression.not_isBlank_of_isNumeric (hs.isNumeric c hc)
    simp only [Text.isBlank, Bool.or_eq_false_iff] at hblank
    exact hblank.1
  have hline : '_' ∉ s := fun hmem => absurd (hs.isNumeric '_' hmem) (by decide)
  exact read?_of_digit (by rw [hsign, hd]) hwhite hline

theorem Decimal.isShort_of_read? {d : Decimal} (h : read? s = some d) : d.IsShort s.length := by
  rw [read?, hs.splitSign.1] at h
  exact isShort_of_readUnsigned? hs.isNumeric h

theorem Double.exists_isShort_of_read? {x : Float} (h : read? s = some x) :
    ∃ d, d.IsShort s.length ∧ x = ofDecimal d := by
  rw [read?_of_isRun hs] at h
  obtain ⟨d, hd, rfl⟩ := Option.map_eq_some_iff.1 h
  exact ⟨d, Decimal.isShort_of_read? hs hd, rfl⟩

end

/-! ## The double that is read -/

namespace Decimal

variable {k : Nat} {d : Decimal}

theorem IsShort.toRat_eq (h : d.IsShort k) : d.toRat = d.coefficient * 10 ^ d.exponent := by
  rw [Decimal.toRat_eq, signed, h.unsigned]
  rfl

theorem IsShort.toRat_nonneg (h : d.IsShort k) : 0 ≤ d.toRat := by
  rw [h.toRat_eq]
  exact mul_nonneg (Nat.cast_nonneg _) (ten_zpow_pos _).le

theorem IsShort.toRat_le (h : d.IsShort k) : d.toRat ≤ 10 ^ (k : Int) := by
  have hcoefficient : (d.coefficient : ℚ) ≤ 10 ^ (k : Int) := by
    rw [zpow_natCast]
    exact_mod_cast h.coefficient_lt.le
  rw [h.toRat_eq]
  exact (mul_le_of_le_one_right (Nat.cast_nonneg _)
    (zpow_le_one_of_nonpos₀ (by norm_num) h.exponent_le)).trans hcoefficient

theorem IsShort.le_toRat (h : d.IsShort k) (hne : d.coefficient ≠ 0) :
    (10 : ℚ) ^ (-(k : Int)) ≤ d.toRat := by
  have hone : (1 : ℚ) ≤ d.coefficient := by exact_mod_cast Nat.pos_of_ne_zero hne
  rw [h.toRat_eq]
  calc (10 : ℚ) ^ (-(k : Int)) ≤ 10 ^ d.exponent :=
        zpow_le_zpow_right₀ (by norm_num) h.le_exponent
    _ ≤ d.coefficient * 10 ^ d.exponent := le_mul_of_one_le_left (ten_zpow_pos _).le hone

end Decimal

/-- Two numbers that are read as one double with all its digits are within a factor of two. -/
theorem Double.Reads.le_two_mul {m : Nat} {q : Int} {v w : ℚ} (hm : 2 ≤ m) (hv : Reads m q v)
    (hw : Reads m q w) : v ≤ 2 * w := by
  have hcast : (2 : ℚ) ≤ m := by exact_mod_cast hm
  have hhigh := hv.high
  have hlow := hw.low
  have hgap := gapBelow_le m q
  have hquotient : v / 2 ^ q ≤ 2 * w / 2 ^ q := by
    rw [mul_div_assoc]
    linarith
  exact (div_le_div_iff_of_pos_right (two_zpow_pos q)).1 hquotient

/-- Numbers of 300 digits before or after the point are far from too large or too small. -/
theorem Decimal.ten_zpow_bounds {k : Nat} (hk : k ≤ 300) :
    (2 : ℚ) ^ (-1022 : Int) ≤ 10 ^ (-(k : Int)) ∧ (10 : ℚ) ^ (k : Int) ≤ 2 ^ (1000 : Int) := by
  have hten : (10 : ℚ) ^ (k : Int) ≤ 2 ^ (1000 : Int) := by
    have hpow : (2 : ℚ) ^ (1000 : Int) = (2 ^ 10) ^ 100 := by rw [← pow_mul]; rfl
    calc (10 : ℚ) ^ (k : Int) ≤ 10 ^ (300 : Int) := zpow_le_zpow_right₀ (by norm_num) (by omega)
      _ = (10 ^ 3) ^ 100 := by rw [← pow_mul]; rfl
      _ ≤ (2 ^ 10) ^ 100 := pow_le_pow_left₀ (by norm_num) (by norm_num) 100
      _ = 2 ^ (1000 : Int) := hpow.symm
  refine ⟨?_, hten⟩
  calc (2 : ℚ) ^ (-1022 : Int) ≤ 2 ^ (-1000 : Int) :=
        zpow_le_zpow_right₀ (by norm_num) (by norm_num)
    _ ≤ 10 ^ (-(k : Int)) := by
      rw [zpow_neg, zpow_neg]
      exact inv_anti₀ (ten_zpow_pos _) hten

/-- **The double that is read for a short decimal** is finite, and is written as a number that is
within a factor of two. -/
theorem Decimal.IsShort.exists_exact {k : Nat} {d : Decimal} (h : d.IsShort k) (hk : k ≤ 300) :
    ∃ e, Double.exact (Double.ofDecimal d) = .finite e ∧ e.toRat ≤ 2 * d.toRat ∧
      d.toRat ≤ 2 * e.toRat := by
  by_cases hzero : d.coefficient = 0
  · have hvalue : d.toRat = 0 := by rw [h.toRat_eq, hzero, Nat.cast_zero, zero_mul]
    have hexact : Double.exact 0 = .finite ⟨false, 0, -1⟩ := by decide +kernel
    rw [Double.ofDecimal_eq_zero h.unsigned hvalue, hvalue]
    exact ⟨_, hexact, by simp [toRat_mk], by simp [toRat_mk]⟩
  · obtain ⟨hsmall, hlarge⟩ := ten_zpow_bounds hk
    have habs := abs_of_nonneg h.toRat_nonneg
    have hlow : (2 : ℚ) ^ (-1022 : Int) ≤ |d.toRat| := by
      rw [habs]
      exact hsmall.trans (h.le_toRat hzero)
    have hhigh : |d.toRat| < Double.overflow := by
      rw [habs]
      calc d.toRat ≤ 2 ^ (1000 : Int) := h.toRat_le.trans hlarge
        _ < 2 ^ (1023 : Int) := zpow_lt_zpow_right₀ (by norm_num) (by norm_num)
        _ ≤ Double.overflow := Double.two_zpow_le_overflow le_rfl
    obtain ⟨m, q, hc, hleading, hreads⟩ := Double.exists_reads hlow hhigh
    have hm : 0 < m := lt_of_lt_of_le (by norm_num) hleading
    have hparts := Double.parts_ofDecimal hc hm hreads
    have hexact : Double.exact (Double.ofDecimal d) = .finite (Double.ofParts false m q) := by
      rw [Double.exact, hparts, h.unsigned]
    have hvalue : (Double.ofParts false m q).toRat = Double.shortestValue m q :=
      Double.toRat_ofParts false q hm
    rw [habs] at hreads
    have hshortest := Double.shortest_reads q hm hc.lt
    have htwo : 2 ≤ m := le_trans (by norm_num) hleading
    refine ⟨_, hexact, ?_, ?_⟩
    · rw [hvalue]
      exact hshortest.le_two_mul htwo hreads
    · rw [hvalue]
      exact hreads.le_two_mul htwo hshortest

/-! ## Quotients -/

/-- A term that was given as the double of a short decimal. -/
def Term.IsShort (k : Nat) (t : Term) : Prop :=
  ∃ d : Decimal, d.IsShort k ∧ t.number = .float (Double.ofDecimal d)

namespace Term

variable {k : Nat} {t : Term}

/-- A short term is bounded from above and, if it is positive, from below. -/
theorem IsShort.bounds (h : t.IsShort k) (hk : k ≤ 300) : t.exact.toRat ≤ 2 * 10 ^ (k : Int) ∧
    (0 < t.exact.toRat → (10 : ℚ) ^ (-(k : Int)) ≤ 2 * t.exact.toRat) := by
  obtain ⟨d, hd, hnumber⟩ := h
  obtain ⟨e, hexact, hupper, hlower⟩ := hd.exists_exact hk
  have heq := t.exact_eq
  rw [hnumber] at heq
  obtain rfl : e = t.exact := DecimalValue.finite.inj (hexact.symm.trans heq)
  refine ⟨hupper.trans (mul_le_mul_of_nonneg_left hd.toRat_le (by norm_num)), fun hpos => ?_⟩
  have hne : d.coefficient ≠ 0 := by
    intro hzero
    rw [hd.toRat_eq, hzero, Nat.cast_zero, zero_mul, mul_zero] at hupper
    exact absurd hpos (not_lt.2 hupper)
  exact (hd.le_toRat hne).trans hlower

end Term

/-- **A quotient of short terms is not too large** for a double. -/
theorem Problem.not_overflows_of_isShort {op : Operator} {left right : Term} {i j : Nat}
    (hcheck : (binary op left right).check = .ok ()) (hleft : left.IsShort i)
    (hright : right.IsShort j) (hlength : i + j ≤ 300) : ¬(binary op left right).Overflows := by
  rintro ⟨hop, -, hlarge⟩
  obtain rfl : op = .division := Operation.binary.inj hop
  obtain ⟨hnonneg, hpos⟩ := divisor_pos_of_check hcheck
  have hupper := (hleft.bounds (by omega)).1
  have hlower := (hright.bounds (by omega)).2 hpos
  set q := left.exact.toRat / right.exact.toRat with hq
  have hqnonneg : 0 ≤ q := div_nonneg hnonneg hpos.le
  have hquotient : q ≤ 4 * 10 ^ ((i + j : Nat) : Int) := by
    rw [hq, div_le_iff₀ hpos]
    have hscale : (10 : ℚ) ^ ((i + j : Nat) : Int) * 10 ^ (-(j : Int)) = 10 ^ (i : Int) := by
      rw [← Decimal.ten_zpow_add]
      congr 1
      omega
    calc left.exact.toRat ≤ 2 * 10 ^ (i : Int) := hupper
      _ = 2 * 10 ^ ((i + j : Nat) : Int) * 10 ^ (-(j : Int)) := by rw [← hscale, mul_assoc]
      _ ≤ 2 * 10 ^ ((i + j : Nat) : Int) * (2 * right.exact.toRat) :=
        mul_le_mul_of_nonneg_left hlower (mul_pos two_pos (Decimal.ten_zpow_pos _)).le
      _ = 4 * 10 ^ ((i + j : Nat) : Int) * right.exact.toRat := by ring
  have hrounded : (binary .division left right).exactResult ≤ q + 1 := by
    have hhalf := halfUp_le (mul_nonneg hqnonneg (by norm_num : (0 : ℚ) ≤ 10 ^ Division.places))
    have hplaces : (10 : ℚ) ^ Division.places = 100 := by norm_num [Division.places]
    rw [exactResult, ← hq]
    rw [hplaces] at hhalf ⊢
    rw [div_le_iff₀ (by norm_num)]
    linarith
  have hten := (Decimal.ten_zpow_bounds hlength).2
  have hone : (1 : ℚ) ≤ 2 ^ (1000 : Int) := one_le_zpow₀ (by norm_num) (by norm_num)
  have hroom : 8 * (2 : ℚ) ^ (1000 : Int) ≤ Double.overflow := by
    calc 8 * (2 : ℚ) ^ (1000 : Int) = 2 ^ (3 + 1000 : Int) := by
          rw [Double.two_zpow_add, zpow_ofNat (2 : ℚ) 3]
          norm_num
      _ ≤ Double.overflow := Double.two_zpow_le_overflow (by norm_num)
  generalize (2 : ℚ) ^ (1000 : Int) = top at hten hone hroom
  linarith

/-! ## Expressions -/

namespace Expression

variable {maxLength : Int} {s : List Char} {ts : List Token} {x : Float}

theorem filter_trim (s : List Char) :
    s.filter (!Text.isBlank ·) = (Text.trim s).filter (!Text.isBlank ·) := by
  obtain ⟨lead, trail, hs, -⟩ := Text.exists_trim s
  have hnone (b : Blanks) : b.chars.filter (!Text.isBlank ·) = [] := by
    rw [List.filter_eq_nil_iff]
    intro c hc
    simp [b.blank c hc]
  conv_lhs => rw [hs]
  rw [List.filter_append, List.filter_append, hnone, hnone, List.nil_append, List.append_nil]

/-- The tokens of an expression together are not longer than it. -/
theorem length_flatMap_chars_le (h : Evaluated maxLength s ts x) :
    ((ts.flatMap Token.chars).length : Int) ≤ maxLength := by
  rw [(cutInto_of_scan h.tokens).flatMap_chars, filter_trim]
  exact (Int.ofNat_le.2 (List.length_filter_le _ _)).trans h.length_le

/-! ## Main result -/

/-- **No problem of a short expression overflows.** -/
theorem not_overflows_of_short (h : Evaluated maxLength s ts x) (hmax : maxLength ≤ 300) {p : Problem}
    (htask : ParseResult.taskOfTokens ts = .ok (.problem p)) : ¬p.Overflows := by
  have hrun (t : Token) (ht : t ∈ ts) := (standsIn_of_ofText h.tokens t ht).isRun
  have hlength := length_flatMap_chars_le h
  have hcases := ParseResult.taskOf_taskOfTokens ts
  rw [htask] at hcases
  cases hcases with
  | operation hts hleft hop hright hx hl hy hr hcheck =>
    rename_i left op right _ _ _ _ _
    have hmem : left ∈ ts ∧ right ∈ ts := by simp [hts]
    obtain ⟨a, ha, rfl⟩ := Double.exists_isShort_of_read? (hrun left hmem.1 hleft) hx
    obtain ⟨b, hb, rfl⟩ := Double.exists_isShort_of_read? (hrun right hmem.2 hright) hy
    rw [hts] at hlength
    simp only [List.flatMap_append, List.flatMap_cons, List.length_append] at hlength
    exact Problem.not_overflows_of_isShort hcheck ⟨a, ha, hl⟩ ⟨b, hb, hr⟩ (by omega)
  | negation => exact fun h => absurd h.division (by simp [Problem.operation])

end Expression

end Longhand
