import Longhand.Proofs.BroughtDigits
import Longhand.Proofs.LongDivision
import Mathlib.Algebra.Order.Floor.Semifield
import Mathlib.Data.Nat.Cast.Field
import Mathlib.Data.Rat.Floor
/-!
# The rounded quotient is the quotient on the page, rounded

The answer of a division is worked out on fractions of integers, while the page shows a quotient
that stops after some digits. Both round to the same hundredths: either nothing remains, or the page
has a digit after the hundredths, and then what follows that digit cannot reach the next half
(`halfUp_truncated`).
-/

namespace Longhand

/-! ## Rounding a half up -/

/-- The whole number nearest to a number that is not negative, a half going up. -/
def halfUp (x : ℚ) : Nat :=
  ⌊x + 1 / 2⌋₊

theorem halfUp_natCast (n : Nat) : halfUp n = n := by
  have hn : (0 : ℚ) ≤ n := Nat.cast_nonneg n
  rw [halfUp, Nat.floor_eq_iff (by linarith)]
  constructor <;> linarith

theorem halfUp_le {x : ℚ} (hx : 0 ≤ x) : (halfUp x : ℚ) ≤ x + 1 / 2 :=
  Nat.floor_le (by linarith)

theorem lt_halfUp (x : ℚ) : x - 1 / 2 < halfUp x := by
  have hfloor : x + 1 / 2 < halfUp x + 1 := Nat.lt_floor_add_one _
  linarith

/-- The remainder of a division decides which way it is rounded. -/
theorem halfUp_div (n : Nat) {unit : Nat} (h : 0 < unit) :
    halfUp ((n : ℚ) / unit) = divHalfUp n unit := by
  have hunit : (unit : ℚ) ≠ 0 := by exact_mod_cast h.ne'
  have hsum : (n : ℚ) / unit + 1 / 2 = ((2 * n + unit : Nat) : ℚ) / ((2 * unit : Nat) : ℚ) := by
    push_cast
    field_simp
  have hn : unit * (n / unit) + n % unit = n := Nat.div_add_mod n unit
  have hr : n % unit < unit := Nat.mod_lt n h
  rw [halfUp, hsum, Nat.floor_div_eq_div, divHalfUp]
  generalize n / unit = q at *
  generalize n % unit = r at *
  have hsplit : 2 * n + unit = 2 * r + unit + 2 * unit * q := by
    rw [← hn]
    ring
  rw [hsplit, Nat.add_mul_div_left _ _ (by omega)]
  split
  · rename_i hup
    have hone : (2 * r + unit) / (2 * unit) = 1 := Nat.div_eq_of_lt_le (by omega) (by omega)
    omega
  · rename_i hdown
    have hzero : (2 * r + unit) / (2 * unit) = 0 := Nat.div_eq_of_lt (by omega)
    omega

/-- **One digit more is enough**: what follows a digit after the point does not change the
rounding. -/
theorem halfUp_truncated (n : Nat) {k : Nat} (hk : 0 < k) {t : ℚ} (h0 : 0 ≤ t) (h1 : t < 1) :
    halfUp ((n + t) / 10 ^ k) = halfUp (n / 10 ^ k) := by
  obtain ⟨k, rfl⟩ := Nat.exists_eq_succ_of_ne_zero hk.ne'
  let m := n + 5 * 10 ^ k
  have hhalf : ∀ s : ℚ, (n + s) / 10 ^ (k + 1) + 1 / 2 = (m + s) / ((10 ^ (k + 1) : Nat) : ℚ) := by
    intro s
    simp only [m]
    push_cast
    rw [pow_succ]
    field_simp
    ring
  have hfloor : ∀ s : ℚ, 0 ≤ s → s < 1 → ⌊(m : ℚ) + s⌋₊ = m := by
    intro s hs0 hs1
    have hm : (0 : ℚ) ≤ m := Nat.cast_nonneg m
    rw [Nat.floor_eq_iff (by linarith)]
    constructor <;> linarith
  have hround : ∀ s : ℚ, 0 ≤ s → s < 1 → halfUp ((n + s) / 10 ^ (k + 1)) = m / 10 ^ (k + 1) := by
    intro s hs0 hs1
    rw [halfUp, hhalf, Nat.floor_div_natCast, hfloor s hs0 hs1]
  have hzero := hround 0 le_rfl one_pos
  rw [add_zero] at hzero
  rw [hround t h0 h1, hzero]

namespace Decimal

/-- A decimal without a sign, brought to an exponent. -/
theorem atExponent_eq {x : Decimal} (hx : x.negative = false) (e : Int) :
    x.atExponent e = ⟨false, halfUp (x.toRat / 10 ^ e), e⟩ := by
  obtain ⟨negative, coefficient, exponent⟩ := x
  obtain rfl : negative = false := hx
  rw [toRat_mk, mul_div_assoc, ← zpow_sub₀ (by norm_num)]
  unfold atExponent
  by_cases h : e ≤ exponent
  · have hscale : (10 : ℚ) ^ (exponent - e) = pow10 (exponent - e).toNat :=
      (pow10_toNat (by omega)).symm
    rw [if_pos h, hscale, ← Nat.cast_mul, halfUp_natCast]
  · have hscale : (10 : ℚ) ^ (exponent - e) = (pow10 (e - exponent).toNat : ℚ)⁻¹ := by
      rw [pow10_toNat (by omega), ← zpow_neg, neg_sub]
    rw [if_neg h, hscale, ← div_eq_mul_inv, halfUp_div _ (pow10_pos _)]

/-- The fraction of a decimal. -/
theorem ratio_spec (d : Decimal) : 0 < d.ratio.2 ∧ (d.ratio.1 : ℚ) / d.ratio.2 = d.toRat := by
  unfold ratio
  by_cases h : 0 ≤ d.exponent
  · rw [if_pos h]
    have hscaled := scaledTo_mul h
    simp only [zpow_zero, mul_one] at hscaled
    simp [hscaled]
  · obtain ⟨places, hplaces⟩ : ∃ places : Nat, d.exponent = -(places : Int) :=
      ⟨(-d.exponent).toNat, by omega⟩
    have hunit : (-d.exponent).toNat = places := by omega
    rw [if_neg h]
    simp only [hunit]
    generalize hg : d.coefficient.gcd (pow10 places) = g
    have hgpos : 0 < g := by
      rw [← hg]
      exact Nat.gcd_pos_of_pos_right _ (pow10_pos places)
    have hgunit : g ∣ pow10 places := hg ▸ Nat.gcd_dvd_right ..
    have hgsigned : (g : Int) ∣ d.signed := by
      have hc : g ∣ d.coefficient := hg ▸ Nat.gcd_dvd_left ..
      unfold signed
      split
      · exact (Int.natCast_dvd_natCast.2 hc).neg_right
      · exact Int.natCast_dvd_natCast.2 hc
    have hg0 : (g : ℚ) ≠ 0 := by exact_mod_cast hgpos.ne'
    refine ⟨Nat.div_pos (Nat.le_of_dvd (pow10_pos places) hgunit) hgpos, ?_⟩
    rw [Int.cast_div hgsigned (by exact_mod_cast hg0), Nat.cast_div hgunit hg0, Int.cast_natCast,
      div_div_div_cancel_right₀ hg0, toRat, hplaces, pow10_eq, zpow_neg, zpow_natCast,
      div_eq_mul_inv]

/-- A quotient of numbers that are not negative, rounded. -/
theorem divideHalfUp_eq {a b : Decimal} (ha : 0 ≤ a.toRat) (hb : 0 < b.toRat) (places : Nat) :
    a.divideHalfUp b places = ⟨false, halfUp (a.toRat / b.toRat * 10 ^ places), -places⟩ := by
  obtain ⟨hk, hm⟩ := ratio_spec a
  obtain ⟨hl, hn⟩ := ratio_spec b
  unfold divideHalfUp
  generalize a.ratio = p at *
  generalize b.ratio = q at *
  obtain ⟨m, k⟩ := p
  obtain ⟨n, l⟩ := q
  simp only at hk hm hl hn ⊢
  have hkq : (0 : ℚ) < k := by exact_mod_cast hk
  have hlq : (0 : ℚ) < l := by exact_mod_cast hl
  have hm0 : 0 ≤ m := by
    have h : (0 : ℚ) ≤ m := by
      rw [(div_eq_iff hkq.ne').1 hm]
      positivity
    exact_mod_cast h
  have hn0 : 0 < n := by
    have h : (0 : ℚ) < n := by
      rw [(div_eq_iff hlq.ne').1 hn]
      positivity
    exact_mod_cast h
  obtain ⟨m, rfl⟩ := Int.eq_ofNat_of_zero_le hm0
  obtain ⟨n, rfl⟩ := Int.eq_ofNat_of_zero_le hn0.le
  have hnpos : 0 < n := by exact_mod_cast hn0
  have hnum : (m : Int) * l * pow10 places = ((m * l * pow10 places : Nat) : Int) := by push_cast; rfl
  have hden : (k : Int) * (n : Int) = ((k * n : Nat) : Int) := by push_cast; rfl
  have hratio : a.toRat / b.toRat * 10 ^ places =
      ((m * l * pow10 places : Nat) : ℚ) / ((k * n : Nat) : ℚ) := by
    rw [← hm, ← hn]
    push_cast
    rw [pow10_eq]
    field_simp
  have hsign : ¬ ((m * l * pow10 places : Nat) : Int) < 0 := by omega
  rw [hnum, hden, if_neg (by omega), decide_eq_false hsign, Int.natAbs_natCast, Int.natAbs_natCast,
    hratio, halfUp_div _ (Nat.mul_pos hk hnpos)]

end Decimal

/-! ## Numbers that are equal -/

namespace Double

/-- The number that a double is, which need not be the decimal it is written as. -/
def toRat? (x : Float) : Option ℚ :=
  match parts x with
  | .finite negative m q => some ((if negative then -1 else 1) * m * 2 ^ q)
  | _ => none

/-- A whole double as an integer is the same number. -/
theorem toRat?_of_toInt? {x : Float} {n : Int} (h : toInt? x = some n) :
    toRat? x = some (n : ℚ) := by
  unfold toInt? at h
  unfold toRat?
  cases hp : parts x with
  | nan => simp [hp] at h
  | infinity negative => simp [hp] at h
  | finite negative m q =>
    simp only [hp] at h
    split at h
    · rename_i hm
      have hnat : (m : Int) / pow2 (-q).toNat * pow2 q.toNat =
          ((m / pow2 (-q).toNat * pow2 q.toNat : Nat) : Int) := by
        push_cast
        rfl
      rw [hnat] at h
      obtain rfl := Option.some.inj h
      have hsize : (m : ℚ) * 2 ^ q = ((m / pow2 (-q).toNat * pow2 q.toNat : Nat) : ℚ) := by
        have hpow : ∀ n : Nat, pow2 n = 2 ^ n := fun _ => rfl
        obtain ⟨size, rfl⟩ := Nat.dvd_of_mod_eq_zero hm
        rw [Nat.mul_div_cancel_left _ (by rw [hpow]; positivity), hpow, hpow]
        push_cast
        rcases le_total 0 q with hq | hq
        · obtain ⟨n, rfl⟩ := Int.eq_ofNat_of_zero_le hq
          simp
        · obtain ⟨n, rfl⟩ : ∃ n : Nat, q = -(n : Int) := ⟨(-q).toNat, by omega⟩
          simp only [neg_neg, Int.toNat_natCast, Int.toNat_neg_natCast, pow_zero, zpow_neg,
            zpow_natCast]
          field_simp
      simp only [mul_assoc, hsize]
      generalize m / pow2 (-q).toNat * pow2 q.toNat = size
      cases negative <;> simp
    · simp at h

end Double

namespace Number

def toRat? : Number → Option ℚ
  | .int n => some n
  | .float x => Double.toRat? x

def Equals (a b : Number) : Prop :=
  a = b ∨ ∃ r, a.toRat? = some r ∧ b.toRat? = some r

theorem simplest_equals (n : Number) : n.simplest.Equals n := by
  cases n with
  | int i => exact .inl rfl
  | float x =>
    cases hx : Double.toInt? x with
    | none =>
      have hsimplest : (float x).simplest = .float x := by simp [simplest, hx]
      exact .inl hsimplest
    | some i =>
      have hsimplest : (float x).simplest = .int i := by simp [simplest, hx]
      rw [hsimplest]
      exact .inr ⟨i, rfl, Double.toRat?_of_toInt? hx⟩

end Number

namespace Division

namespace Work

/-! ## The digits brought down -/

variable {d v : Decimal}

/-- **The digits brought down suffice**: nothing remains, or there is a digit after those that the
answer keeps. -/
theorem remainder_eq_zero_or_lt (hv : 0 < v.toRat) :
    (of d v).remainder = 0 ∨ places < (of d v).fraction.length := by
  let w := of d v
  have henough : Enough w.moved w.whole w.fraction := enough_broughtDown w.moved w.whole
  refine henough.imp (fun hdvd => ?_) id
  have hwhole : w.whole ∣ Digits.value w.digits := Int.natCast_dvd_natCast.1 hdvd
  have hrun := run (d := d) hv
  have hvalue := hrun.value
  rw [Nat.zero_mul, Nat.zero_add] at hvalue
  have hremainder : w.whole ∣ w.remainder :=
    (Nat.dvd_add_right (Nat.dvd_mul_left ..)).1 (hvalue ▸ hwhole)
  exact Nat.eq_zero_of_dvd_of_lt hremainder hrun.remainder_lt

/-- What the quotient on the page lacks of the quotient of the numbers is less than one in its last
place. -/
theorem quotient_eq (hd : 0 ≤ d.toRat) (hv : 0 < v.toRat) :
    ∃ t : ℚ, 0 ≤ t ∧ t < 1 ∧ ((of d v).remainder = 0 → t = 0) ∧
      d.toRat / v.toRat = (Digits.value (quotientDigits (of d v).lines) + t) /
        10 ^ (of d v).fraction.length := by
  have hexact := quotient_mul_add hd hv
  obtain ⟨hnonneg, hlt⟩ := leftOver_lt (d := d) hv
  rw [zpow_neg, zpow_natCast] at hexact hlt
  generalize (of d v).fraction.length = k at *
  have hpow : (0 : ℚ) < 10 ^ k := by positivity
  refine ⟨(of d v).leftOver.toRat * 10 ^ k / v.toRat, by positivity, ?_, ?_, ?_⟩
  · rw [div_lt_one hv]
    calc (of d v).leftOver.toRat * 10 ^ k
        < v.toRat * (10 ^ k)⁻¹ * 10 ^ k := mul_lt_mul_of_pos_right hlt hpow
      _ = v.toRat := by field_simp
  · intro hzero
    rw [toRat_leftOver, hzero]
    simp
  · rw [← hexact]
    field_simp

/-- **The quotient on the page rounds like the quotient of the numbers.** -/
theorem halfUp_quotient (hd : 0 ≤ d.toRat) (hv : 0 < v.toRat) :
    halfUp (Digits.value (quotientDigits (of d v).lines) *
        10 ^ (-((of d v).fraction.length : Int)) * 10 ^ places) =
      halfUp (d.toRat / v.toRat * 10 ^ places) := by
  obtain ⟨t, h0, h1, hzero, hquotient⟩ := quotient_eq hd hv
  rw [hquotient, zpow_neg, zpow_natCast, ← div_eq_mul_inv]
  rcases remainder_eq_zero_or_lt (d := d) hv with hrem | hplaces
  · rw [hzero hrem, add_zero]
  · obtain ⟨k, hk⟩ := Nat.exists_eq_add_of_lt hplaces
    have hscale : ∀ x : ℚ, x / 10 ^ (of d v).fraction.length * 10 ^ places = x / 10 ^ (k + 1) := by
      intro x
      rw [hk, add_assoc, pow_add]
      field_simp
    rw [hscale, hscale, halfUp_truncated _ (Nat.succ_pos k) h0 h1]

/-- A decimal with the value of the quotient on the page is the quotient of the numbers, cut off, and
rounds like it. -/
theorem cut_off (hd : 0 ≤ d.toRat) (hv : 0 < v.toRat) {W : Decimal} (hsign : W.negative = false)
    (hvalue : W.toRat = Digits.value (quotientDigits (of d v).lines) *
      10 ^ (-((of d v).fraction.length : Int))) :
    W.toRat ≤ d.toRat / v.toRat ∧
      d.toRat / v.toRat < W.toRat + 10 ^ (-((of d v).fraction.length : Int)) ∧
      W.atExponent (-places) = d.divideHalfUp v places := by
  obtain ⟨t, h0, h1, -, hquotient⟩ := quotient_eq hd hv
  have hpow : (0 : ℚ) < 10 ^ (of d v).fraction.length := by positivity
  have hcut : W.toRat = Digits.value (quotientDigits (of d v).lines) /
      10 ^ (of d v).fraction.length := by
    rw [div_eq_mul_inv, ← zpow_natCast, ← zpow_neg]
    exact hvalue
  refine ⟨?_, ?_, ?_⟩
  · rw [hquotient, hcut]
    exact div_le_div_of_nonneg_right (by linarith) hpow.le
  · rw [hquotient, hcut, zpow_neg, zpow_natCast, inv_eq_one_div, ← add_div]
    exact div_lt_div_of_pos_right (by linarith) hpow
  · have hhundredths : W.toRat / 10 ^ (-(places : Int)) =
        Digits.value (quotientDigits (of d v).lines) *
          10 ^ (-((of d v).fraction.length : Int)) * 10 ^ places := by
      rw [zpow_neg, div_inv_eq_mul, zpow_natCast, hvalue]
    rw [Decimal.atExponent_eq hsign, hhundredths, halfUp_quotient hd hv,
      Decimal.divideHalfUp_eq hd hv]

end Work

/-! ## The answer -/

/-- The answer of a division of `d` by `v` agrees with its working: the quotient read off the last
page is cut off from the quotient of the numbers, rounding it gives the rounded quotient, and that
is the result of every step. -/
structure RoundsWorking (d v : Decimal) (steps : List Step) : Prop where
  enough : (Work.of d v).remainder = 0 ∨ places < (Work.of d v).fraction.length
  working : ∃ (last : Step) (W : Decimal), steps.getLast? = some last ∧
    last.layout.numbers.head? = some (some W) ∧
    W.toRat ≤ d.toRat / v.toRat ∧
    d.toRat / v.toRat < W.toRat + 10 ^ (-((Work.of d v).fraction.length : Int)) ∧
    W.atExponent (-places) = d.divideHalfUp v places
  rounded : (d.divideHalfUp v places).toRat =
    halfUp (d.toRat / v.toRat * 10 ^ places) / 10 ^ places
  result : ∀ s ∈ steps, s.result = (Number.ofDecimal (d.divideHalfUp v places)).simplest ∧
    s.result.Equals (Number.ofDecimal (d.divideHalfUp v places))

theorem result_of_mem_ofDrafts {operation : Operation} {operands : Operands} {result : Number}
    {drafts : List Draft} {s : Step} (h : s ∈ Step.ofDrafts operation operands result drafts) :
    s.result = result := by
  simp only [Step.ofDrafts, List.mem_mapIdx] at h
  obtain ⟨i, _, rfl⟩ := h
  rfl

/-- **The rounded answer agrees with the written working.** -/
theorem answer_rounds_working {left right : Number} {d v : Decimal} (hl : left.Denotes d)
    (hr : right.Denotes v) (hd : 0 ≤ d.toRat) (hv : 0 < v.toRat) :
    ∃ p, Problem.ofTask (.written "÷") (.number left) (some (.number right)) = .ok p ∧
      RoundsWorking d v p.steps := by
  refine ⟨_, Problem.ofTask_binary rfl (by decide) hl hr hd hv.le fun _ => hv.ne', ?_⟩
  generalize hp : Problem.binary .division hl.term hr.term = p
  have hdrafts : p.drafts = (Work.of d v).drafts (Problem.plain p.result) := by
    rw [← hp]
    rfl
  have hresult : p.result = (Number.ofDecimal (d.divideHalfUp v places)).simplest := by
    rw [← hp]
    rfl
  have hrounded := Decimal.divideHalfUp_eq hd hv places
  refine ⟨Work.remainder_eq_zero_or_lt hv, ?_, ?_, ?_⟩
  · obtain ⟨front, final, hpages, -, -, hrows⟩ :=
      (Work.of d v).drafts_eq (Problem.plain p.result)
    have hshows := Step.ofDrafts_shows p.operation p.operands p.result p.drafts
    rw [hdrafts, hpages] at hshows
    obtain ⟨init, lastStep, hsteps, -, hlast⟩ := Step.exists_append hshows
    obtain ⟨last, hfinal, rfl⟩ := Step.exists_singleton hlast
    obtain ⟨n, hrow, hvalue⟩ := Work.numeral_quotientRow (d := d) hv
    refine ⟨last, n.toDecimal, ?_, ?_, Work.cut_off hd hv rfl hvalue⟩
    · rw [Problem.steps, hdrafts, hpages, hsteps, List.getLast?_concat]
    · rw [hfinal.layout, Layout.numbers_squared, Layout.numbers, hrows]
      simp [hrow]
  · rw [hrounded, Decimal.toRat_mk, zpow_neg, zpow_natCast, ← div_eq_mul_inv]
  · intro s hs
    have hs' := result_of_mem_ofDrafts hs
    rw [hs', hresult]
    exact ⟨rfl, Number.simplest_equals _⟩

/-- A quotient whose third place decides the rounding: one divided by six hundredths. -/
theorem answer_rounds_working_six_hundredths :
    (Number.int 1).Denotes ⟨false, 1, 0⟩ ∧ (Number.float 0.06).Denotes ⟨false, 6, -2⟩ ∧
      0 ≤ (⟨false, 1, 0⟩ : Decimal).toRat ∧ 0 < (⟨false, 6, -2⟩ : Decimal).toRat ∧
      ∃ p, Problem.ofTask (.written "÷") (.number (.int 1)) (some (.number (.float 0.06))) = .ok p ∧
        RoundsWorking ⟨false, 1, 0⟩ ⟨false, 6, -2⟩ p.steps := by
  have hl : (Number.int 1).Denotes ⟨false, 1, 0⟩ :=
    ⟨rfl, fun i h => by cases h; decide +kernel⟩
  have hr : (Number.float 0.06).Denotes ⟨false, 6, -2⟩ :=
    ⟨by decide +kernel, fun i h => by cases h⟩
  have hd : 0 ≤ (⟨false, 1, 0⟩ : Decimal).toRat := Decimal.toRat_mk_nonneg _ _
  have hv : 0 < (⟨false, 6, -2⟩ : Decimal).toRat := by
    rw [Decimal.toRat_mk]; norm_num
  exact ⟨hl, hr, hd, hv, answer_rounds_working hl hr hd hv⟩

end Division

end Longhand
