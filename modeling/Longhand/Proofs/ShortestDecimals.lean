import Longhand.Proofs.PackedDoubles
/-!
# The shortest decimal lies in its interval

A number is read as the double `m * 2 ^ q` if it is not farther away than half the gap to the next
double (`Reads`); these are the numbers of `interval m q` (`interval_contains_iff`). The search
finds a point of a grid whenever the grid has one there (`onGrid?_isSome`), and with seventeen
digits every grid has one, so the decimal that a double is written as is read as that double
(`shortest_reads`). Where a grid has only one point in the interval, this is the one
(`shortest_of_isolated`): so a double that is a whole number below `2 ^ 53` is written as itself.
-/

namespace Longhand.Double

open Decimal (ten_zpow_pos ten_zpow_add)
open Float.Model.UnpackedFloat (Sign)

/-! ## The numbers that are read as a double -/

/-- The distance to the lower end of the interval, in units of the last digit. -/
def gapBelow (m : Nat) (q : Int) : ℚ :=
  if m = 2 ^ 52 ∧ minExponent < q then 1 / 4 else 1 / 2

/-- `v` is read as the double `m * 2 ^ q`. -/
structure Reads (m : Nat) (q : Int) (v : ℚ) : Prop where
  low : m - gapBelow m q ≤ v / 2 ^ q
  high : v / 2 ^ q ≤ m + 1 / 2
  even : v / 2 ^ q = m - gapBelow m q ∨ v / 2 ^ q = m + 1 / 2 → m % 2 = 0

theorem gapBelow_pos (m : Nat) (q : Int) : 0 < gapBelow m q := by
  unfold gapBelow
  split <;> norm_num

theorem gapBelow_le (m : Nat) (q : Int) : gapBelow m q ≤ 1 / 2 := by
  unfold gapBelow
  split <;> norm_num

/-- A double is read as itself. -/
theorem reads_self (m : Nat) (q : Int) : Reads m q (m * 2 ^ q) := by
  have hgap := gapBelow_pos m q
  refine ⟨?_, ?_, ?_⟩ <;> rw [mul_div_cancel_right₀ _ (two_zpow_pos q).ne']
  · linarith
  · linarith
  · rintro (h | h) <;> linarith

/-- What lies between two numbers that are read as a double is read as that double. -/
theorem Reads.between {m : Nat} {q : Int} {a b v : ℚ} (ha : Reads m q a) (hb : Reads m q b)
    (hav : a ≤ v) (hvb : v ≤ b) : Reads m q v := by
  have hpow := two_zpow_pos q
  have hlow : a / 2 ^ q ≤ v / 2 ^ q := (div_le_div_iff_of_pos_right hpow).2 hav
  have hhigh : v / 2 ^ q ≤ b / 2 ^ q := (div_le_div_iff_of_pos_right hpow).2 hvb
  refine ⟨ha.low.trans hlow, hhigh.trans hb.high, ?_⟩
  rintro (h | h)
  · exact ha.even (.inl (le_antisymm (hlow.trans h.le) ha.low))
  · exact hb.even (.inr (le_antisymm hb.high (h.ge.trans hhigh)))

section

variable {m : Nat} {q : Int} {v : ℚ}

/-- A number that is read as a positive double is positive. -/
theorem Reads.pos (hm : 0 < m) (h : Reads m q v) : 0 < v := by
  have hcast : (1 : ℚ) ≤ m := by exact_mod_cast hm
  have hquotient : 0 < v / 2 ^ q := by linarith [h.low, gapBelow_le m q]
  exact (div_pos_iff_of_pos_right (two_zpow_pos q)).1 hquotient

/-- **A number that is read as a double is rounded to it.** -/
theorem Reads.carried_eq {n : Nat} {t : Int} (h : Reads m q v) (hc : Canonical m q) (hm : 0 < m)
    (hr : Rounds v n t) (s : Sign) : carried s n t = .finite s m q hm := by
  obtain ⟨hlt, hleast, -, hleading⟩ := hc
  have hpow := two_zpow_pos q
  have hlow := h.low
  have hhigh := h.high
  have hgap := gapBelow_le m q
  have hcast : (m : ℚ) + 1 ≤ 2 ^ 53 := by exact_mod_cast hlt
  have htop : v < 2 ^ (53 + q) := by
    rw [two_zpow_add, ← div_lt_iff₀ hpow]
    norm_num at hcast ⊢
    linarith
  by_cases hunit : q = minExponent ∨ 2 ^ (52 + q) ≤ v
  · -- the number is rounded in units of the last digit of `m`
    have hrounds : Rounds v m q := by
      refine ⟨⟨hleast, htop, hunit⟩, by linarith, hhigh, ?_⟩
      rintro (heq | heq)
      · exact h.even (.inl (by linarith))
      · exact h.even (.inr heq)
    obtain ⟨rfl, rfl⟩ := hr.unique hrounds
    rw [carried, dif_neg hm.ne', if_pos hlt]
  · -- just below a power of two it is rounded in smaller units, and up to that power
    obtain ⟨hq, hbelow⟩ := not_or.1 hunit
    rw [two_zpow_add, not_le, ← div_lt_iff₀ hpow] at hbelow
    obtain rfl : m = 2 ^ 52 := by
      have hle : m < 2 ^ 52 + 1 := by
        have hltCast : (m : ℚ) < (2 ^ 52 + 1 : Nat) := by
          push_cast
          norm_num at hbelow
          linarith
        exact_mod_cast hltCast
      omega
    have hmin : minExponent < q := lt_of_le_of_ne hleast (Ne.symm hq)
    have hquarter : gapBelow (2 ^ 52) q = 1 / 4 := if_pos ⟨rfl, hmin⟩
    have hhalf : (2 : ℚ) ^ q = 2 ^ (q - 1) * 2 := by
      rw [← zpow_add_one₀ (by norm_num : (2 : ℚ) ≠ 0), sub_add_cancel]
    have hdouble : v / 2 ^ (q - 1) = v / 2 ^ q * 2 := by
      rw [hhalf, ← div_div, div_mul_cancel₀ _ (by norm_num : (2 : ℚ) ≠ 0)]
    rw [hquarter] at hlow
    push_cast at hlow
    have hrounds : Rounds v (2 ^ 53) (q - 1) := by
      refine ⟨⟨by omega, ?_, .inr ?_⟩, ?_, ?_, fun _ => by norm_num⟩
      · rw [two_zpow_add, ← div_lt_iff₀ (two_zpow_pos _), hdouble]
        norm_num at hbelow ⊢
        linarith
      · rw [two_zpow_add, ← le_div_iff₀ (two_zpow_pos _), hdouble]
        norm_num at hlow ⊢
        linarith
      · rw [hdouble]
        push_cast
        linarith
      · rw [hdouble]
        push_cast
        norm_num at hbelow ⊢
        linarith
    obtain ⟨rfl, rfl⟩ := hr.unique hrounds
    rw [carried, dif_neg (by norm_num), if_neg (by norm_num)]
    congr 1
    omega

/-- **A number is read as the double that it is rounded to.** -/
theorem Rounds.reads {n : Nat} {t : Int} {s : Sign} {hm : 0 < m} (h : Rounds v n t)
    (hcarried : carried s n t = .finite s m q hm) : Reads m q v := by
  have hlow := h.nearest.low
  have hhigh := h.nearest.high
  unfold carried at hcarried
  split at hcarried
  · cases hcarried
  · split at hcarried
    · obtain ⟨-, hn, ht⟩ := Float.Model.UnpackedFloat.finite.inj hcarried
      subst m q
      by_cases hpower : n = 2 ^ 52 ∧ minExponent < t
      · have hquarter : gapBelow n t = 1 / 4 := if_pos hpower
        have hleading : (2 : ℚ) ^ (52 + t) ≤ v :=
          h.unit.leading.resolve_left (Int.ne_of_gt hpower.2)
        rw [two_zpow_add, ← le_div_iff₀ (two_zpow_pos t)] at hleading
        have hcast : (n : ℚ) = 2 ^ (52 : Int) := by
          rw [hpower.1]
          norm_num
        refine ⟨by linarith, hhigh, ?_⟩
        rintro (heq | heq)
        · linarith
        · exact h.nearest.even (.inr heq)
      · have hhalf : gapBelow n t = 1 / 2 := if_neg hpower
        refine ⟨by linarith, hhigh, ?_⟩
        rw [hhalf]
        exact h.nearest.even
    · rename_i hge
      obtain ⟨-, rfl, rfl⟩ := Float.Model.UnpackedFloat.finite.inj hcarried
      obtain rfl : n = 2 ^ 53 := by
        have hle := h.le
        omega
      have hquarter : gapBelow (2 ^ 52) (t + 1) = 1 / 4 :=
        if_pos ⟨rfl, Int.lt_add_one_iff.2 h.unit.least⟩
      have hdouble : v / 2 ^ (t + 1) = v / 2 ^ t / 2 := by
        rw [zpow_add_one₀ (by norm_num : (2 : ℚ) ≠ 0), div_div]
      refine ⟨?_, ?_, fun _ => by norm_num⟩
      · rw [hquarter, hdouble]
        push_cast at hlow ⊢
        linarith
      · rw [hdouble]
        push_cast at hhigh ⊢
        linarith

end

/-! ## Intervals and grids -/

structure Interval.Contains (i : Interval) (v : ℚ) : Prop where
  low : i.low / i.den < v ∨ i.closed = true ∧ i.low / i.den = v
  high : v < i.high / i.den ∨ i.closed = true ∧ v = i.high / i.den

theorem interval_den_pos (m : Nat) (q : Int) : 0 < (interval m q).den :=
  Nat.pow_pos (by norm_num)

/-- The fractions of the interval in units of the last digit. -/
theorem interval_div_den (m : Nat) (q : Int) (n : Nat) :
    ((n * pow2 (q - 2).toNat : Nat) : ℚ) / (interval m q).den = n / 4 * 2 ^ q := by
  have hden : ((interval m q).den : ℚ) = 2 ^ (2 - q).toNat := by
    change ((2 ^ (2 - q).toNat : Nat) : ℚ) = _
    push_cast
    rfl
  have hscale : ((pow2 (q - 2).toNat : Nat) : ℚ) = 2 ^ (q - 2).toNat := by
    change ((2 ^ (q - 2).toNat : Nat) : ℚ) = _
    push_cast
    rfl
  have hpow : (2 : ℚ) ^ q = 4 * 2 ^ (q - 2).toNat / 2 ^ (2 - q).toNat := by
    rw [eq_div_iff (by positivity), ← zpow_natCast, ← zpow_natCast, ← two_zpow_add,
      show (4 : ℚ) = 2 ^ (2 : Int) by norm_num, ← two_zpow_add]
    congr 1
    omega
  rw [hden, Nat.cast_mul, hscale, hpow]
  ring

theorem interval_low (q : Int) {m : Nat} (hm : 0 < m) :
    ((interval m q).low : ℚ) / (interval m q).den = (m - gapBelow m q) * 2 ^ q := by
  refine (interval_div_den m q _).trans (congrArg (· * (2 : ℚ) ^ q) ?_)
  have hpow : pow2 52 = 2 ^ 52 := rfl
  unfold gapBelow
  rw [hpow]
  split
  · rw [Nat.cast_sub (by omega)]
    push_cast
    ring
  · rw [Nat.cast_sub (by omega)]
    push_cast
    ring

theorem interval_value (m : Nat) (q : Int) :
    ((interval m q).value : ℚ) / (interval m q).den = m * 2 ^ q := by
  refine (interval_div_den m q _).trans (congrArg (· * (2 : ℚ) ^ q) ?_)
  push_cast
  ring

theorem interval_high (m : Nat) (q : Int) :
    ((interval m q).high : ℚ) / (interval m q).den = (m + 1 / 2) * 2 ^ q := by
  refine (interval_div_den m q _).trans (congrArg (· * (2 : ℚ) ^ q) ?_)
  push_cast
  ring

/-- **The interval holds the numbers that are read as the double.** -/
theorem interval_contains_iff {m : Nat} (q : Int) (v : ℚ) (hm : 0 < m) :
    (interval m q).Contains v ↔ Reads m q v := by
  have hpow := two_zpow_pos q
  have hclosed : (interval m q).closed = true ↔ m % 2 = 0 := decide_eq_true_iff
  have hlow : (m - gapBelow m q) * 2 ^ q < v ↔ m - gapBelow m q < v / 2 ^ q :=
    (lt_div_iff₀ hpow).symm
  have hhigh : v < (m + 1 / 2) * 2 ^ q ↔ v / 2 ^ q < m + 1 / 2 := (div_lt_iff₀ hpow).symm
  have hlowEq : (m - gapBelow m q) * 2 ^ q = v ↔ v / 2 ^ q = m - gapBelow m q := by
    rw [div_eq_iff hpow.ne', eq_comm]
  have hhighEq : v = (m + 1 / 2) * 2 ^ q ↔ v / 2 ^ q = m + 1 / 2 := (div_eq_iff hpow.ne').symm
  constructor
  · rintro ⟨hl, hh⟩
    rw [interval_low q hm, hclosed, hlow, hlowEq] at hl
    rw [interval_high, hclosed, hhigh, hhighEq] at hh
    refine ⟨?_, ?_, ?_⟩
    · rcases hl with hl | hl
      · exact hl.le
      · exact hl.2.ge
    · rcases hh with hh | hh
      · exact hh.le
      · exact hh.2.le
    · rintro (heq | heq)
      · exact (hl.resolve_left (not_lt.2 heq.le)).1
      · exact (hh.resolve_left (not_lt.2 heq.ge)).1
  · rintro ⟨hl, hh, heven⟩
    constructor
    · rw [interval_low q hm, hclosed, hlow, hlowEq]
      rcases hl.lt_or_eq with hlt | heq
      · exact .inl hlt
      · exact .inr ⟨heven (.inl heq.symm), heq.symm⟩
    · rw [interval_high, hclosed, hhigh, hhighEq]
      rcases hh.lt_or_eq with hlt | heq
      · exact .inl hlt
      · exact .inr ⟨heven (.inr heq), heq⟩

/-- An interval around its value. -/
structure Interval.Proper (i : Interval) : Prop where
  den_pos : 0 < i.den
  low_lt : i.low < i.value
  lt_high : i.value < i.high

/-- What lies between two numbers of an interval lies in it. -/
theorem Interval.Contains.between {i : Interval} {a b v : ℚ} (ha : i.Contains a) (hb : i.Contains b)
    (hav : a ≤ v) (hvb : v ≤ b) : i.Contains v := by
  constructor
  · rcases ha.low with hlt | ⟨hclosed, heq⟩
    · exact .inl (hlt.trans_le hav)
    · rw [heq]
      exact hav.lt_or_eq.imp id fun h => ⟨hclosed, h⟩
  · rcases hb.high with hlt | ⟨hclosed, heq⟩
    · exact .inl (hvb.trans_lt hlt)
    · rw [← heq]
      exact hvb.lt_or_eq.imp id fun h => ⟨hclosed, h⟩

theorem Interval.Proper.contains_value {i : Interval} (h : i.Proper) :
    i.Contains (i.value / i.den) := by
  have hden : (0 : ℚ) < i.den := by exact_mod_cast h.den_pos
  constructor
  · exact .inl ((div_lt_div_iff_of_pos_right hden).2 (by exact_mod_cast h.low_lt))
  · exact .inl ((div_lt_div_iff_of_pos_right hden).2 (by exact_mod_cast h.lt_high))

theorem proper_interval (q : Int) {m : Nat} (hm : 0 < m) : (interval m q).Proper := by
  have hscale : 0 < pow2 (q - 2).toNat := Nat.pow_pos (by norm_num)
  refine ⟨interval_den_pos m q, ?_, ?_⟩
  · change (4 * m - _) * _ < 4 * m * _
    refine Nat.mul_lt_mul_of_pos_right ?_ hscale
    split <;> omega
  · change 4 * m * _ < (4 * m + 2) * _
    exact Nat.mul_lt_mul_of_pos_right (by omega) hscale

section

variable {i : Interval} (hi : i.Proper) (k : Int)

include hi

/-- Fractions of an interval and points of a grid are compared in a common unit. -/
theorem exists_grid_unit : ∃ unit : ℚ, 0 < unit ∧
    (∀ a : Nat, ((a * pow10 (-k).toNat : Nat) : ℚ) = a / i.den * unit) ∧
    ∀ c : Nat, ((c * (i.den * pow10 k.toNat) : Nat) : ℚ) = c * 10 ^ k * unit := by
  have hden : (0 : ℚ) < i.den := by exact_mod_cast hi.den_pos
  have hscale : (0 : ℚ) < pow10 (-k).toNat := by exact_mod_cast pow10_pos _
  refine ⟨i.den * pow10 (-k).toNat, mul_pos hden hscale, fun a => ?_, fun c => ?_⟩
  · rw [Nat.cast_mul, ← mul_assoc, div_mul_cancel₀ _ hden.ne']
  · have hpow : (pow10 k.toNat : ℚ) = 10 ^ k * pow10 (-k).toNat := by
      rw [pow10_eq, pow10_eq, ← zpow_natCast, ← zpow_natCast, ← ten_zpow_add]
      congr 1
      omega
    rw [Nat.cast_mul, Nat.cast_mul, hpow]
    ring

/-- The neighbour below the value on a grid. -/
theorem le_below_iff (c : Nat) :
    c ≤ i.value * pow10 (-k).toNat / (i.den * pow10 k.toNat) ↔
      (c : ℚ) * 10 ^ k ≤ i.value / i.den := by
  obtain ⟨unit, hunit, hfraction, hpoint⟩ := exists_grid_unit hi k
  rw [Nat.le_div_iff_mul_le (Nat.mul_pos hi.den_pos (pow10_pos _)), ← Nat.cast_le (α := ℚ),
    hfraction, hpoint, mul_le_mul_iff_left₀ hunit]

theorem within_low_iff {c : Nat} (hc : (c : ℚ) * 10 ^ k ≤ i.value / i.den) :
    (decide (i.low * pow10 (-k).toNat < c * (i.den * pow10 k.toNat)) ||
      (i.closed && decide (i.low * pow10 (-k).toNat = c * (i.den * pow10 k.toNat)))) = true ↔
    i.Contains (c * 10 ^ k) := by
  obtain ⟨unit, hunit, hfraction, hpoint⟩ := exists_grid_unit hi k
  have hden : (0 : ℚ) < i.den := by exact_mod_cast hi.den_pos
  have hhigh : (i.value : ℚ) / i.den < i.high / i.den :=
    (div_lt_div_iff_of_pos_right hden).2 (by exact_mod_cast hi.lt_high)
  rw [Bool.or_eq_true, Bool.and_eq_true, decide_eq_true_eq, decide_eq_true_eq,
    ← Nat.cast_lt (α := ℚ), ← Nat.cast_inj (R := ℚ), hfraction, hpoint, mul_lt_mul_iff_left₀ hunit,
    mul_left_inj' hunit.ne']
  exact ⟨fun h => ⟨h, .inl (hc.trans_lt hhigh)⟩, fun h => h.low⟩

theorem within_high_iff {c : Nat} (hc : (i.value : ℚ) / i.den ≤ c * 10 ^ k) :
    (decide (c * (i.den * pow10 k.toNat) < i.high * pow10 (-k).toNat) ||
      (i.closed && decide (c * (i.den * pow10 k.toNat) = i.high * pow10 (-k).toNat))) = true ↔
    i.Contains (c * 10 ^ k) := by
  obtain ⟨unit, hunit, hfraction, hpoint⟩ := exists_grid_unit hi k
  have hden : (0 : ℚ) < i.den := by exact_mod_cast hi.den_pos
  have hlow : (i.low : ℚ) / i.den < i.value / i.den :=
    (div_lt_div_iff_of_pos_right hden).2 (by exact_mod_cast hi.low_lt)
  rw [Bool.or_eq_true, Bool.and_eq_true, decide_eq_true_eq, decide_eq_true_eq,
    ← Nat.cast_lt (α := ℚ), ← Nat.cast_inj (R := ℚ), hfraction, hpoint, mul_lt_mul_iff_left₀ hunit,
    mul_left_inj' hunit.ne']
  exact ⟨fun h => ⟨.inl (hlow.trans_le hc), h⟩, fun h => h.high⟩

/-- What is found on a grid lies in the interval. -/
theorem contains_of_onGrid? {c : Nat} (h : i.onGrid? k = some c) : i.Contains (c * 10 ^ k) := by
  have hfloor := le_below_iff hi k
  unfold Interval.onGrid? at h
  simp only at h
  generalize i.value * pow10 (-k).toNat / (i.den * pow10 k.toNat) = d at h hfloor
  have hbelow := within_low_iff hi k ((hfloor d).1 le_rfl)
  have habove := within_high_iff hi k (not_le.1 (mt (hfloor (d + 1)).2 (Nat.not_succ_le_self d))).le
  split at h
  · rename_i hboth
    rw [Bool.and_eq_true, hbelow, habove] at hboth
    obtain rfl := Option.some.inj h
    split
    · exact hboth.1
    · exact hboth.2
  · split at h
    · rename_i hin
      obtain rfl := Option.some.inj h
      exact hbelow.1 hin
    · split at h
      · rename_i hin
        obtain rfl := Option.some.inj h
        exact habove.1 hin
      · cases h

/-- **A grid with a point in the interval has a neighbour of the value there.** -/
theorem onGrid?_isSome {c : Nat} (h : i.Contains (c * 10 ^ k)) : (i.onGrid? k).isSome = true := by
  have hfloor := le_below_iff hi k
  have hpow := ten_zpow_pos k
  unfold Interval.onGrid?
  simp only
  generalize i.value * pow10 (-k).toNat / (i.den * pow10 k.toNat) = d at hfloor ⊢
  have hlow := (hfloor d).1 le_rfl
  have hhigh := (not_le.1 (mt (hfloor (d + 1)).2 (Nat.not_succ_le_self d))).le
  have hbelow := within_low_iff hi k hlow
  have habove := within_high_iff hi k hhigh
  rcases le_or_gt c d with hle | hgt
  · have hpoint : (c : ℚ) * 10 ^ k ≤ d * 10 ^ k :=
      mul_le_mul_of_nonneg_right (by exact_mod_cast hle) hpow.le
    have hin := hbelow.2 (h.between (hi.contains_value) hpoint hlow)
    split <;> rfl
  · have hpoint : ((d + 1 : Nat) : ℚ) * 10 ^ k ≤ c * 10 ^ k :=
      mul_le_mul_of_nonneg_right (by exact_mod_cast hgt) hpow.le
    have hin := habove.2 ((hi.contains_value).between h hhigh hpoint)
    split
    · rfl
    · split <;> rfl

/-- A grid that is finer than the interval is wide has a point there. -/
theorem onGrid?_isSome_of_lt (h : (10 : ℚ) ^ k < i.high / i.den - i.low / i.den) :
    (i.onGrid? k).isSome = true := by
  have hfloor := le_below_iff hi k
  let d := i.value * pow10 (-k).toNat / (i.den * pow10 k.toNat)
  have hden : (0 : ℚ) < i.den := by exact_mod_cast hi.den_pos
  have hlowLt : (i.low : ℚ) / i.den < i.value / i.den :=
    (div_lt_div_iff_of_pos_right hden).2 (by exact_mod_cast hi.low_lt)
  have hhighLt : (i.value : ℚ) / i.den < i.high / i.den :=
    (div_lt_div_iff_of_pos_right hden).2 (by exact_mod_cast hi.lt_high)
  have hlow : (d : ℚ) * 10 ^ k ≤ i.value / i.den := (hfloor d).1 le_rfl
  have hhigh : (i.value : ℚ) / i.den < (d + 1 : Nat) * 10 ^ k :=
    not_le.1 (mt (hfloor (d + 1)).2 (Nat.not_succ_le_self d))
  rcases lt_or_ge ((i.low : ℚ) / i.den) (d * 10 ^ k) with hin | hout
  · exact onGrid?_isSome hi k ⟨.inl hin, .inl (hlow.trans_lt hhighLt)⟩
  · have hstep : ((d + 1 : Nat) : ℚ) * 10 ^ k = d * 10 ^ k + 10 ^ k := by
      push_cast
      ring
    exact onGrid?_isSome hi k ⟨.inl (hlowLt.trans hhigh), .inl (by rw [hstep]; linarith)⟩

end

/-! ## The search -/

/-- The first digit of a fraction stands at the leading place. -/
theorem leadingPlace_le {num den : Nat} (hnum : 0 < num) (hden : 0 < den) :
    (10 : ℚ) ^ leadingPlace num den ≤ num / den := by
  let guess : Int := (Digits.ofNat num).length - (Digits.ofNat den).length
  have hdenPos : (0 : ℚ) < den := by exact_mod_cast hden
  rw [le_div_iff₀ hdenPos]
  unfold leadingPlace
  change (10 : ℚ) ^ (if den * pow10 guess.toNat ≤ num * pow10 (-guess).toNat
    then guess else guess - 1) * den ≤ num
  split
  · rename_i hle
    have hcast : (den : ℚ) * pow10 guess.toNat ≤ num * pow10 (-guess).toNat := by
      exact_mod_cast hle
    have hpow : (0 : ℚ) < 10 ^ (-guess).toNat := by positivity
    have hguess : (10 : ℚ) ^ guess = 10 ^ guess.toNat / 10 ^ (-guess).toNat := by
      rw [eq_div_iff hpow.ne', ← zpow_natCast, ← zpow_natCast, ← ten_zpow_add]
      congr 1
      omega
    rw [pow10_eq, pow10_eq] at hcast
    rw [hguess, div_mul_eq_mul_div, div_le_iff₀ hpow, mul_comm ((10 : ℚ) ^ _)]
    exact hcast
  · have hlow : (10 : ℚ) ^ ((Digits.ofNat num).length - 1) ≤ num := by
      rw [← pow10_eq]
      exact_mod_cast Digits.pow10_length_le hnum.ne'
    have hhigh : (den : ℚ) ≤ 10 ^ (Digits.ofNat den).length := by
      rw [← pow10_eq]
      exact_mod_cast (Digits.lt_pow10_length den).le
    have hne : 0 < (Digits.ofNat num).length := List.length_pos_of_ne_nil (Digits.ofNat_ne_nil num)
    calc (10 : ℚ) ^ (guess - 1) * den
        ≤ 10 ^ (guess - 1) * 10 ^ (Digits.ofNat den).length :=
          mul_le_mul_of_nonneg_left hhigh (ten_zpow_pos _).le
      _ = 10 ^ ((Digits.ofNat num).length - 1) := by
          rw [← zpow_natCast, ← zpow_natCast, ← ten_zpow_add]
          congr 1
          simp only [guess]
          omega
      _ ≤ num := hlow

def firstPlace (m : Nat) (q : Int) : Int :=
  leadingPlace (interval m q).value (interval m q).den

theorem ten_zpow_firstPlace_le (q : Int) {m : Nat} (hm : 0 < m) :
    (10 : ℚ) ^ firstPlace m q ≤ m * 2 ^ q := by
  rw [← interval_value]
  have hproper := proper_interval q hm
  exact leadingPlace_le (Nat.zero_lt_of_lt hproper.low_lt) hproper.den_pos

theorem lt_ten_zpow_firstPlace (m : Nat) (q : Int) :
    (m : ℚ) * 2 ^ q < 10 ^ (firstPlace m q + 1) := by
  have hden : (0 : ℚ) < (interval m q).den := by exact_mod_cast interval_den_pos m q
  rw [← interval_value, div_lt_iff₀ hden, mul_comm]
  exact lt_leadingPlace _ (interval_den_pos m q)

/-- Zeros at the end make no difference to the value. -/
theorem stripZeros_value (d : Nat) (k : Int) :
    ((stripZeros d k).1 : ℚ) * 10 ^ (stripZeros d k).2 = d * 10 ^ k := by
  obtain ⟨n, hd, hk, -⟩ := stripZeros_spec d k
  have hcast : ((stripZeros d k).1 : ℚ) * 10 ^ n = d := by
    rw [← pow10_eq]
    exact_mod_cast hd
  rw [hk, ten_zpow_add, zpow_natCast, mul_comm ((10 : ℚ) ^ k), ← mul_assoc, hcast]

/-- The number that a positive double is written as. -/
def shortestValue (m : Nat) (q : Int) : ℚ :=
  (shortest m q).1 * 10 ^ (shortest m q).2

section

variable {m : Nat} (q : Int) (hm : 0 < m) (hlt : m < 2 ^ 53)

include hm hlt

/-- **Seventeen digits always suffice.** -/
theorem onGrid?_lastPlace : ((interval m q).onGrid? (firstPlace m q - 16)).isSome = true := by
  refine onGrid?_isSome_of_lt (proper_interval q hm) _ ?_
  have hpow := two_zpow_pos q
  have hcast : (m : ℚ) + 1 ≤ 2 ^ 53 := by exact_mod_cast hlt
  have hfirst : (10 : ℚ) ^ (firstPlace m q - 16) * 10 ^ 16 ≤ m * 2 ^ q := by
    rw [← zpow_natCast, ← ten_zpow_add]
    exact (le_of_eq (by congr 1; omega)).trans (ten_zpow_firstPlace_le q hm)
  have hwidth : (m : ℚ) < 10 ^ 16 * (1 / 2 + gapBelow m q) := by
    unfold gapBelow
    split
    · rename_i hpower
      rw [hpower.1]
      norm_num
    · norm_num at hcast ⊢
      linarith
  rw [interval_high, interval_low q hm]
  have hproduct : (m : ℚ) * 2 ^ q < 10 ^ 16 * (1 / 2 + gapBelow m q) * 2 ^ q :=
    mul_lt_mul_of_pos_right hwidth hpow
  have hlast : (10 : ℚ) ^ (firstPlace m q - 16) * 10 ^ 16 <
      (1 / 2 + gapBelow m q) * 2 ^ q * 10 ^ 16 := by linarith
  have hresult := lt_of_mul_lt_mul_right hlast (by positivity)
  linarith

/-- The search stops at the first grid with a point in the interval. -/
theorem shortest_spec : ∃ n d, n < maxDigits ∧
    (interval m q).onGrid? (firstPlace m q - n) = some d ∧
    shortest m q = stripZeros d (firstPlace m q - n) ∧
    ∀ n' < n, (interval m q).onGrid? (firstPlace m q - n') = none := by
  let search := fun n : Nat =>
    ((interval m q).onGrid? (firstPlace m q - n)).map (·, firstPlace m q - n)
  have hlast := onGrid?_lastPlace q hm hlt
  cases hfound : (List.range maxDigits).findSome? search with
  | none =>
    have hnone := List.findSome?_eq_none_iff.1 hfound 16 (List.mem_range.2 (by decide))
    rw [Option.isSome_iff_ne_none] at hlast
    exact absurd (Option.map_eq_none_iff.1 hnone) hlast
  | some pair =>
    obtain ⟨before, n, after, hsplit, hgrid, hbefore⟩ := List.findSome?_eq_some_iff.1 hfound
    obtain ⟨d, hd, rfl⟩ := Option.map_eq_some_iff.1 hgrid
    have hn : n < maxDigits := List.mem_range.1 (hsplit ▸ List.mem_append_right _ List.mem_cons_self)
    have hshortest : shortest m q = stripZeros d (firstPlace m q - n) := by
      unfold shortest
      simp only [List.findSome?_map]
      split
      · rename_i hsome
        obtain ⟨rfl, rfl⟩ := Prod.mk.inj (Option.some.inj (hsome.symm.trans hfound))
        rfl
      · rename_i hnone
        cases hnone.symm.trans hfound
    refine ⟨n, d, hn, hd, hshortest, fun n' hn' => ?_⟩
    have hmem : n' ∈ before ++ n :: after := hsplit ▸ List.mem_range.2 (hn'.trans hn)
    have hsorted : (before ++ n :: after).Pairwise (· < ·) := hsplit ▸ List.pairwise_lt_range
    rcases List.mem_append.1 hmem with hin | hin
    · exact Option.map_eq_none_iff.1 (hbefore n' hin)
    · rcases List.mem_cons.1 hin with rfl | hin
      · exact absurd hn' (lt_irrefl _)
      · have hlt' := List.rel_of_pairwise_cons (List.pairwise_append.1 hsorted).2.1 hin
        exact absurd hn' (lt_asymm hlt')

/-- **What a double is written as is read as that double.** -/
theorem shortest_reads : Reads m q (shortestValue m q) := by
  obtain ⟨n, d, -, hgrid, hshortest, -⟩ := shortest_spec q hm hlt
  have hin := contains_of_onGrid? (proper_interval q hm) _ hgrid
  rw [shortestValue, hshortest, stripZeros_value]
  exact (interval_contains_iff q _ hm).1 hin

/-- **A point that is alone on its grid in the interval is what the double is written as**, if its
grid has no more than seventeen digits. -/
theorem shortest_of_isolated {c : Nat} {k : Int} (hlast : firstPlace m q - 16 ≤ k)
    (hfirst : k ≤ firstPlace m q) (hin : Reads m q (c * 10 ^ k))
    (halone : ∀ c' : Nat, Reads m q (c' * 10 ^ k) → c' = c) : shortestValue m q = c * 10 ^ k := by
  have hproper := proper_interval q hm
  obtain ⟨n, d, -, hgrid, hshortest, hbefore⟩ := shortest_spec q hm hlt
  have hplace : k = firstPlace m q - (firstPlace m q - k).toNat := by omega
  have hsome := onGrid?_isSome hproper k ((interval_contains_iff q _ hm).2 hin)
  have hcoarse : k ≤ firstPlace m q - n := by
    by_contra hfine
    have hnone := hbefore (firstPlace m q - k).toNat (by omega)
    rw [← hplace] at hnone
    rw [hnone] at hsome
    cases hsome
  have hfound := (interval_contains_iff q _ hm).1 (contains_of_onGrid? hproper _ hgrid)
  -- the point found is on the finer grid too
  have hfine : (d : ℚ) * 10 ^ (firstPlace m q - n) =
      (d * 10 ^ (firstPlace m q - n - k).toNat : Nat) * 10 ^ k := by
    push_cast
    rw [mul_assoc, ← zpow_natCast, ← ten_zpow_add]
    congr 2
    omega
  rw [hfine] at hfound
  rw [shortestValue, hshortest, stripZeros_value, hfine, halone _ hfound]

/-- A whole double is written as a whole number. -/
theorem shortest_exponent_nonneg {N : Nat} (hN : (m : ℚ) * 2 ^ q = N) : 0 ≤ (shortest m q).2 := by
  obtain ⟨n, d, hn, -, hshortest, hbefore⟩ := shortest_spec q hm hlt
  have hplace : 0 ≤ firstPlace m q - n := by
    by_contra hfraction
    simp only [maxDigits] at hn
    have hpos : (0 : ℚ) < N := hN ▸ mul_pos (by exact_mod_cast hm) (two_zpow_pos q)
    have hone : (10 : ℚ) ^ (0 : Int) < 10 ^ (firstPlace m q + 1) := by
      have hle : (1 : ℚ) ≤ N := by exact_mod_cast hpos
      rw [zpow_zero]
      exact hle.trans_lt (hN ▸ lt_ten_zpow_firstPlace m q)
    have hfirst := (zpow_lt_zpow_iff_right₀ (by norm_num : (1 : ℚ) < 10)).1 hone
    -- the grid of whole numbers comes before, and the double itself is on it
    have hnone := hbefore (firstPlace m q).toNat (by omega)
    have hzero : firstPlace m q - (firstPlace m q).toNat = 0 := by omega
    rw [hzero] at hnone
    have hself : (interval m q).Contains (N * 10 ^ (0 : Int)) := by
      rw [zpow_zero, mul_one, ← hN]
      exact (interval_contains_iff q _ hm).2 (reads_self m q)
    have hsome := onGrid?_isSome (proper_interval q hm) 0 hself
    rw [hnone] at hsome
    cases hsome
  obtain ⟨zeros, -, hk, -⟩ := stripZeros_spec d (firstPlace m q - n)
  rw [hshortest, hk]
  omega

end

/-- **A number of at most fifteen digits is what its double is written as**, unless the double has
lost digits at the least exponent. -/
theorem shortestValue_of_digits {m : Nat} {q : Int} (hm : 2 ^ 52 ≤ m) (hlt : m < 2 ^ 53) {c : Nat}
    {k : Int} (hc : c < 10 ^ 15) (hreads : Reads m q (c * 10 ^ k)) :
    shortestValue m q = c * 10 ^ k := by
  have hpos : 0 < m := lt_of_lt_of_le (by norm_num) hm
  have hpow := two_zpow_pos q
  have hgap := gapBelow_le m q
  have hcast : (2 : ℚ) ^ 52 ≤ m := by exact_mod_cast hm
  have hfirst := ten_zpow_firstPlace_le q hpos
  have hnext := lt_ten_zpow_firstPlace m q
  generalize hf : firstPlace m q = f at hfirst hnext
  -- the grid of fifteen digits is wider than the interval
  have hwide : (2 : ℚ) ^ q < 10 ^ (f - 14) := by
    have hsplit : (10 : ℚ) ^ (f + 1) = 10 ^ (f - 14) * 10 ^ 15 := by
      rw [← zpow_natCast, ← ten_zpow_add]
      congr 1
      omega
    rw [hsplit] at hnext
    have hlow : (2 : ℚ) ^ 52 * 2 ^ q ≤ m * 2 ^ q := mul_le_mul_of_nonneg_right hcast hpow.le
    norm_num at hlow hnext
    linarith
  have hlow := (le_div_iff₀ hpow).1 hreads.low
  -- the number is on that grid, or else it would end before the place where the double starts
  have hplace : f - 14 ≤ k := by
    by_contra hfine
    have hdigits : (c : ℚ) * 10 ^ k ≤ 10 ^ f - 10 ^ (f - 15) := by
      have hcCast : (c : ℚ) ≤ 10 ^ 15 - 1 := by
        have h : (c : ℚ) + 1 ≤ 10 ^ 15 := by exact_mod_cast hc
        linarith
      have hunit : (10 : ℚ) ^ k ≤ 10 ^ (f - 15) := zpow_le_zpow_right₀ (by norm_num) (by omega)
      have hsplit : (10 : ℚ) ^ f = 10 ^ 15 * 10 ^ (f - 15) := by
        rw [← zpow_natCast, ← ten_zpow_add]
        congr 1
        omega
      calc (c : ℚ) * 10 ^ k ≤ (10 ^ 15 - 1) * 10 ^ (f - 15) :=
            mul_le_mul hcCast hunit (ten_zpow_pos k).le (by norm_num)
        _ = 10 ^ f - 10 ^ (f - 15) := by rw [hsplit]; ring
    have hunit : (10 : ℚ) ^ f = 10 ^ (f - 15) * 10 ^ 15 := by
      rw [← zpow_natCast, ← ten_zpow_add]
      congr 1
      omega
    have hhalf : gapBelow m q * 2 ^ q ≤ 1 / 2 * 2 ^ q := mul_le_mul_of_nonneg_right hgap hpow.le
    have hsize : (2 : ℚ) ^ 52 * 2 ^ q ≤ m * 2 ^ q := mul_le_mul_of_nonneg_right hcast hpow.le
    rw [sub_mul] at hlow
    norm_num at hunit hsize
    linarith
  have hgrid : (c : ℚ) * 10 ^ k = (c * 10 ^ (k - (f - 14)).toNat : Nat) * 10 ^ (f - 14) := by
    push_cast
    rw [mul_assoc, ← zpow_natCast, ← ten_zpow_add]
    congr 2
    omega
  rw [hgrid] at hreads ⊢
  refine shortest_of_isolated q hpos hlt (by omega) (by omega) hreads fun c' hc' => ?_
  generalize c * 10 ^ (k - (f - 14)).toNat = a at hreads
  have hunit := ten_zpow_pos (f - 14)
  have hapart {a b : Nat} (ha : Reads m q (a * 10 ^ (f - 14))) (hb : Reads m q (b * 10 ^ (f - 14))) :
      a ≤ b := by
    by_contra hgt
    have hcast : (b : ℚ) + 1 ≤ a := by exact_mod_cast not_le.1 hgt
    have hstep : ((b : ℚ) + 1) * 10 ^ (f - 14) ≤ a * 10 ^ (f - 14) :=
      mul_le_mul_of_nonneg_right hcast hunit.le
    have hhigh := (div_le_iff₀ hpow).1 ha.high
    have hlow := (le_div_iff₀ hpow).1 hb.low
    have hhalf : gapBelow m q * 2 ^ q ≤ 1 / 2 * 2 ^ q := mul_le_mul_of_nonneg_right hgap hpow.le
    linarith
  exact le_antisymm (hapart hc' hreads) (hapart hreads hc')

/-- **A whole double below `2 ^ 53` is written as itself.** -/
theorem shortestValue_of_whole {m : Nat} {q : Int} (hm : 0 < m) (hc : Canonical m q) {N : Nat}
    (hN : (m : ℚ) * 2 ^ q = N) (hlt : N < 2 ^ 53) : shortestValue m q = N := by
  have hpow := two_zpow_pos q
  have hNpos : (1 : ℚ) ≤ N := by
    have hpos : (0 : ℚ) < N := hN ▸ mul_pos (by exact_mod_cast hm) hpow
    exact_mod_cast hpos
  have hNlt : (N : ℚ) < 2 ^ 53 := by exact_mod_cast hlt
  have hunit : (2 : ℚ) ^ q ≤ 1 := by
    rcases hc.leading with hleading | hleast
    · have hcast : (2 : ℚ) ^ (52 : Int) ≤ m := by
        rw [zpow_ofNat]
        exact_mod_cast hleading
      have hbelow : (2 : ℚ) ^ (52 + q) < 2 ^ (53 : Int) := by
        rw [two_zpow_add]
        exact (mul_le_mul_of_nonneg_right hcast hpow.le).trans_lt (hN ▸ hNlt)
      have hexp := (zpow_lt_zpow_iff_right₀ (by norm_num : (1 : ℚ) < 2)).1 hbelow
      exact zpow_le_one_of_nonpos₀ (by norm_num) (by omega)
    · rw [hleast]
      exact zpow_le_one_of_nonpos₀ (by norm_num) (by decide)
  have hself : Reads m q (N * 10 ^ (0 : Int)) := by
    rw [zpow_zero, mul_one, ← hN]
    exact reads_self m q
  have hlast : firstPlace m q - 16 ≤ 0 := by
    have hbelow : (10 : ℚ) ^ firstPlace m q < 10 ^ (16 : Int) :=
      (ten_zpow_firstPlace_le q hm).trans_lt (hN ▸ hNlt.trans (by norm_num))
    have hexp := (zpow_lt_zpow_iff_right₀ (by norm_num : (1 : ℚ) < 10)).1 hbelow
    omega
  have hfirst : 0 ≤ firstPlace m q := by
    have habove : (10 : ℚ) ^ (0 : Int) < 10 ^ (firstPlace m q + 1) := by
      rw [zpow_zero]
      exact hNpos.trans_lt (hN ▸ lt_ten_zpow_firstPlace m q)
    have hexp := (zpow_lt_zpow_iff_right₀ (by norm_num : (1 : ℚ) < 10)).1 habove
    omega
  have halone (c : Nat) (hc : Reads m q (c * 10 ^ (0 : Int))) : c = N := by
    rw [zpow_zero, mul_one] at hc
    -- the interval reaches no farther than a half on either side
    have hlow : (N : ℚ) - 1 / 2 ≤ c := by
      have h := (le_div_iff₀ hpow).1 hc.low
      have hgap : gapBelow m q * 2 ^ q ≤ 1 / 2 * 1 :=
        mul_le_mul (gapBelow_le m q) hunit hpow.le (by norm_num)
      rw [sub_mul, hN] at h
      linarith
    have hhigh : (c : ℚ) ≤ N + 1 / 2 := by
      have h := (div_le_iff₀ hpow).1 hc.high
      rw [add_mul, hN] at h
      linarith
    have hle : (c : ℚ) < N + 1 := by linarith
    have hge : (N : ℚ) < c + 1 := by linarith
    have hleNat : c < N + 1 := by exact_mod_cast hle
    have hgeNat : N < c + 1 := by exact_mod_cast hge
    omega
  rw [shortest_of_isolated q hm hc.lt hlast hfirst hself halone, zpow_zero, mul_one]

end Longhand.Double
