import Longhand.Division.Digits
import Longhand.Proofs.Rational
import Mathlib.Order.Bounds.Basic
/-!
# The digits brought down

A division brings down all digits that its dividend has after the point, then zeros. On the way it
keeps a remainder only, which is that of the whole number brought down so far
(`remainderThrough_fmod`). So it stops at the first zero with which nothing remains of that number,
unless the answer has a place more than it is rounded to before: `isLeast_broughtDown`.
-/

namespace Longhand.Division

/-! ## The remainder that is kept -/

section

variable (divisor n : Int)

/-- A digit brought down beside a remainder leaves what it leaves beside the number itself. -/
theorem fmod_mul_ten_add (digit : Int) :
    (n.fmod divisor * 10 + digit).fmod divisor = (n * 10 + digit).fmod divisor := by
  have hsplit : n.fmod divisor * 10 + digit =
      n * 10 + digit + divisor * (-n.fdiv divisor * 10) := by
    rw [Int.fmod_def]
    ring
  rw [hsplit, Int.add_mul_fmod_self_left]

/-- **The remainder is exact**: it is that of the number with the digits behind it. -/
theorem remainderThrough_fmod (ds : List Digit) :
    remainderThrough divisor (n.fmod divisor) ds =
      (n * pow10 ds.length + Digits.value ds).fmod divisor := by
  induction ds generalizing n with
  | nil => simp [remainderThrough, pow10_zero, Digits.value_nil]
  | cons d ds ih =>
    have hnumber : (n * 10 + d.val) * pow10 ds.length + Digits.value ds =
        n * pow10 (d :: ds).length + Digits.value (d :: ds) := by
      rw [List.length_cons, pow10_succ, Digits.value_cons]
      push_cast
      ring
    calc remainderThrough divisor (n.fmod divisor) (d :: ds)
        = remainderThrough divisor ((n.fmod divisor * 10 + d.val).fmod divisor) ds := rfl
      _ = remainderThrough divisor ((n * 10 + d.val).fmod divisor) ds := by
          rw [fmod_mul_ten_add]
      _ = (n * pow10 (d :: ds).length + Digits.value (d :: ds)).fmod divisor := by
          rw [ih, hnumber]

/-- **Zeros stop at the first place** where nothing remains or there is no more room. -/
theorem isLeast_zerosAfter (room : Nat) :
    IsLeast {k | divisor ∣ n * 10 ^ k ∨ room ≤ k} (zerosAfter divisor (n.fmod divisor) room) := by
  induction room generalizing n with
  | zero => exact ⟨.inr (Nat.zero_le _), fun k _ => Nat.zero_le k⟩
  | succ room ih =>
    by_cases hzero : n.fmod divisor = 0
    · rw [zerosAfter, if_pos hzero]
      refine ⟨.inl ?_, fun k _ => Nat.zero_le k⟩
      rw [pow_zero, mul_one]
      exact Int.dvd_of_fmod_eq_zero hzero
    · have hnext : (n.fmod divisor * 10).fmod divisor = (n * 10).fmod divisor := by
        simpa using fmod_mul_ten_add divisor n 0
      have hshift : ∀ k : Nat, n * 10 ^ (k + 1) = n * 10 * 10 ^ k := by
        intro k
        ring
      obtain ⟨hmem, hleast⟩ := ih (n * 10)
      rw [zerosAfter, if_neg hzero, hnext, Nat.add_comm 1]
      constructor
      · refine hmem.imp (fun hdvd => ?_) Nat.succ_le_succ
        rwa [hshift]
      · -- without a zero something remains and there is room, so one zero leads to the case before
        rintro (_ | k) hk
        · rcases hk with hdvd | hroom
          · rw [pow_zero, mul_one] at hdvd
            exact absurd (Int.fmod_eq_zero_of_dvd hdvd) hzero
          · exact absurd hroom (Nat.not_succ_le_zero _)
        · refine Nat.succ_le_succ (hleast (hk.imp (fun hdvd => ?_) Nat.le_of_succ_le_succ))
          rwa [← hshift]

end

/-! ## When digits are enough -/

/-- Digits after the point with which a division of `work` can end: nothing remains of the number
that they make with the digits before the point, or one of them comes after the places of the
answer. -/
def Enough (work : Numeral) (divisor : Int) (fraction : List Digit) : Prop :=
  divisor ∣ Digits.value (work.integer ++ fraction) ∨ places < fraction.length

theorem enough_append_zeros_iff (work : Numeral) (divisor : Int) (k : Nat) :
    Enough work divisor (work.fraction ++ Digits.zeros k) ↔
      divisor ∣ Digits.value work.scaled * 10 ^ k ∨ places + 1 - work.fraction.length ≤ k := by
  have hvalue : (Digits.value (work.integer ++ (work.fraction ++ Digits.zeros k)) : Int) =
      Digits.value work.scaled * 10 ^ k := by
    rw [← List.append_assoc, Digits.value_append_zeros]
    push_cast
    rfl
  have hlength : places < (work.fraction ++ Digits.zeros k).length ↔
      places + 1 - work.fraction.length ≤ k := by
    rw [List.length_append, Digits.length_zeros]
    omega
  rw [Enough, hvalue, hlength]

/-- **No zero too few and none too many** is brought down. -/
theorem isLeast_broughtDown (work : Numeral) (divisor : Int) :
    ∃ zeros, broughtDown work divisor = work.fraction ++ Digits.zeros zeros ∧
      IsLeast {k | Enough work divisor (work.fraction ++ Digits.zeros k)} zeros := by
  have hremainder : remainderThrough divisor ((Digits.value work.integer : Int).fmod divisor)
      work.fraction = (Digits.value work.scaled : Int).fmod divisor := by
    rw [remainderThrough_fmod, Numeral.scaled, Digits.value_append]
    push_cast
    rfl
  refine ⟨_, rfl, ?_⟩
  simp only [enough_append_zeros_iff, hremainder]
  exact isLeast_zerosAfter divisor (Digits.value work.scaled) _

theorem enough_broughtDown (work : Numeral) (divisor : Int) :
    Enough work divisor (broughtDown work divisor) := by
  obtain ⟨zeros, hzeros, hmem, -⟩ := isLeast_broughtDown work divisor
  rw [hzeros]
  exact hmem

theorem bringDown_of_readable {work : Numeral} (hreadable : Digits.Readable work.integer)
    {divisor : Int} (hdivisor : divisor ≠ 0) :
    bringDown work divisor = .ok (broughtDown work divisor) := by
  rw [bringDown, if_neg (not_not.2 hreadable), if_neg hdivisor]

end Longhand.Division
