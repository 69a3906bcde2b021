import Longhand.Digits
/-!
# The value of digit strings

What each operation on digit strings does to the number that a string spells. Main statements:
`value_ofNat` and `ofNat_value` — the digits of a number spell it, and the digits of the number that
a string spells are the string without its leading zeros.
-/

namespace Longhand

theorem pow10_zero : pow10 0 = 1 := rfl

theorem pow10_succ (n : Nat) : pow10 (n + 1) = 10 * pow10 n := by
  show Nat.pow 10 (n + 1) = 10 * Nat.pow 10 n
  rw [Nat.mul_comm]; rfl

theorem pow10_pos (n : Nat) : 0 < pow10 n := by
  induction n with
  | zero => decide
  | succ n ih => rw [pow10_succ]; omega

theorem pow10_add (m n : Nat) : pow10 (m + n) = pow10 m * pow10 n := by
  induction n with
  | zero => simp [pow10_zero]
  | succ n ih => rw [← Nat.add_assoc, pow10_succ, pow10_succ, ih, Nat.mul_left_comm]

namespace Digit

theorem val_ofNat (n : Nat) : (ofNat n).val = n % 10 := rfl

end Digit

namespace Digits

theorem foldl_value (n : Nat) (ds : List Digit) :
    ds.foldl (fun n d => 10 * n + d.val) n = n * pow10 ds.length + value ds := by
  induction ds generalizing n with
  | nil => simp [value, pow10_zero]
  | cons d ds ih =>
    simp only [value, List.foldl_cons, List.length_cons]
    rw [ih, ih, pow10_succ]
    simp only [Nat.add_mul, Nat.mul_zero, Nat.zero_add]
    rw [Nat.mul_comm 10 n, Nat.mul_assoc, Nat.add_assoc]

theorem value_nil : value [] = 0 := rfl

theorem value_append (as bs : List Digit) :
    value (as ++ bs) = value as * pow10 bs.length + value bs := by
  rw [value, List.foldl_append, foldl_value]; rfl

theorem value_singleton (d : Digit) : value [d] = d.val := by
  simp [value]

theorem value_cons (d : Digit) (ds : List Digit) :
    value (d :: ds) = d.val * pow10 ds.length + value ds := by
  rw [← List.singleton_append, value_append, value_singleton]

theorem value_concat (ds : List Digit) (d : Digit) :
    value (ds ++ [d]) = 10 * value ds + d.val := by
  rw [value_append, value_singleton, List.length_singleton, Nat.mul_comm]
  rfl

/-- A string of so many digits spells less than that power of ten. -/
theorem value_lt (ds : List Digit) : value ds < pow10 ds.length := by
  induction ds with
  | nil => decide
  | cons d ds ih =>
    rw [value_cons, List.length_cons, pow10_succ]
    have hd : d.val ≤ 9 := Nat.le_of_lt_succ d.isLt
    have := Nat.mul_le_mul_right (pow10 ds.length) hd
    omega

theorem value_zeros (n : Nat) : value (zeros n) = 0 := by
  induction n with
  | zero => rfl
  | succ n ih =>
    have h : zeros (n + 1) = (0 : Digit) :: zeros n := List.replicate_succ
    rw [h, value_cons, ih]
    simp

theorem length_zeros (n : Nat) : (zeros n).length = n :=
  List.length_replicate

theorem value_padStart (width : Nat) (ds : List Digit) : value (padStart width ds) = value ds := by
  rw [padStart, value_append, value_zeros, Nat.zero_mul, Nat.zero_add]

theorem length_padStart (width : Nat) (ds : List Digit) :
    (padStart width ds).length = max width ds.length := by
  rw [padStart, List.length_append, length_zeros]; omega

theorem value_ofNatBefore (written : List Digit) (n : Nat) :
    value (ofNatBefore written n) = n * pow10 written.length + value written := by
  fun_induction ofNatBefore written n with
  | case1 written n h => rw [value_cons, Digit.val_ofNat, Nat.mod_eq_of_lt h]
  | case2 written n h ih =>
    rw [ih, value_cons, Digit.val_ofNat, List.length_cons, pow10_succ, ← Nat.add_assoc,
      ← Nat.mul_assoc, ← Nat.add_mul, Nat.mul_comm (n / 10), Nat.div_add_mod]

/-- The digits of a number spell it. -/
theorem value_ofNat (n : Nat) : value (ofNat n) = n := by
  rw [ofNat, value_ofNatBefore]
  simp [value_nil, pow10_zero]

theorem length_ofNatPadded (width n : Nat) : (ofNatPadded width n).length = width := by
  induction width generalizing n with
  | zero => rfl
  | succ w ih => rw [ofNatPadded, List.length_append, ih]; rfl

theorem value_ofNatPadded (width n : Nat) : value (ofNatPadded width n) = n % pow10 width := by
  induction width generalizing n with
  | zero => simp [ofNatPadded, value_nil, pow10_zero, Nat.mod_one]
  | succ w ih =>
    rw [ofNatPadded, value_concat, ih, Digit.val_ofNat, pow10_succ, Nat.mod_mul, Nat.add_comm]

theorem ofNat_of_lt {n : Nat} (h : n < 10) : ofNat n = [Digit.ofNat n] := by
  rw [ofNat, ofNatBefore, if_pos h]

theorem ofNatBefore_of_le (written : List Digit) {n : Nat} (h : 10 ≤ n) :
    ofNatBefore written n = ofNatBefore (Digit.ofNat n :: written) (n / 10) := by
  rw [ofNatBefore, if_neg (by omega)]

theorem ofNatBefore_eq (written : List Digit) (n : Nat) :
    ofNatBefore written n = ofNat n ++ written := by
  induction n using Nat.strongRecOn generalizing written with
  | ind n ih =>
    by_cases h : n < 10
    · rw [ofNatBefore, if_pos h, ofNat_of_lt h]; rfl
    · have hn : n / 10 < n := Nat.div_lt_self (by omega) (by omega)
      rw [ofNat, ofNatBefore_of_le _ (by omega), ofNatBefore_of_le [] (by omega), ih _ hn,
        ih _ hn [_], List.append_assoc]
      rfl

theorem ofNat_of_le {n : Nat} (h : 10 ≤ n) : ofNat n = ofNat (n / 10) ++ [Digit.ofNat n] := by
  rw [ofNat, ofNatBefore_of_le [] h, ofNatBefore_eq]

/-- One more digit at the end of a string that spells a number other than zero. -/
theorem ofNat_concat {n : Nat} (h : 0 < n) (d : Digit) :
    ofNat (10 * n + d.val) = ofNat n ++ [d] := by
  have hd := d.isLt
  rw [ofNat_of_le (by omega)]
  congr
  · omega
  · exact Fin.ext (by rw [Digit.val_ofNat]; omega)

theorem value_pos_of_head {d : Digit} (ds : List Digit) (h : d.val ≠ 0) : 0 < value (d :: ds) := by
  rw [value_cons]
  have := Nat.mul_pos (Nat.pos_of_ne_zero h) (pow10_pos ds.length)
  omega

/-- A string without a leading zero is the digits of the number that it spells. -/
theorem ofNat_value_cons {d : Digit} (ds : List Digit) (h : d.val ≠ 0) :
    ofNat (value (d :: ds)) = d :: ds := by
  generalize hn : ds.length = n
  induction n generalizing ds with
  | zero =>
    rw [List.length_eq_zero_iff.1 hn, value_singleton, ofNat_of_lt d.isLt]
    exact congrArg (fun x => [x]) (Fin.ext (Nat.mod_eq_of_lt d.isLt))
  | succ n ih =>
    rcases List.eq_nil_or_concat ds with rfl | ⟨init, last, rfl⟩
    · simp at hn
    · rw [List.concat_eq_append, ← List.cons_append, value_concat,
        ofNat_concat (value_pos_of_head _ h), ih]
      simpa using hn

/-- The string that is left without its leading zeros. -/
theorem normalize_eq (ds : List Digit) :
    normalize ds = [0] ∧ value ds = 0 ∨
      ∃ d rest, normalize ds = d :: rest ∧ d.val ≠ 0 ∧ value ds = value (d :: rest) := by
  induction ds with
  | nil => exact .inl ⟨rfl, rfl⟩
  | cons d ds ih =>
    by_cases h : d = 0
    · have hn : normalize (d :: ds) = normalize ds := by simp [normalize, h]
      have hv : value (d :: ds) = value ds := by simp [value_cons, h]
      rw [hn, hv]; exact ih
    · refine .inr ⟨d, ds, by simp [normalize, h], ?_, rfl⟩
      intro h'
      exact h (Fin.ext h')

/-- There is no leading zero left, unless it is the only digit. -/
theorem normalize_eq_zero_or (ds : List Digit) :
    normalize ds = [0] ∨ ∃ d rest, normalize ds = d :: rest ∧ d ≠ 0 := by
  rcases normalize_eq ds with ⟨hzero, -⟩ | ⟨d, rest, heq, hd, -⟩
  · exact .inl hzero
  · exact .inr ⟨d, rest, heq, fun h => hd (congrArg Fin.val h)⟩

/-- Leading zeros do not count. -/
theorem value_normalize (ds : List Digit) : value (normalize ds) = value ds := by
  rcases normalize_eq ds with ⟨h, hv⟩ | ⟨d, rest, h, -, hv⟩
  · rw [h, hv]; rfl
  · rw [h, hv]

/-- The digits of the number that a string spells are the string without its leading zeros. -/
theorem ofNat_value (ds : List Digit) : ofNat (value ds) = normalize ds := by
  rcases normalize_eq ds with ⟨h, hv⟩ | ⟨d, rest, h, hd, hv⟩
  · rw [h, hv, ofNat_of_lt (by decide)]; rfl
  · rw [h, hv, ofNat_value_cons _ hd]

theorem normalize_ofNat (n : Nat) : normalize (ofNat n) = ofNat n := by
  rw [← ofNat_value, value_ofNat]

end Digits

end Longhand
