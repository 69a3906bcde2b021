import Longhand.Multiplication.Digits
import Longhand.Proofs.Reading
/-!
# Products and sums of digit strings

The two calculations of long multiplication lose nothing. A digit string times a factor is worked
from the right with a carry, and several strings are added column by column before the carries
pass through the column sums; what is left to carry is written in front. Either way the digits are
those of the number that comes out: `digits_times`, `sum_eq_ofNat`.
-/

namespace Longhand

/-! ## A digit string times a factor -/

namespace Product

variable {factor : Int} (hf : 0 ≤ factor)

theorem length_written (factor : Int) (index : Nat) (ds : List Digit) :
    (ofDigits factor index ds).written.length = ds.length := by
  induction ds generalizing index with
  | nil => rfl
  | cons d ds ih => simp [ofDigits, ih]

include hf

theorem carry_nonneg (index : Nat) (ds : List Digit) : 0 ≤ (ofDigits factor index ds).carry := by
  induction ds generalizing index with
  | nil => exact le_refl 0
  | cons d ds ih =>
    have hdigit : 0 ≤ (d.val : Int) * factor := mul_nonneg (Int.natCast_nonneg _) hf
    exact Int.ediv_nonneg (add_nonneg hdigit (ih (index + 1))) (by norm_num)

/-- **Nothing of a product is lost**: the digits written, with what is left to carry in front. -/
theorem value_ofDigits (index : Nat) (ds : List Digit) :
    (ofDigits factor index ds).carry * pow10 ds.length +
        Digits.value (ofDigits factor index ds).written =
      Digits.value ds * factor := by
  induction ds generalizing index with
  | nil => simp [ofDigits, Digits.value_nil]
  | cons d ds ih =>
    let p := ofDigits factor (index + 1) ds
    let total := (d.val : Int) * factor + p.carry
    have htotal : 0 ≤ total :=
      add_nonneg (mul_nonneg (Int.natCast_nonneg _) hf) (carry_nonneg hf (index + 1) ds)
    have hsplit : total.emod 10 + 10 * total.ediv 10 = total := Int.emod_add_mul_ediv total 10
    have hlt : total.emod 10 < 10 := Int.emod_lt_of_pos _ (by norm_num)
    have hge : 0 ≤ total.emod 10 := Int.emod_nonneg _ (by norm_num)
    have hdigit : ((Digit.ofNat (total.emod 10).toNat).val : Int) = total.emod 10 := by
      rw [Digit.val_ofNat]
      omega
    have hlen : p.written.length = ds.length := length_written factor (index + 1) ds
    have hrest : p.carry * pow10 ds.length + Digits.value p.written = Digits.value ds * factor :=
      ih (index + 1)
    have hstep : ofDigits factor index (d :: ds) =
        ⟨total.ediv 10, Digit.ofNat (total.emod 10).toNat :: p.written, _⟩ := rfl
    rw [hstep]
    simp only [Digits.value_cons, List.length_cons, pow10_succ, hlen]
    push_cast
    rw [hdigit]
    calc total.ediv 10 * (10 * (pow10 ds.length : Int)) +
          (total.emod 10 * pow10 ds.length + Digits.value p.written)
        = (total.emod 10 + 10 * total.ediv 10) * pow10 ds.length + Digits.value p.written := by
          ring
      _ = d.val * factor * pow10 ds.length +
          (p.carry * pow10 ds.length + Digits.value p.written) := by
          rw [hsplit]
          ring
      _ = (d.val * pow10 ds.length + Digits.value ds) * factor := by
          rw [hrest]
          ring

end Product

namespace Digits

/-- Digits behind the digits of a number, which are left out if the number is zero. -/
theorem value_ofNat_append (n : Nat) (ds : List Digit) :
    value ((if n = 0 then [] else ofNat n) ++ ds) = n * pow10 ds.length + value ds := by
  split
  · rename_i h
    simp [h]
  · rw [value_append, value_ofNat]

/-- The digits of a product are those of the number. -/
theorem digits_times (ds : List Digit) (factor : Nat) :
    (times ds factor).digits = ofNat (value ds * factor) := by
  have hf : (0 : Int) ≤ factor := Int.natCast_nonneg factor
  have hcarry := Product.carry_nonneg hf 0 ds
  have hvalue := Product.value_ofDigits hf 0 ds
  have hlen := Product.length_written factor 0 ds
  rw [times, Product.digits, ← ofNat_value]
  generalize Product.ofDigits factor 0 ds = p at *
  obtain ⟨carry, hc⟩ := Int.eq_ofNat_of_zero_le hcarry
  rw [hc] at hvalue ⊢
  have hzero : ((carry : Int) = 0) = (carry = 0) := by simp
  rw [Int.toNat_natCast, if_congr (iff_of_eq hzero) rfl rfl, value_ofNat_append, hlen]
  congr 1
  exact_mod_cast hvalue

/-! ## The sum of digit strings -/

/-- The number that column sums make, if each counts ten times as much as the next. -/
def weigh (sums : List Nat) : Nat :=
  sums.foldl (fun n s => 10 * n + s) 0

theorem foldl_weigh (n : Nat) (sums : List Nat) :
    sums.foldl (fun n s => 10 * n + s) n = n * pow10 sums.length + weigh sums := by
  induction sums generalizing n with
  | nil => simp [weigh, pow10_zero]
  | cons s sums ih =>
    simp only [weigh, List.foldl_cons, List.length_cons]
    rw [ih, ih, pow10_succ]
    ring

theorem weigh_cons (s : Nat) (sums : List Nat) :
    weigh (s :: sums) = s * pow10 sums.length + weigh sums := by
  rw [weigh, List.foldl_cons, Nat.mul_zero, Nat.zero_add, foldl_weigh]

theorem weigh_zeros (n : Nat) : weigh (List.replicate n 0) = 0 := by
  induction n with
  | zero => rfl
  | succ n ih => rw [List.replicate_succ, weigh_cons, ih, Nat.zero_mul]

/-- A digit string added to the column sums. -/
theorem weigh_add {sums : List Nat} {ds : List Digit} (h : sums.length = ds.length) :
    weigh (List.zipWith (fun s d => s + d.val) sums ds) = weigh sums + value ds := by
  induction sums generalizing ds with
  | nil =>
    obtain rfl := List.length_eq_zero_iff.1 h.symm
    rfl
  | cons s sums ih =>
    cases ds with
    | nil => simp at h
    | cons d ds =>
      have hlen : sums.length = ds.length := by simpa using h
      rw [List.zipWith_cons_cons, weigh_cons, weigh_cons, value_cons, ih hlen,
        List.length_zipWith, hlen, Nat.min_self]
      ring

theorem maxWidth_eq (numbers : List (List Digit)) :
    maxWidth numbers = Row.maxWidth (numbers.map text) := by
  simp [maxWidth, Row.maxWidth, List.foldl_map, length_text]

theorem length_le_maxWidth {numbers : List (List Digit)} {ds : List Digit} (h : ds ∈ numbers) :
    ds.length ≤ maxWidth numbers := by
  rw [maxWidth_eq, ← length_text]
  exact Row.length_le_maxWidth (List.mem_map_of_mem h)

theorem length_padStart_maxWidth {numbers : List (List Digit)} {ds : List Digit}
    (h : ds ∈ numbers) : (padStart (maxWidth numbers) ds).length = maxWidth numbers := by
  rw [length_padStart]
  exact max_eq_left (length_le_maxWidth h)

def addColumns (fit : List Digit → List Digit) (numbers : List (List Digit)) (sums : List Nat) :
    List Nat :=
  numbers.foldl (fun sums ds => List.zipWith (fun s d => s + d.val) sums (fit ds)) sums

theorem columnSums_eq (numbers : List (List Digit)) :
    columnSums numbers =
      addColumns (padStart (maxWidth numbers)) numbers (List.replicate (maxWidth numbers) 0) :=
  rfl

/-- Adding leaves out no column, and what the columns make grows by the numbers. -/
theorem addColumns_spec {fit : List Digit → List Digit} {numbers : List (List Digit)}
    {sums : List Nat} (h : ∀ ds ∈ numbers, (fit ds).length = sums.length) :
    (addColumns fit numbers sums).length = sums.length ∧
      weigh (addColumns fit numbers sums) =
        weigh sums + (numbers.map fun ds => value (fit ds)).sum := by
  induction numbers generalizing sums with
  | nil => exact ⟨rfl, rfl⟩
  | cons ds numbers ih =>
    obtain ⟨hds, hrest⟩ := List.forall_mem_cons.1 h
    let next := List.zipWith (fun s d => s + d.val) sums (fit ds)
    have hnext : next.length = sums.length := by
      rw [List.length_zipWith, hds, Nat.min_self]
    have hfit : ∀ es ∈ numbers, (fit es).length = next.length := by
      intro es hes
      rw [hrest es hes, hnext]
    obtain ⟨hlength, hweigh⟩ := ih hfit
    refine ⟨hlength.trans hnext, hweigh.trans ?_⟩
    rw [weigh_add hds.symm, List.map_cons, List.sum_cons, Nat.add_assoc]

theorem drop_addColumns (fit : List Digit → List Digit) (i : Nat) (numbers : List (List Digit))
    (sums : List Nat) :
    (addColumns fit numbers sums).drop i =
      addColumns (fun ds => (fit ds).drop i) numbers (sums.drop i) := by
  induction numbers generalizing sums with
  | nil => rfl
  | cons ds numbers ih =>
    exact (ih _).trans (congrArg (addColumns _ numbers) List.drop_zipWith)

theorem length_columnSums (numbers : List (List Digit)) :
    (columnSums numbers).length = maxWidth numbers := by
  rw [columnSums_eq, (addColumns_spec _).1, List.length_replicate]
  intro ds hds
  rw [length_padStart_maxWidth hds, List.length_replicate]

/-- **The column sums** from a column on make the sum of the numbers that stand there. -/
theorem weigh_drop_columnSums (numbers : List (List Digit)) (i : Nat) :
    weigh ((columnSums numbers).drop i) =
      (numbers.map fun ds => value ((padStart (maxWidth numbers) ds).drop i)).sum := by
  rw [columnSums_eq, drop_addColumns, (addColumns_spec _).2, List.drop_replicate, weigh_zeros,
    Nat.zero_add]
  intro ds hds
  rw [List.length_drop, List.length_drop, length_padStart_maxWidth hds, List.length_replicate]

theorem weigh_columnSums (numbers : List (List Digit)) :
    weigh (columnSums numbers) = (numbers.map value).sum := by
  have h := weigh_drop_columnSums numbers 0
  simpa only [List.drop_zero, value_padStart] using h

theorem length_carryThrough (sums : List Nat) : (carryThrough sums).2.length = sums.length := by
  induction sums with
  | nil => rfl
  | cons s sums ih => simp [carryThrough, ih]

/-- **Passing the carries on loses nothing.** -/
theorem value_carryThrough (sums : List Nat) :
    (carryThrough sums).1 * pow10 sums.length + value (carryThrough sums).2 = weigh sums := by
  induction sums with
  | nil => rfl
  | cons s sums ih =>
    have hsplit := Nat.div_add_mod (s + (carryThrough sums).1) 10
    simp only [carryThrough]
    rw [value_cons, Digit.val_ofNat, length_carryThrough, weigh_cons, List.length_cons, pow10_succ,
      ← ih]
    generalize carryThrough sums = p at *
    calc (s + p.1) / 10 * (10 * pow10 sums.length) +
          ((s + p.1) % 10 * pow10 sums.length + value p.2)
        = (10 * ((s + p.1) / 10) + (s + p.1) % 10) * pow10 sums.length + value p.2 := by ring
      _ = s * pow10 sums.length + (p.1 * pow10 sums.length + value p.2) := by
          rw [hsplit]
          ring

/-- The digits of a sum are those of the number. -/
theorem sum_eq_ofNat (numbers : List (List Digit)) :
    sum numbers = ofNat (numbers.map value).sum := by
  have hvalue := value_carryThrough (columnSums numbers)
  rw [weigh_columnSums, ← length_carryThrough] at hvalue
  rw [← hvalue, ← value_ofNat_append, ofNat_value]
  rfl

end Digits

end Longhand
