import Longhand.Proofs.DigitCarries
import Mathlib.Algebra.Group.Action.Defs
import Mathlib.Algebra.Order.BigOperators.Group.List
/-!
# The sum of digit strings

Digit strings of any lengths are added column by column from the right, and with many of them the
carry grows to several digits. However far the columns are worked, the digits written are the last
ones of the sum, and the carry is what the numbers make beyond them in the columns so far
(`written_lastColumns`, `carry_lastColumns`); it stays below the number of strings. What is carried
out of the first column is written in front, so the sum is that of the numbers, and neither the order
of the strings nor zeros in front of them count: `digit_sum_exact`.
-/

namespace Longhand.Digits

/-- The last digits of a string spell what is left of its number without the places before them. -/
theorem value_drop (ds : List Digit) (i : Nat) :
    value (ds.drop i) = value ds % pow10 (ds.length - i) := by
  have hsplit := value_append (ds.take i) (ds.drop i)
  have hlt := value_lt (ds.drop i)
  rw [List.length_drop] at hsplit hlt
  rw [List.take_append_drop] at hsplit
  rw [hsplit, Nat.mul_comm, Nat.mul_add_mod, Nat.mod_eq_of_lt hlt]

/-! ## The columns so far -/

/-- The last `k` columns worked: what is carried out of them, and the digits written. -/
def lastColumns (numbers : List (List Digit)) (k : Nat) : Nat × List Digit :=
  carryThrough ((columnSums numbers).drop (maxWidth numbers - k))

/-- What the numbers make in their last `k` places. -/
def lastPlaces (numbers : List (List Digit)) (k : Nat) : Nat :=
  (numbers.map fun ds => value ds % pow10 k).sum

section

variable {numbers : List (List Digit)} {k : Nat} (hk : k ≤ maxWidth numbers)

include hk

theorem length_written_lastColumns : (lastColumns numbers k).2.length = k := by
  rw [lastColumns, length_carryThrough, List.length_drop, length_columnSums]
  omega

/-- **Nothing is lost in the columns so far.** -/
theorem value_lastColumns :
    (lastColumns numbers k).1 * pow10 k + value (lastColumns numbers k).2 =
      lastPlaces numbers k := by
  have hvalue := value_carryThrough ((columnSums numbers).drop (maxWidth numbers - k))
  rw [← length_carryThrough, ← lastColumns, length_written_lastColumns hk,
    weigh_drop_columnSums] at hvalue
  rw [hvalue, lastPlaces]
  congr 1
  refine List.map_congr_left fun ds hds => ?_
  rw [value_drop, length_padStart_maxWidth hds, value_padStart, Nat.sub_sub_self hk]

/-- **The carry** is what the places so far make beyond the digits written. -/
theorem carry_lastColumns : (lastColumns numbers k).1 = lastPlaces numbers k / pow10 k := by
  have hlt := value_lt (lastColumns numbers k).2
  rw [length_written_lastColumns hk] at hlt
  rw [← value_lastColumns hk, Nat.mul_comm, Nat.mul_add_div (pow10_pos k), Nat.div_eq_of_lt hlt,
    Nat.add_zero]

/-- **The digits written** are the last ones of the sum. -/
theorem written_lastColumns :
    value (lastColumns numbers k).2 = (numbers.map value).sum % pow10 k := by
  have hlt := value_lt (lastColumns numbers k).2
  rw [length_written_lastColumns hk] at hlt
  have hmod := congrArg (· % pow10 k) (value_lastColumns hk)
  simp only [Nat.mul_comm _ (pow10 k), Nat.mul_add_mod, Nat.mod_eq_of_lt hlt] at hmod
  rw [hmod, lastPlaces, List.sum_nat_mod (numbers.map value), List.map_map]
  rfl

/-- However many strings there are, the carry is less than their number. -/
theorem carry_lastColumns_lt (h : numbers ≠ []) : (lastColumns numbers k).1 < numbers.length := by
  have hplaces : lastPlaces numbers k < (numbers.map fun _ => pow10 k).sum :=
    List.sum_lt_sum_of_ne_nil h _ _ fun ds _ => Nat.mod_lt (value ds) (pow10_pos k)
  rw [List.map_const', List.sum_replicate, smul_eq_mul] at hplaces
  rw [carry_lastColumns hk]
  exact (Nat.div_lt_iff_lt_mul (pow10_pos k)).2 hplaces

end

/-! ## The whole sum -/

/-- **Adding digit strings is addition.** The sum of digit strings, however many and however long,
is the decimal text of the sum of their numbers. So it stays the same when the strings are put in
another order, and when strings have other zeros in front. However many columns have been worked, the
digits written are the last ones of the sum, and the carry, which may have several digits but is less
than the number of strings, is what the places so far make beyond them. -/
theorem digit_sum_exact (numbers : List (List Digit)) :
    text (sum numbers) = Nat.toDigits 10 (numbers.map value).sum ∧
      (∀ others, others.Perm numbers → sum others = sum numbers) ∧
      (∀ others, others.map normalize = numbers.map normalize → sum others = sum numbers) ∧
      ∀ k ≤ maxWidth numbers,
        value (lastColumns numbers k).2 = (numbers.map value).sum % pow10 k ∧
        (lastColumns numbers k).1 = lastPlaces numbers k / pow10 k ∧
        (numbers ≠ [] → (lastColumns numbers k).1 < numbers.length) := by
  refine ⟨?_, fun others horder => ?_, fun others hzeros => ?_, fun k hk => ?_⟩
  · rw [sum_eq_ofNat, text_ofNat]
  · rw [sum_eq_ofNat, sum_eq_ofNat, (horder.map value).sum_eq]
  · have hnormal : ∀ ns : List (List Digit), ns.map value = (ns.map normalize).map value := by
      intro ns
      simp only [List.map_map, Function.comp_def, value_normalize]
    rw [sum_eq_ofNat, sum_eq_ofNat, hnormal others, hzeros, ← hnormal]
  · exact ⟨written_lastColumns hk, carry_lastColumns hk, carry_lastColumns_lt hk⟩

/-- Fourteen strings, one of them empty and one with zeros in front: eleven is carried twice. -/
theorem digit_sum_exact_fourteen :
    let numbers : List (List Digit) := [] :: [0, 0, 7] :: List.replicate 12 [9, 9]
    let others : List (List Digit) := [0] :: [7] :: List.replicate 12 [0, 0, 9, 9]
    text (sum numbers) = "1195".toList ∧
      numbers.reverse.Perm numbers ∧ sum numbers.reverse = sum numbers ∧
      others.map normalize = numbers.map normalize ∧ sum others = sum numbers ∧
      2 ≤ maxWidth numbers ∧ value (lastColumns numbers 2).2 = 95 ∧
      (lastColumns numbers 2).1 = 11 ∧ numbers ≠ [] ∧ (lastColumns numbers 2).1 < 14 := by
  intro numbers others
  obtain ⟨htext, horder, hzeros, hcolumns⟩ := digit_sum_exact numbers
  have hsame : others.map normalize = numbers.map normalize := by decide
  have hne : numbers ≠ [] := by decide
  obtain ⟨hwritten, hcarry, hlt⟩ := hcolumns 2 (by decide)
  exact ⟨htext.trans (by decide), numbers.reverse_perm, horder _ numbers.reverse_perm, hsame,
    hzeros _ hsame, by decide, hwritten.trans (by decide), hcarry.trans (by decide), hne, hlt hne⟩

end Longhand.Digits
