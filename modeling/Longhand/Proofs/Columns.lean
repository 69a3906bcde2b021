import Longhand.Column.Alignment
import Longhand.Proofs.Reading
import Mathlib.Algebra.Order.Floor.Semiring
import Mathlib.Data.Rat.Floor
/-!
# The columns of aligned numerals

The digit columns are all columns but column 0 and that of the point. In each of them a numeral has
the digit that its number has at the place of the column (`digitAt_exponent`), and its row shows
that digit, or a blank for a zero that is not written (`digitAt_row`).
-/

namespace Longhand

/-- The digit that a decimal has at the place of a power of ten. -/
def Decimal.digitAt (d : Decimal) (place : Int) : Int :=
  ⌊d.toRat / 10 ^ place⌋ % 10

def Row.cellDigit (c : Char) : Nat :=
  (Text.decimalDigit? c).getD 0

def Row.digitAt (r : Row) (column : Nat) : Nat :=
  (r[column]?.map cellDigit).getD 0

namespace Row

@[simp] theorem cellDigit_blank : cellDigit ' ' = 0 := by
  decide

@[simp] theorem cellDigit_char (d : Digit) : cellDigit d.char = d.val := by
  simp [cellDigit, d.decimalDigit?_char]

/-- Blanks at the end of a row show nothing. -/
@[simp] theorem digitAt_padEnd (width : Nat) (r : Row) (column : Nat) :
    (r.padEnd width).digitAt column = r.digitAt column := by
  unfold digitAt padEnd
  by_cases h : column < r.length
  · rw [List.getElem?_append_left h]
  · have hnone : r[column]? = none := List.getElem?_eq_none (by omega)
    rw [List.getElem?_append_right (by omega), List.getElem?_replicate, hnone]
    split <;> simp

/-- The digits of a row in consecutive columns. -/
theorem map_digitAt (before middle after : Row) :
    (List.range' before.length middle.length).map (digitAt (before ++ (middle ++ after))) =
      middle.map cellDigit := by
  induction middle generalizing before with
  | nil => simp
  | cons c middle ih =>
    have hrest := ih (before ++ [c])
    simp only [List.length_append, List.length_singleton, List.append_assoc, List.singleton_append]
      at hrest
    rw [List.length_cons, List.range'_succ, List.map_cons, List.cons_append, hrest]
    simp [digitAt]

theorem map_cellDigit_padStart (width : Nat) (ds : List Digit) :
    (padStart width (Digits.text ds)).map cellDigit =
      (Digits.padStart width ds).map (fun d => d.val) := by
  simp [padStart, Digits.padStart, Digits.zeros, Digits.text]

theorem map_cellDigit_padEnd (width : Nat) (ds : List Digit) :
    (padEnd width (Digits.text ds)).map cellDigit =
      (ds ++ Digits.zeros (width - ds.length)).map (fun d => d.val) := by
  simp [padEnd, Digits.zeros, Digits.text]

end Row

def Layout.digitAt (l : Layout) (row column : Nat) : Nat :=
  (l.rows[row]?.map fun r => r.digitAt column).getD 0

@[simp] theorem Layout.digitAt_squared (l : Layout) (row column : Nat) :
    l.squared.digitAt row column = l.digitAt row column := by
  unfold digitAt squared
  cases h : l.rows[row]? <;> simp [h]

def Layout.cell? (l : Layout) (row column : Nat) : Option Char :=
  l.rows[row]?.bind fun r => r[column]?

/-- What stands in a cell stays there when the page is brought to one width. -/
theorem Layout.cell?_squared {l : Layout} {row column : Nat} {c : Char}
    (h : l.cell? row column = some c) : l.squared.cell? row column = some c := by
  unfold cell? at h ⊢
  obtain ⟨r, hr, hc⟩ := Option.bind_eq_some_iff.1 h
  obtain ⟨hlt, -⟩ := List.getElem?_eq_some_iff.1 hc
  simp [squared, hr, Row.padEnd, List.getElem?_append_left hlt, hc]

/-- The digits of a string from the number that it spells. -/
theorem Digits.map_val (ds : List Digit) :
    ds.map (fun d => d.val) =
      (List.range ds.length).reverse.map fun k => value ds / 10 ^ k % 10 := by
  induction ds using List.reverseRecOn with
  | nil => rfl
  | append_singleton ds d ih =>
    have hd := d.isLt
    have hstep : ∀ k, value (ds ++ [d]) / 10 ^ (k + 1) = value ds / 10 ^ k := fun k => by
      rw [value_concat, Nat.pow_succ', ← Nat.div_div_eq_div_mul]
      congr 1
      omega
    have hlast : value (ds ++ [d]) % 10 = d.val := by
      rw [value_concat]
      omega
    rw [List.length_append, List.length_singleton, List.range_succ_eq_map, List.map_append, ih]
    simp [hstep, hlast, Function.comp_def, ← List.map_reverse]

/-- The digits of a number, from the number in units of a power of ten. -/
theorem Decimal.digitAt_eq {d : Decimal} {n places : Nat} (h : (n : ℚ) = d.toRat * 10 ^ places)
    (k : Nat) : d.digitAt ((k : Int) - places) = (n / 10 ^ k % 10 : Nat) := by
  have hten : (10 : ℚ) ^ (k : Int) = ((10 ^ k : Nat) : ℚ) := by push_cast; rfl
  have hplace : d.toRat / 10 ^ ((k : Int) - places) = (n : ℚ) / ((10 ^ k : Nat) : ℚ) := by
    rw [h, ← hten, zpow_sub₀ (by norm_num), zpow_natCast, zpow_natCast]
    field_simp
  rw [digitAt, hplace, Rat.floor_natCast_div_natCast]
  push_cast
  rfl

/-- The digits of a string are those of the number that it spells in units of a power of ten. -/
theorem Decimal.digitAt_of_spelled {d : Decimal} {ds : List Digit} {places : Nat}
    (h : (Digits.value ds : ℚ) = d.toRat * 10 ^ places) {k : Nat} {x : Digit}
    (hx : ds.reverse[k]? = some x) : d.digitAt ((k : Int) - places) = x.val := by
  have hvals := congrArg (fun l : List Nat => l.reverse[k]?) (Digits.map_val ds)
  obtain ⟨hk, -⟩ := List.getElem?_eq_some_iff.1 hx
  rw [List.length_reverse] at hk
  simp only [← List.map_reverse, List.reverse_reverse, List.getElem?_map, hx, Option.map_some,
    List.getElem?_range hk, Option.some.injEq] at hvals
  rw [digitAt_eq h, hvals]

namespace Alignment

variable {a : Alignment} {n : Numeral}

/-- The columns have room for all digits of a numeral. -/
structure Holds (a : Alignment) (n : Numeral) : Prop where
  integer_le : n.integer.length ≤ a.integerWidth
  fraction_le : n.fraction.length ≤ a.fractionWidth

theorem holds_top (a : Alignment) : a.Holds a.top :=
  ⟨Nat.le_max_left .., Nat.le_max_left ..⟩

theorem holds_bottom (a : Alignment) : a.Holds a.bottom :=
  ⟨Nat.le_max_right .., Nat.le_max_right ..⟩

theorem length_columnIndices (a : Alignment) :
    a.columnIndices.length = a.integerWidth + a.fractionWidth := by
  simp [columnIndices]

theorem Holds.length_digits (h : a.Holds n) :
    (a.digits n).length = a.integerWidth + a.fractionWidth := by
  have := h.integer_le
  have := h.fraction_le
  simp [digits, Digits.length_padStart, Digits.length_zeros]
  omega

/-- The digit columns are all columns but column 0 and that of the point. -/
theorem columnIndices_eq (a : Alignment) :
    a.columnIndices =
      (List.range a.width).filter fun c => c ≠ 0 ∧ a.pointColumn? ≠ some c := by
  have hinteger : (List.range' 1 a.integerWidth).filter (fun c => c ≠ 0 ∧ a.pointColumn? ≠ some c) =
      List.range' 1 a.integerWidth := by
    rw [List.filter_eq_self]
    intro c hc
    simp only [List.mem_range'_1] at hc
    simp only [pointColumn?]
    split <;> simp <;> omega
  rw [columnIndices, width, List.range_eq_range', Nat.add_assoc]
  by_cases hf : a.fractionWidth = 0
  · simp only [hf, if_true, Nat.add_zero, List.range'_zero, List.append_nil]
    rw [Nat.add_comm, List.range'_succ, List.filter_cons, Nat.zero_add, hinteger]
    simp
  · have hfraction : (List.range' (a.integerWidth + 2) a.fractionWidth).filter
        (fun c => c ≠ 0 ∧ a.pointColumn? ≠ some c) =
        List.range' (a.integerWidth + 2) a.fractionWidth := by
      rw [List.filter_eq_self]
      intro c hc
      simp only [List.mem_range'_1] at hc
      simp only [pointColumn?, hf, if_false, decide_eq_true_eq]
      simp
      omega
    have hpoint : a.pointColumn? = some (a.integerWidth + 1) := by
      simp [pointColumn?, hf]
    rw [if_neg hf, Nat.add_comm 1, List.range'_succ, List.filter_cons, Nat.zero_add,
      ← List.range'_append_1, List.filter_append, hinteger, Nat.add_comm 1 a.fractionWidth,
      List.range'_succ, List.filter_cons, Nat.add_comm 1 a.integerWidth, hfraction]
    simp [hpoint]

/-- No digit stands in column 0, and none beyond the last column. -/
theorem mem_columnIndices (a : Alignment) {c : Nat} (h : c ∈ a.columnIndices) :
    c ≠ 0 ∧ c < a.width := by
  rw [a.columnIndices_eq, List.mem_filter] at h
  simp at h
  exact ⟨h.2.1, h.1⟩

/-! ## Columns -/

theorem map_columns (a : Alignment) :
    a.columns.map (fun c => (c.index, c.top, c.bottom)) =
      a.columnIndices.zip ((a.digits a.top).zip (a.digits a.bottom)) := by
  simp [columns, List.map_zipWith, List.zip]

theorem columns_index (a : Alignment) : a.columns.map (·.index) = a.columnIndices := by
  have h := congrArg (List.map Prod.fst) a.map_columns
  rw [List.map_map] at h
  refine h.trans (List.map_fst_zip ?_)
  simp [length_columnIndices, a.holds_top.length_digits, a.holds_bottom.length_digits]

theorem length_columns (a : Alignment) :
    a.columns.length = a.integerWidth + a.fractionWidth := by
  rw [← a.length_columnIndices, ← a.columns_index, List.length_map]

theorem columns_digits (a : Alignment) :
    a.columns.map (fun c => (c.top, c.bottom)) = (a.digits a.top).zip (a.digits a.bottom) := by
  have h := congrArg (List.map Prod.snd) a.map_columns
  rw [List.map_map] at h
  refine h.trans (List.map_snd_zip ?_)
  simp [length_columnIndices, a.holds_top.length_digits, a.holds_bottom.length_digits]

theorem columns_top (a : Alignment) : a.columns.map (·.top) = a.digits a.top := by
  have h := congrArg (List.map Prod.fst) a.columns_digits
  rw [List.map_map] at h
  refine h.trans (List.map_fst_zip ?_)
  simp [a.holds_top.length_digits, a.holds_bottom.length_digits]

theorem columns_bottom (a : Alignment) : a.columns.map (·.bottom) = a.digits a.bottom := by
  have h := congrArg (List.map Prod.snd) a.columns_digits
  rw [List.map_map] at h
  refine h.trans (List.map_snd_zip ?_)
  simp [a.holds_top.length_digits, a.holds_bottom.length_digits]

/-! ## Places -/

def exponent (a : Alignment) (column : Nat) : Int :=
  if column ≤ a.integerWidth then a.integerWidth - column else a.integerWidth + 1 - column

/-- From the most significant column to the least significant one the places go down one by one. -/
theorem map_exponent (a : Alignment) :
    a.columnIndices.map a.exponent =
      (List.range (a.integerWidth + a.fractionWidth)).reverse.map fun k : Nat =>
        (k : Int) - a.fractionWidth := by
  refine List.ext_getElem (by simp [length_columnIndices]) fun i hi hj => ?_
  simp only [List.length_map, length_columnIndices] at hi
  simp only [columnIndices, exponent, List.getElem_map, List.getElem_append, List.getElem_range',
    List.length_range', List.getElem_reverse, List.getElem_range, List.length_range]
  split <;> split <;> omega

/-- The digits of a numeral in the columns are those of its number, with a point moved behind
them. -/
theorem Holds.value_digits (h : a.Holds n) :
    (Digits.value (a.digits n) : ℚ) = n.toRat * 10 ^ a.fractionWidth := by
  have hzeros := n.value_scaled_zeros (a.fractionWidth - n.fraction.length)
  have hfraction := h.fraction_le
  rw [show n.fraction.length + (a.fractionWidth - n.fraction.length) = a.fractionWidth by omega]
    at hzeros
  rw [← hzeros, digits, Digits.value_append, Digits.value_padStart, ← Digits.value_append,
    Numeral.scaled, List.append_assoc]

/-- In every column stands the digit that the number has at the place of the column. -/
theorem Holds.map_digitAt_exponent (h : a.Holds n) {d : Decimal} (hd : d.toRat = n.toRat) :
    a.columnIndices.map (fun c => d.digitAt (a.exponent c)) =
      (a.digits n).map fun x => (x.val : Int) := by
  have hplaces := congrArg (List.map d.digitAt) a.map_exponent
  have hvals := congrArg (List.map fun k : Nat => (k : Int)) (Digits.map_val (a.digits n))
  simp only [List.map_map, Function.comp_def, h.length_digits] at hplaces hvals
  have hvalue := h.value_digits
  rw [← hd] at hvalue
  rw [hplaces, hvals]
  exact List.map_congr_left fun k _ => Decimal.digitAt_eq hvalue k

/-! ## Rows -/

/-- The digits that the row of a numeral shows in the digit columns; blanks are zeros. -/
theorem Holds.map_digitAt_row (h : a.Holds n) (sign : Char) :
    a.columnIndices.map (Row.digitAt (sign :: a.row n)) = (a.digits n).map fun x => x.val := by
  let integer := Row.padStart a.integerWidth (Digits.text n.integer)
  let fraction := Row.padEnd a.fractionWidth (Digits.text n.fraction)
  have hi : integer.length = a.integerWidth := by
    simp [integer, Row.length_padStart, Digits.length_text, h.integer_le]
  have hf : fraction.length = a.fractionWidth := by
    simp [fraction, Row.length_padEnd, Digits.length_text, h.fraction_le]
  rw [columnIndices, digits, List.map_append, List.map_append, ← Row.map_cellDigit_padStart,
    ← Row.map_cellDigit_padEnd]
  congr 1
  · by_cases hw : a.fractionWidth = 0
    · have hmap := Row.map_digitAt [sign] integer []
      rw [hi, List.append_nil] at hmap
      simpa [row, hw, integer] using hmap
    · have hmap := Row.map_digitAt [sign] integer
        ((if n.fraction.isEmpty then ' ' else '.') :: fraction)
      rw [hi] at hmap
      simpa [row, hw, integer, fraction] using hmap
  · by_cases hw : a.fractionWidth = 0
    · have hnil : n.fraction = [] := List.length_eq_zero_iff.1 (by have := h.fraction_le; omega)
      simp [hw, hnil, Row.padEnd, Digits.text]
    · have hmap := Row.map_digitAt
        (sign :: (integer ++ [if n.fraction.isEmpty then ' ' else '.'])) fraction []
      rw [hf] at hmap
      simpa [row, hw, hi, integer, fraction] using hmap

theorem Holds.length_row (h : a.Holds n) : (a.row n).length + 1 = a.width := by
  have hinteger := h.integer_le
  have hfraction := h.fraction_le
  unfold row width
  split <;> simp [Row.length_padStart, Row.length_padEnd, Digits.length_text] <;> omega

/-- A row without its blanks is the text of its numeral. -/
theorem Holds.compact_row (h : a.Holds n) : Row.compact (a.row n) = n.text := by
  by_cases hw : a.fractionWidth = 0
  · have hnil : n.fraction = [] := List.length_eq_zero_iff.1 (by have := h.fraction_le; omega)
    simp [row, hw, hnil, Numeral.text, Row.compact_padStart, Row.compact_text]
  · rw [row, if_neg hw, Row.compact_append, Row.compact_padStart, Row.compact_text, Numeral.text]
    congr 1
    split
    · rename_i hempty
      rw [Row.compact_blank_cons, Row.compact_padEnd, Row.compact_text,
        List.isEmpty_iff.1 hempty]
      rfl
    · rw [Row.compact_cons (by decide), Row.compact_padEnd, Row.compact_text]

end Alignment

end Longhand
