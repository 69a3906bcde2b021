import Longhand.Proofs.Operands
import Longhand.Proofs.Reading
/-!
# Long division is exact on the page

A long division goes through the digits of the dividend with a remainder below the divisor. What
carries the result is one equation for every run of digits (`Run.value`): the remainder at the
start, followed by the digits brought down, is the number that the quotient digits spell times the
divisor, plus the remainder at the end. The rest is about place: the quotient row is read at the
last digit brought down, and what remains stands at the same place moved back by the shift that
made the divisor whole.
-/

namespace Longhand.Division

/-! ## Runs -/

/-- A run through digits, from a remainder to the remainder at the end: each line brings down one
digit beside the remainder so far, and divides with a single quotient digit. -/
inductive Run (divisor : Nat) : Nat → List Digit → List Line → Nat → Prop
  | done {r : Nat} (h : r < divisor) : Run divisor r [] [] r
  | bring {r last : Nat} {d : Digit} {ds : List Digit} {l : Line} {ls : List Line}
      (brought : l.brought = d) (current : l.current = 10 * r + d.val)
      (divided : l.current = l.quotient * divisor + l.remainder)
      (remainder : l.remainder < divisor) (quotient : l.quotient ≤ 9)
      (rest : Run divisor l.remainder ds ls last) : Run divisor r (d :: ds) (l :: ls) last

def remainderAfter (r : Nat) (ls : List Line) : Nat :=
  (ls.getLast?.map (·.remainder)).getD r

theorem remainderAfter_cons (r : Nat) (l : Line) (ls : List Line) :
    remainderAfter r (l :: ls) = remainderAfter l.remainder ls := by
  cases ls with
  | nil => rfl
  | cons l' ls => simp [remainderAfter, List.getLast?_cons]

theorem quotient_le_nine {divisor r : Nat} (hr : r < divisor) (d : Digit) :
    (r * 10 + d.val) / divisor ≤ 9 := by
  have hd : d.val < 10 := d.isLt
  rw [← Nat.lt_succ_iff, Nat.div_lt_iff_lt_mul (by omega)]
  omega

/-- A remainder below the divisor stays below it, whatever digits are brought down. -/
theorem run_trace {divisor r : Nat} (hr : r < divisor) (index : Nat) (ds : List Digit) :
    Run divisor r ds (trace divisor index r ds) (remainderAfter r (trace divisor index r ds)) := by
  induction ds generalizing index r with
  | nil => exact .done hr
  | cons d ds ih =>
    have hlt : (r * 10 + d.val) % divisor < divisor := Nat.mod_lt _ (by omega)
    rw [trace, remainderAfter_cons]
    exact .bring rfl (by simp only; omega) (Nat.div_add_mod' _ _).symm hlt (quotient_le_nine hr d)
      (ih hlt (index + 1))

def quotientDigits (ls : List Line) : List Digit :=
  ls.map fun l => Digit.ofNat l.quotient

theorem Run.remainder_lt {divisor r last : Nat} {ds : List Digit} {ls : List Line}
    (h : Run divisor r ds ls last) : last < divisor := by
  induction h with
  | done h => exact h
  | bring _ _ _ _ _ _ ih => exact ih

theorem Run.length_eq {divisor r last : Nat} {ds : List Digit} {ls : List Line}
    (h : Run divisor r ds ls last) : ls.length = ds.length := by
  induction h with
  | done => rfl
  | bring _ _ _ _ _ _ ih => rw [List.length_cons, List.length_cons, ih]

theorem Run.quotient_le {divisor r last : Nat} {ds : List Digit} {ls : List Line}
    (h : Run divisor r ds ls last) : ∀ l ∈ ls, l.quotient ≤ 9 := by
  induction h with
  | done => simp
  | bring _ _ _ _ hq _ ih => exact List.forall_mem_cons.2 ⟨hq, ih⟩

/-- **A run loses nothing**: the remainder at the start, followed by the digits brought down, is
the quotient times the divisor plus the remainder at the end. -/
theorem Run.value {divisor r last : Nat} {ds : List Digit} {ls : List Line}
    (h : Run divisor r ds ls last) :
    r * pow10 ds.length + Digits.value ds =
      Digits.value (quotientDigits ls) * divisor + last := by
  induction h with
  | done => simp [Digits.value_nil, pow10_zero, quotientDigits]
  | @bring r last d ds l ls _ hc hd _ hq hrest ih =>
    have hlen : (quotientDigits ls).length = ds.length := by
      rw [quotientDigits, List.length_map, hrest.length_eq]
    have hdigit : (Digit.ofNat l.quotient).val = l.quotient := Nat.mod_eq_of_lt (by omega)
    have hcur : 10 * r + d.val = l.quotient * divisor + l.remainder := by rw [← hc, hd]
    rw [quotientDigits, List.map_cons, Digits.value_cons, Digits.value_cons, List.length_cons,
      pow10_succ, hdigit]
    change _ = (l.quotient * pow10 (quotientDigits ls).length +
      Digits.value (quotientDigits ls)) * divisor + last
    rw [hlen]
    calc r * (10 * pow10 ds.length) + (d.val * pow10 ds.length + Digits.value ds)
        = (10 * r + d.val) * pow10 ds.length + Digits.value ds := by ring
      _ = l.quotient * pow10 ds.length * divisor +
          (l.remainder * pow10 ds.length + Digits.value ds) := by rw [hcur]; ring
      _ = _ := by rw [ih]; ring

/-! ## The quotient row -/

/-- The quotient digits of a run as they are written. -/
theorem quotientChars_eq {ls : List Line} (h : ∀ l ∈ ls, l.quotient ≤ 9) :
    Work.quotientChars ls = Digits.text (quotientDigits ls) := by
  simp only [Work.quotientChars, Digits.text, quotientDigits, List.map_map]
  refine List.map_congr_left fun l hl => ?_
  have hq : l.quotient % 10 = l.quotient := Nat.mod_eq_of_lt (by have := h l hl; omega)
  simp [Digit.char, Digit.ofNat, hq]

/-- After the point the cells are the digits. -/
theorem quotientCells_fraction (n : Nat) (leading : Bool) {index : Nat} (h : n < index)
    (cs : List Char) : quotientCells n leading index cs = cs := by
  induction cs generalizing leading index with
  | nil => rfl
  | cons c cs ih =>
    have hb : ¬ ((index : Int) < n - 1) := by omega
    have hp : ¬ ((index : Int) = n) := by omega
    simp [quotientCells, hb, hp, ih _ (Nat.lt_succ_of_lt h)]

/-- Once a digit is shown, all that follow are. -/
theorem quotientCells_shown (n : Nat) (whole fraction : List Digit) {index : Nat}
    (h : index + whole.length = n) :
    quotientCells n false index (Digits.text (whole ++ fraction)) =
      Numeral.text ⟨whole, fraction⟩ := by
  induction whole generalizing index with
  | nil =>
    have hi : (index : Int) = n := by simpa using h
    cases fraction with
    | nil => rfl
    | cons d ds =>
      have hlt : n < index + 1 := by simp at h; omega
      simp [Digits.text, quotientCells, hi, Numeral.text, quotientCells_fraction n _ hlt]
  | cons d ds ih =>
    have hi : ¬ ((index : Int) = n) := by simp at h; omega
    have ht : index + 1 + ds.length = n := by simp at h; omega
    rw [List.cons_append, Digits.text_cons, Numeral.text_cons]
    simp [quotientCells, hi, ih ht]

/-- Without its blanks the row is the numeral without needless zeros in front. -/
theorem compact_quotientCells (n : Nat) {whole : List Digit} (fraction : List Digit) {index : Nat}
    (hw : whole ≠ []) (h : index + whole.length = n) :
    Row.compact (quotientCells n true index (Digits.text (whole ++ fraction))) =
      Numeral.text ⟨Digits.normalize whole, fraction⟩ := by
  induction whole generalizing index with
  | nil => exact absurd rfl hw
  | cons d ds ih =>
    have hp : ¬ ((index : Int) = n) := by simp at h; omega
    have ht : index + 1 + ds.length = n := by simp at h; omega
    have hzero := d.char_eq_zero_iff
    rw [List.cons_append, Digits.text_cons]
    by_cases hb : d = 0 ∧ ds ≠ []
    · -- a zero with another digit before the point stays blank
      obtain ⟨rfl, hds⟩ := hb
      have hlen : 0 < ds.length := List.length_pos_of_ne_nil hds
      have hu : (index : Int) < n - 1 := by omega
      have hn : Digits.normalize (0 :: ds) = Digits.normalize ds := by simp [Digits.normalize]
      simp [quotientCells, hzero, hu, hp, hn, Row.compact_blank_cons, ih hds ht]
    · have hblank : ¬ (d.char = '0' ∧ (index : Int) < n - 1) := by
        rintro ⟨h0, hu⟩
        exact hb ⟨hzero.1 h0, by rintro rfl; simp at h; omega⟩
      have hn : Digits.normalize (d :: ds) = d :: ds := by
        by_cases hd : d = 0
        · obtain rfl : ds = [] := by
            by_contra hds
            exact hb ⟨hd, hds⟩
          simp [Digits.normalize, hd]
        · simp [Digits.normalize, hd]
      have hcells : quotientCells n true index (d.char :: Digits.text (ds ++ fraction)) =
          Numeral.text ⟨d :: ds, fraction⟩ := by
        rw [Numeral.text_cons]
        simp [quotientCells, hblank, hp, quotientCells_shown n ds fraction ht]
      rw [hcells, Row.compact_numeral, hn]

/-! ## The numbers of a division -/

namespace Work

/-- The digits that are brought down, those before the point and those after it. -/
def digits (w : Work) : List Digit :=
  w.moved.integer ++ w.fraction

variable {d v : Decimal}

theorem fraction_eq (d v : Decimal) :
    ∃ z, (of d v).fraction = (of d v).moved.fraction ++ Digits.zeros z :=
  ⟨_, rfl⟩

theorem integer_ne_nil (d v : Decimal) : (of d v).moved.integer ≠ [] :=
  Digits.normalize_ne_nil _

/-- The divisor without its point. -/
theorem whole_eq (hv : 0 ≤ v.toRat) : ((of d v).whole : ℚ) = v.toRat * 10 ^ (of d v).shift := by
  have h := v.numeral.value_scaled_zeros 0
  rw [Digits.value_append_zeros, pow10_zero, mul_one, Decimal.toRat_numeral,
    abs_of_nonneg hv] at h
  exact h

theorem whole_pos (hv : 0 < v.toRat) : 0 < (of d v).whole := by
  have h : (0 : ℚ) < (of d v).whole := by
    rw [whole_eq hv.le]
    positivity
  exact_mod_cast h

/-- The digits brought down spell the dividend, moved along with the point of the divisor and to
the last place after it. -/
theorem value_digits (hd : 0 ≤ d.toRat) :
    (Digits.value (of d v).digits : ℚ) =
      d.toRat * 10 ^ ((of d v).shift + (of d v).fraction.length) := by
  obtain ⟨z, hz⟩ := fraction_eq d v
  have hm : (of d v).moved.toRat = d.toRat * 10 ^ (of d v).shift := by
    rw [of, Numeral.toRat_shiftPoint, Decimal.toRat_numeral, abs_of_nonneg hd]
  have h := (of d v).moved.value_scaled_zeros z
  rw [Numeral.scaled, List.append_assoc, ← hz, hm] at h
  rw [digits, h, hz, List.length_append, Digits.length_zeros, mul_assoc, ← pow_add]

/-- The lines of a division are a run through its digits. -/
theorem run (hv : 0 < v.toRat) :
    Run (of d v).whole 0 (of d v).digits (of d v).lines (of d v).remainder :=
  run_trace (whole_pos hv) 0 (of d v).digits

/-- The zeros that fill up the quotient for show. -/
def padding (w : Work) : Nat :=
  w.shownPlaces - w.fraction.length

/-- The numeral that the quotient digits make, with the point where it stands in the row. -/
theorem numeral_quotientRow (hv : 0 < v.toRat) :
    ∃ n : Numeral, Row.number? ((of d v).quotientRow (quotientChars (of d v).lines ++
        List.replicate (of d v).padding '0')) = some n.toDecimal ∧
      n.toRat = Digits.value (quotientDigits (of d v).lines) *
        10 ^ (-((of d v).fraction.length : Int)) := by
  have hrun := run (d := d) hv
  generalize hqs : quotientDigits (of d v).lines = qs
  have hlen : qs.length = (of d v).moved.integer.length + (of d v).fraction.length := by
    rw [← hqs, quotientDigits, List.length_map, hrun.length_eq, digits, List.length_append]
  have hchars : quotientChars (of d v).lines = Digits.text qs := by
    rw [← hqs, quotientChars_eq hrun.quotient_le]
  generalize (of d v).padding = pad at *
  generalize hn : (of d v).moved.integer.length = n at *
  have hpos : 0 < n := by
    rw [← hn]
    exact List.length_pos_of_ne_nil (integer_ne_nil d v)
  generalize (of d v).fraction.length = k at *
  -- the digits before the point and those after it, with the zeros that fill up the row
  let whole := qs.take n
  let fraction := qs.drop n ++ Digits.zeros pad
  have hwhole : whole ≠ [] := List.ne_nil_of_length_pos (by simp [whole]; omega)
  have hwn : 0 + whole.length = n := by simp [whole]; omega
  have hall : whole ++ fraction = qs ++ Digits.zeros pad := by
    simp [whole, fraction, ← List.append_assoc]
  have hflen : fraction.length = k + pad := by
    simp [fraction, Digits.length_zeros]; omega
  have hzeros : List.replicate pad '0' = Digits.text (Digits.zeros pad) := by
    simp [Digits.text, Digits.zeros, Digit.char]
  have hrow : Row.compact ((of d v).quotientRow (quotientChars (of d v).lines ++
      List.replicate pad '0')) = Numeral.text ⟨Digits.normalize whole, fraction⟩ := by
    rw [hchars, hzeros, ← Digits.text_append, ← hall, quotientRow, hn, Division.quotientRow,
      Row.compact_append, Row.compact_blanks, List.nil_append]
    exact compact_quotientCells n fraction hwhole hwn
  refine ⟨⟨Digits.normalize whole, fraction⟩, ?_, ?_⟩
  · rw [Row.number?, hrow, Numeral.read?_text (Digits.normalize_ne_nil _)]
  · have hval : Digits.value (Digits.normalize whole ++ fraction) =
        Digits.value qs * pow10 pad := by
      rw [Digits.value_append, Digits.value_normalize, ← Digits.value_append, hall,
        Digits.value_append_zeros]
    rw [Numeral.toRat_eq, Numeral.scaled, hval, hflen]
    push_cast
    rw [pow10_eq, neg_add, Decimal.ten_zpow_add, zpow_neg _ (pad : Int), zpow_natCast]
    field_simp

/-- The number that the quotient digits make, read off the row. -/
theorem number?_quotientRow (hv : 0 < v.toRat) :
    ∃ W, Row.number? ((of d v).quotientRow (quotientChars (of d v).lines ++
        List.replicate (of d v).padding '0')) = some W ∧
      W.toRat = Digits.value (quotientDigits (of d v).lines) *
        10 ^ (-((of d v).fraction.length : Int)) := by
  obtain ⟨n, hn, hvalue⟩ := numeral_quotientRow (d := d) hv
  exact ⟨n.toDecimal, hn, hvalue⟩

/-- What remains, at its place in the given numbers. -/
theorem toRat_leftOver (w : Work) :
    w.leftOver.toRat = w.remainder * 10 ^ (-((w.fraction.length + w.shift : Nat) : Int)) :=
  Decimal.toRat_mk _ _

/-- **The division is exact**: the number written, times the divisor, with what remains. -/
theorem quotient_mul_add (hd : 0 ≤ d.toRat) (hv : 0 < v.toRat) :
    Digits.value (quotientDigits (of d v).lines) * 10 ^ (-((of d v).fraction.length : Int)) *
      v.toRat + (of d v).leftOver.toRat = d.toRat := by
  have hrun := (run (d := d) hv).value
  rw [Nat.zero_mul, Nat.zero_add] at hrun
  have hq : (Digits.value (of d v).digits : ℚ) =
      Digits.value (quotientDigits (of d v).lines) * (of d v).whole + (of d v).remainder := by
    exact_mod_cast hrun
  rw [value_digits hd, whole_eq hv.le] at hq
  rw [toRat_leftOver, Nat.cast_add, neg_add, Decimal.ten_zpow_add]
  simp only [zpow_neg, zpow_natCast]
  rw [pow_add] at hq
  field_simp
  linarith

/-- What remains is less than the divisor at the last place of the quotient. -/
theorem leftOver_lt (hv : 0 < v.toRat) :
    0 ≤ (of d v).leftOver.toRat ∧
      (of d v).leftOver.toRat < v.toRat * 10 ^ (-((of d v).fraction.length : Int)) := by
  have hlt : ((of d v).remainder : ℚ) < v.toRat * 10 ^ (of d v).shift := by
    rw [← whole_eq hv.le]
    exact_mod_cast (run (d := d) hv).remainder_lt
  rw [toRat_leftOver, Nat.cast_add, neg_add, Decimal.ten_zpow_add]
  simp only [zpow_neg, zpow_natCast]
  constructor
  · positivity
  · field_simp
    linarith

end Work

/-! ## What the last page says -/

/-- The number that an explanation says remains, with which a sentence ends; zero if it says
nothing of a remainder. -/
def statedRemainder? (explanation : String) : Option Decimal :=
  match Text.wordAfter? "remainder".toList (Text.words explanation) with
  | some word => Decimal.read? word.dropLast
  | none => some ⟨false, 0, 0⟩

namespace Work

theorem words_final_remainder (w : Work) (answer : String) (h : w.remainder ≠ 0) :
    ∃ rest, Text.words (w.finalExplanation answer) =
      [w.dividend.plain, ['÷'], w.divisor.plain, ['='], w.quotient.plain, "with".toList] ++
        "remainder".toList :: (w.leftOver.plain ++ ['.']) :: rest := by
  have hb : ∀ d : Decimal, ' ' ∉ d.plain := fun d =>
    d.not_mem_plain (by decide) (by decide) (by decide)
  have hl : ' ' ∉ w.leftOver.plain ++ ['.'] := by simp [hb]
  let tail := "Rounded to ".toList ++ (plural places "decimal place").toList ++
    ", the final answer is ".toList ++ answer.toList ++ ['.']
  have ht : (w.finalExplanation answer).toList =
      w.dividend.plain ++ ' ' :: (['÷'] ++ ' ' :: (w.divisor.plain ++ ' ' :: (['='] ++ ' ' ::
        (w.quotient.plain ++ ' ' :: ("with".toList ++ ' ' :: ("remainder".toList ++ ' ' ::
          ((w.leftOver.plain ++ ['.']) ++ ' ' :: tail))))))) := by
    simp [finalExplanation, h, toString, tail]
  refine ⟨tail.splitOn ' ', ?_⟩
  rw [Text.words, ht, Text.splitOn_word (hb _), Text.splitOn_word (by decide),
    Text.splitOn_word (hb _), Text.splitOn_word (by decide), Text.splitOn_word (hb _),
    Text.splitOn_word (by decide), Text.splitOn_word (by decide), Text.splitOn_word hl]
  rfl

theorem words_final_rounded (w : Work) {answer : String} (h : w.remainder = 0)
    (hp : places < w.fraction.length) (ha : ' ' ∉ answer.toList) :
    Text.words (w.finalExplanation answer) =
      [w.dividend.plain, ['÷'], w.divisor.plain, ['='], w.quotient.plain ++ ['.'],
        "Rounded".toList, "to".toList, ['2'], "decimal".toList, "places,".toList, "the".toList,
        "final".toList, "answer".toList, "is".toList, answer.toList ++ ['.']] := by
  have hb : ∀ d : Decimal, ' ' ∉ d.plain := fun d =>
    d.not_mem_plain (by decide) (by decide) (by decide)
  have hq : ' ' ∉ w.quotient.plain ++ ['.'] := by simp [hb]
  have hl : ' ' ∉ answer.toList ++ ['.'] := by simp [ha]
  have hr : plural places "decimal place" = "2 decimal places" := by decide +kernel
  have ht : (w.finalExplanation answer).toList =
      w.dividend.plain ++ ' ' :: (['÷'] ++ ' ' :: (w.divisor.plain ++ ' ' :: (['='] ++ ' ' ::
        ((w.quotient.plain ++ ['.']) ++ ' ' :: ("Rounded".toList ++ ' ' :: ("to".toList ++ ' ' ::
          (['2'] ++ ' ' :: ("decimal".toList ++ ' ' :: ("places,".toList ++ ' ' ::
            ("the".toList ++ ' ' :: ("final".toList ++ ' ' :: ("answer".toList ++ ' ' ::
              ("is".toList ++ ' ' :: (answer.toList ++ ['.'])))))))))))))) := by
    simp [finalExplanation, h, hp, hr, toString]
  rw [Text.words, ht, Text.splitOn_word (hb _), Text.splitOn_word (by decide),
    Text.splitOn_word (hb _), Text.splitOn_word (by decide), Text.splitOn_word hq]
  repeat rw [Text.splitOn_word (by decide)]
  rw [Text.splitOn_lastWord hl]

theorem words_final_exact (w : Work) {answer : String} (h : w.remainder = 0)
    (hp : ¬ places < w.fraction.length) (ha : ' ' ∉ answer.toList) :
    Text.words (w.finalExplanation answer) =
      ["The".toList, "final".toList, "answer".toList, "is".toList, answer.toList ++ ['.']] := by
  have hl : ' ' ∉ answer.toList ++ ['.'] := by simp [ha]
  have ht : (w.finalExplanation answer).toList =
      "The".toList ++ ' ' :: ("final".toList ++ ' ' :: ("answer".toList ++ ' ' ::
        ("is".toList ++ ' ' :: (answer.toList ++ ['.'])))) := by
    simp [finalExplanation, h, hp, toString]
  rw [Text.words, ht]
  repeat rw [Text.splitOn_word (by decide)]
  rw [Text.splitOn_lastWord hl]

/-- The remainder that the last page states is what remains. -/
theorem statedRemainder?_final (w : Work) {answer : String} (ha : ' ' ∉ answer.toList) :
    ∃ R, statedRemainder? (w.finalExplanation answer) = some R ∧ R.toRat = w.leftOver.toRat := by
  have hr : ∀ d : Decimal, "remainder".toList ≠ d.plain := by
    intro d h
    have hm : 'r' ∈ d.plain := by rw [← h]; decide
    exact d.not_mem_plain (by decide) (by decide) (by decide) hm
  have hdot : ∀ s : List Char, "remainder".toList ≠ s ++ ['.'] := by
    intro s h
    have := congrArg List.getLast? h
    simp at this
  by_cases h : w.remainder = 0
  · have hz : w.leftOver.toRat = 0 := by rw [toRat_leftOver, h]; simp
    refine ⟨⟨false, 0, 0⟩, ?_, by rw [hz, Decimal.toRat_mk]; simp⟩
    have hnone : Text.wordAfter? "remainder".toList (Text.words (w.finalExplanation answer)) =
        none := by
      apply Text.wordAfter?_eq_none
      by_cases hp : places < w.fraction.length
      · rw [words_final_rounded w h hp ha]
        simpa using And.intro (hr w.dividend) (And.intro (hr w.divisor)
          (And.intro (hdot w.quotient.plain) (hdot answer.toList)))
      · rw [words_final_exact w h hp ha]
        simpa using hdot answer.toList
    rw [statedRemainder?, hnone]
  · obtain ⟨rest, hw⟩ := words_final_remainder w answer h
    have hpos : 0 ≤ w.leftOver.toRat := by
      rw [toRat_leftOver]
      positivity
    refine ⟨w.leftOver.numeral.toDecimal, ?_, ?_⟩
    · have hnot : "remainder".toList ∉ [w.dividend.plain, ['÷'], w.divisor.plain, ['='],
          w.quotient.plain, "with".toList] := by
        simpa using And.intro (hr w.dividend) (And.intro (hr w.divisor) (hr w.quotient))
      rw [statedRemainder?, hw, Text.wordAfter?_append hnot]
      simp [Decimal.read?_plain hpos]
    · change w.leftOver.numeral.toRat = _
      rw [Decimal.toRat_numeral, abs_of_nonneg hpos]

end Work

/-! ## The pages -/

/-- The step shows a line of a division: its words tell the division with remainder, and so do the
three numbers below the bracket. -/
structure Narrates (whole : Nat) (l : Line) (s : Step) : Prop where
  explanation : s.explanation =
    s!"{count l.current} ÷ {count whole} = {count l.quotient} remainder {count l.remainder}."
  numbers : s.layout.numbers.drop 2 =
    [some ⟨false, l.current, 0⟩, some ⟨true, l.quotient * whole, 0⟩, some ⟨false, l.remainder, 0⟩]

theorem narrates_of_shows {w : Work} {l : Line} {s : Step} (h : s.Shows (w.lineDraft l)) :
    Narrates w.whole l s := by
  refine ⟨h.explanation, ?_⟩
  have hrows : (w.lineDraft l).layout.numbers.drop 2 =
      [Row.number? (Row.padStart (w.column l.index + 1) (count l.current).toList),
        Row.number? (Row.padStart (w.column l.index + 1)
          ('-' :: Digits.text (Digits.ofNat (l.quotient * w.whole)))),
        Row.number? (Row.padStart (w.column l.index + 1) (count l.remainder).toList)] := rfl
  rw [h.layout, Layout.numbers_squared, hrows]
  simp only [count, String.toList_ofList, Row.number?_padStart, Row.number?_ofNat,
    Row.number?_minus_ofNat]

/-- The steps of a division of `d` by `v` are exact: the divisor is made whole and the dividend
moved along with it; a run brings down all its digits; the steps between setting up and the answer
show the lines that give a digit other than zero; and the quotient read off the last page, times
`v`, with the remainder stated there is `d`. -/
structure Exact (d v : Decimal) (steps : List Step) : Prop where
  whole : ((Work.of d v).whole : ℚ) = v.toRat * 10 ^ (Work.of d v).shift
  digits : (Digits.value (Work.of d v).digits : ℚ) =
    d.toRat * 10 ^ ((Work.of d v).shift + (Work.of d v).fraction.length)
  run : Run (Work.of d v).whole 0 (Work.of d v).digits (Work.of d v).lines (Work.of d v).remainder
  pages : ∃ setUp shown last, steps = setUp ++ shown ++ [last] ∧
    setUp.length = (if (Work.of d v).shift = 0 then 1 else 2) ∧
    List.Forall₂ (Narrates (Work.of d v).whole)
      ((Work.of d v).lines.filter fun l => 1 ≤ l.quotient) shown ∧
    ∃ W R, last.layout.numbers.head? = some (some W) ∧
      statedRemainder? last.explanation = some R ∧
      W.toRat * v.toRat + R.toRat = d.toRat ∧ 0 ≤ R.toRat ∧
      R.toRat < v.toRat * 10 ^ (-((Work.of d v).fraction.length : Int))

/-- A line gives a digit other than zero if the divisor goes into what was brought down. -/
theorem Run.filter_shown {divisor r last : Nat} {ds : List Digit} {ls : List Line}
    (h : Run divisor r ds ls last) :
    (ls.filter fun l => divisor ≤ l.current) = ls.filter fun l => 1 ≤ l.quotient := by
  induction h with
  | done => rfl
  | @bring _ _ _ _ l _ _ _ hd hr _ _ ih =>
    have hiff : divisor ≤ l.current ↔ 1 ≤ l.quotient := by
      constructor
      · intro hle
        by_contra hq
        obtain h0 : l.quotient = 0 := by omega
        rw [h0] at hd
        omega
      · intro hq
        have := Nat.mul_le_mul_right divisor hq
        omega
    simp only [List.filter_cons, hiff, ih]

theorem Work.drafts_eq (w : Work) (answer : String) :
    ∃ front final, w.drafts answer =
        front ++ (w.lines.filter fun l => w.whole ≤ l.current).map w.lineDraft ++ [final] ∧
      front.length = (if w.shift = 0 then 1 else 2) ∧
      final.explanation = w.finalExplanation answer ∧
      final.layout.rows = [w.quotientRow (quotientChars w.lines ++
        List.replicate w.padding '0'), w.bracket] := by
  refine ⟨_, _, rfl, ?_, rfl, rfl⟩
  split <;> rfl

/-- **Long division is exact.** Every dividend that is not negative and every divisor above zero
have steps, and they lose nothing. -/
theorem long_division_exact {left right : Number} {d v : Decimal} (hl : left.Denotes d)
    (hr : right.Denotes v) (hd : 0 ≤ d.toRat) (hv : 0 < v.toRat) :
    ∃ p, Problem.ofTask (.written "÷") (.number left) (some (.number right)) = .ok p ∧
      Exact d v p.steps := by
  refine ⟨_, Problem.ofTask_binary rfl (by decide) hl hr hd hv.le fun _ => hv.ne', ?_⟩
  generalize hp : Problem.binary .division hl.term hr.term = p
  have hdrafts : p.drafts = (Work.of d v).drafts (Problem.plain p.result) := by
    rw [← hp]; rfl
  have hanswer : ' ' ∉ (Problem.plain p.result).toList := by
    simpa [Problem.plain] using p.result.exact.blank_not_mem_plain
  have hrun := Work.run (d := d) hv
  obtain ⟨front, final, hpages, hfront, hexpl, hrows⟩ :=
    (Work.of d v).drafts_eq (Problem.plain p.result)
  -- the steps fall into those of the set-up, those of the lines and the last one
  have hshows := Step.ofDrafts_shows p.operation p.operands p.result p.drafts
  rw [hdrafts, hpages] at hshows
  obtain ⟨init, lastStep, hsteps, hinit, hlast⟩ := Step.exists_append hshows
  obtain ⟨setUp, shown, rfl, hset, hshown⟩ := Step.exists_append hinit
  obtain ⟨last, hfinal, rfl⟩ := Step.exists_singleton hlast
  obtain ⟨W, hW, hWval⟩ := Work.number?_quotientRow (d := d) hv
  obtain ⟨R, hR, hRval⟩ := (Work.of d v).statedRemainder?_final hanswer
  refine ⟨Work.whole_eq hv.le, Work.value_digits hd, hrun, setUp, shown, last, ?_, ?_, ?_, W, R,
    ?_, ?_, ?_, ?_⟩
  · rw [Problem.steps, hdrafts, hpages, hsteps]
  · rw [hset.length_eq, hfront]
  · rw [← hrun.filter_shown]
    exact ((List.forall₂_map_right_iff).1 hshown).flip.imp fun _ _ h => narrates_of_shows h
  · rw [hfinal.layout, Layout.numbers_squared, Layout.numbers, hrows]
    simp [hW]
  · rw [hfinal.explanation, hexpl, hR]
  · rw [hWval, hRval, Work.quotient_mul_add hd hv]
  · rw [hRval]
    exact Work.leftOver_lt hv

/-- One divided by six hundredths: the point moves, a zero stays blank, zeros are brought down and
something remains. -/
theorem long_division_exact_six_hundredths :
    (Number.int 1).Denotes ⟨false, 1, 0⟩ ∧ (Number.float 0.06).Denotes ⟨false, 6, -2⟩ ∧
      0 ≤ (⟨false, 1, 0⟩ : Decimal).toRat ∧ 0 < (⟨false, 6, -2⟩ : Decimal).toRat ∧
      ∃ p, Problem.ofTask (.written "÷") (.number (.int 1)) (some (.number (.float 0.06))) = .ok p ∧
        Exact ⟨false, 1, 0⟩ ⟨false, 6, -2⟩ p.steps := by
  have hl : (Number.int 1).Denotes ⟨false, 1, 0⟩ :=
    ⟨rfl, fun i h => by cases h; decide +kernel⟩
  have hr : (Number.float 0.06).Denotes ⟨false, 6, -2⟩ :=
    ⟨by decide +kernel, fun i h => by cases h⟩
  have hd : 0 ≤ (⟨false, 1, 0⟩ : Decimal).toRat := by
    rw [Decimal.toRat_mk]; norm_num
  have hv : 0 < (⟨false, 6, -2⟩ : Decimal).toRat := by
    rw [Decimal.toRat_mk]; norm_num
  exact ⟨hl, hr, hd, hv, long_division_exact hl hr hd hv⟩

end Longhand.Division
