import Longhand.Proofs.ColumnSubtraction
import Longhand.Proofs.ExactCalculation
import Longhand.Proofs.WrittenNumbers
/-!
# The recorded operands are the numbers worked with

The digits on the page are those of the decimal that an operand is written as, while a step records
a whole double as the integer that it is. Both are the same number unless the double is so large that
it is not written as its own value (`Term.isWritten_simplest_iff`). Apart from such doubles the numbers
that an exchanged subtraction compares are the ones that stand in its rows, for the numeral depends on
the number alone (`Decimal.numeral_eq_of_abs_eq`).
-/

namespace Longhand

/-! ## Numerals of equal numbers -/

theorem Digits.trimEnd_concat_zero (ds : List Digit) : trimEnd (ds ++ [0]) = trimEnd ds := by
  simp [trimEnd]

namespace Decimal

/-- A zero at the end of the coefficient makes no difference to the numeral. -/
theorem numeral_concat_zero (negative : Bool) (n : Nat) (e : Int) :
    numeral ⟨negative, n * 10, e - 1⟩ = numeral ⟨negative, n, e⟩ := by
  by_cases hpos : 0 < e
  · have hpow : pow10 e.toNat = 10 * pow10 (e - 1).toNat := by
      rw [← pow10_succ]
      congr 1
      omega
    simp only [numeral]
    rw [if_pos (by omega), if_pos hpos.le, hpow, mul_assoc]
  · obtain ⟨places, rfl⟩ : ∃ places : Nat, e = -(places : Int) := ⟨(-e).toNat, by omega⟩
    have hplaces : (-(-(places : Int) - 1)).toNat = places + 1 := by omega
    have hinteger : n * 10 / pow10 (places + 1) = n / pow10 places := by
      rw [pow10_succ, mul_comm n, Nat.mul_div_mul_left _ _ (by norm_num)]
    have hrest : n * 10 % pow10 (places + 1) = n % pow10 places * 10 := by
      rw [pow10_succ, mul_comm n, Nat.mul_mod_mul_left, mul_comm]
    have hfraction : Digits.trimEnd (Digits.ofNatPadded (places + 1) (n % pow10 places * 10)) =
        Digits.trimEnd (Digits.ofNatPadded places (n % pow10 places)) := by
      have hlast : Digit.ofNat (n % pow10 places * 10) = 0 := Fin.ext (Nat.mul_mod_left _ _)
      rw [Digits.ofNatPadded, hlast, Digits.trimEnd_concat_zero, Nat.mul_div_cancel _ (by norm_num)]
    simp only [numeral]
    rw [if_neg (by omega), hplaces, hinteger, hrest, hfraction]
    split
    · obtain rfl : places = 0 := by omega
      simp [pow10_zero, Digits.ofNatPadded, Digits.trimEnd]
    · simp

theorem numeral_append_zeros (negative : Bool) (n : Nat) (e : Int) (k : Nat) :
    numeral ⟨negative, n * pow10 k, e - k⟩ = numeral ⟨negative, n, e⟩ := by
  induction k with
  | zero => simp [pow10_zero]
  | succ k ih =>
    have hstep := numeral_concat_zero negative (n * pow10 k) (e - k)
    rw [← ih, ← hstep, pow10_succ]
    congr 2
    · ring
    · push_cast
      ring

/-- **Numbers of the same size have the same numeral.** -/
theorem numeral_eq_of_abs_eq {a b : Decimal} (h : |a.toRat| = |b.toRat|) : a.numeral = b.numeral := by
  wlog hle : a.exponent ≤ b.exponent generalizing a b
  · exact (this h.symm (le_of_not_ge hle)).symm
  rw [abs_toRat, abs_toRat] at h
  obtain ⟨k, hk⟩ := Int.eq_ofNat_of_zero_le (Int.sub_nonneg.2 hle)
  have hexponent : a.exponent = b.exponent - k := by omega
  have hcoefficient : a.coefficient = b.coefficient * pow10 k := by
    have hpow := ten_zpow_pos a.exponent
    have hsplit : (10 : ℚ) ^ b.exponent = pow10 k * 10 ^ a.exponent := by
      rw [pow10_eq, ← zpow_natCast, ← ten_zpow_add]
      congr 1
      omega
    rw [hsplit, ← mul_assoc] at h
    exact_mod_cast mul_right_cancel₀ hpow.ne' h
  have hzeros := numeral_append_zeros b.negative b.coefficient b.exponent k
  rw [← hcoefficient, ← hexponent] at hzeros
  exact hzeros

end Decimal

/-- A number that is not negative has one plain notation. -/
theorem Number.IsWritten.plain_eq {n : Number} {d : Decimal} (h : n.IsWritten d.toRat)
    (hd : 0 ≤ d.toRat) : Problem.plain n = String.ofList d.numeral.text := by
  obtain ⟨c, hc, hvalue⟩ := h
  have hplain : n.exact.plain = c.plain := congrArg DecimalValue.plain hc
  rw [Problem.plain, hplain, Decimal.plain_of_nonneg (hvalue ▸ hd),
    Decimal.numeral_eq_of_abs_eq (congrArg _ hvalue)]

/-! ## Terms -/

namespace Term

variable {t : Term}

/-- If the term is a whole double, it is written as its own value. -/
def WrittenAsItself (t : Term) : Prop :=
  ∀ x i, t.number = .float x → Double.toInt? x = some i → t.exact.toRat = i

/-- If the term is a whole double, it has less than fifty-four binary digits. -/
def Small (t : Term) : Prop :=
  ∀ x i, t.number = .float x → Double.toInt? x = some i → i.natAbs < 2 ^ 53

theorem Small.writtenAsItself (h : t.Small) : t.WrittenAsItself := by
  intro x i hx hi
  have hexact := t.exact_eq
  rw [hx] at hexact
  exact Double.toRat_exact_of_toInt? hexact hi (h x i hx hi)

/-- **The recorded number is the number worked with unless a whole double is not written as its own
value.** -/
theorem isWritten_simplest_iff (t : Term) :
    t.number.simplest.IsWritten t.exact.toRat ↔ t.WrittenAsItself := by
  have hwritten : t.number.IsWritten t.exact.toRat := ⟨t.exact, t.exact_eq, rfl⟩
  cases hn : t.number with
  | int i =>
    rw [hn] at hwritten
    refine iff_of_true hwritten fun x j hx => ?_
    rw [hn] at hx
    cases hx
  | float x =>
    rw [hn] at hwritten
    cases hi : Double.toInt? x with
    | none =>
      have hsimplest : (Number.float x).simplest = .float x := by simp only [Number.simplest, hi]
      rw [hsimplest]
      refine iff_of_true hwritten fun y j hy hj => ?_
      rw [hn] at hy
      obtain rfl := Number.float.inj hy
      rw [hi] at hj
      cases hj
    | some i =>
      have hsimplest : (Number.float x).simplest = .int i := by simp only [Number.simplest, hi]
      rw [hsimplest, Number.isWritten_int_iff]
      constructor
      · intro hvalue y j hy hj
        rw [hn] at hy
        obtain rfl := Number.float.inj hy
        obtain rfl := Option.some.inj (hi.symm.trans hj)
        exact hvalue.symm
      · intro h
        exact (h x i hn hi).symm

end Term

/-! ## Steps -/

theorem operands_of_mem_ofDrafts {operation : Operation} {operands : Operands} {result : Number}
    {drafts : List Draft} {s : Step} (h : s ∈ Step.ofDrafts operation operands result drafts) :
    s.operands = operands := by
  simp only [Step.ofDrafts, List.mem_mapIdx] at h
  obtain ⟨i, _, rfl⟩ := h
  rfl

/-- A number stands for a term, as far as the term is written as its own value. -/
structure Term.RecordedAs (t : Term) (n : Number) : Prop where
  written : n.IsWritten t.exact.toRat ↔ t.WrittenAsItself
  small : t.Small → n.IsWritten t.exact.toRat

theorem Term.recordedAs_simplest (t : Term) : t.RecordedAs t.number.simplest :=
  ⟨t.isWritten_simplest_iff, fun h => t.isWritten_simplest_iff.2 h.writtenAsItself⟩

/-- The operands recorded for a problem. -/
def Problem.RecordedAs (o : Operands) : Problem → Prop
  | .negation value => value.RecordedAs o.left ∧ o.right = none
  | .binary _ left right =>
    left.RecordedAs o.left ∧ ∃ n, o.right = some n ∧ right.RecordedAs n

theorem Problem.recordedAs_operands (p : Problem) : p.RecordedAs p.operands := by
  cases p with
  | negation value => exact ⟨value.recordedAs_simplest, rfl⟩
  | binary op left right => exact ⟨left.recordedAs_simplest, _, rfl, right.recordedAs_simplest⟩

/-- A step of an exchanged subtraction says which operand is smaller, and both stand in the rows as
they are named. -/
structure ComparesOperands (left right : Term) (s : Step) : Prop where
  rows : (s.layout.rows.take 2).map Row.compact =
    [right.exact.numeral.text, '-' :: left.exact.numeral.text]
  named : ∃ before l r after,
    s.explanation = before ++ String.ofList l ++ " is smaller than " ++ String.ofList r ++ ", so " ++
      after ∧
    (left.WrittenAsItself → l = left.exact.numeral.text) ∧
    (right.WrittenAsItself → r = right.exact.numeral.text)

namespace Column

/-- The two numerals stand at the top of every page, the bottom one after the sign. -/
theorem compact_rows_of_shows {m : Method} {a : Alignment} {exchanged : Option (String × String)}
    {answer : String} {s : Step} {draft : Draft} (hs : s.Shows draft)
    (hdraft : draft ∈ drafts m a exchanged answer) :
    (s.layout.rows.take 2).map Row.compact = [a.top.text, m.symbol :: a.bottom.text] := by
  obtain ⟨rest, hrest⟩ := rows_of_mem_drafts hdraft
  have hsymbol : m.symbol ≠ ' ' := by cases m <;> decide
  rw [hs.layout]
  simp [Layout.squared, hrest, header, Row.compact_padEnd, Row.compact_blank_cons,
    Row.compact_cons hsymbol, a.holds_top.compact_row, a.holds_bottom.compact_row]

/-- The first and the last page of an exchanged calculation compare the operands. -/
theorem exists_comparing_drafts (m : Method) (a : Alignment) (left right answer : String) :
    ∃ first middle final, drafts m a (some (left, right)) answer = first :: (middle ++ [final]) ∧
      ∀ d ∈ [first, final], ∃ before after,
        d.explanation = before ++ left ++ " is smaller than " ++ right ++ ", so " ++ after := by
  refine ⟨_, _, _, rfl, ?_⟩
  simp only [List.mem_cons, List.not_mem_nil, or_false, forall_eq_or_imp, forall_eq]
  constructor
  · refine ⟨"Write the numbers one above the other, aligning the digits by place value. ",
      "subtract the smaller number from the larger one and make the answer negative.", ?_⟩
    simp [toString, String.append_assoc]
  · refine ⟨"", "the final answer is " ++ answer ++ ".", String.toList_inj.1 ?_⟩
    simp [toString]

end Column

theorem Term.plain_simplest {t : Term} (hnonneg : 0 ≤ t.exact.toRat) (h : t.WrittenAsItself) :
    t.number.simplest.exact.plain = t.exact.numeral.text :=
  String.ofList_injective ((t.isWritten_simplest_iff.2 h).plain_eq hnonneg)

theorem comparesOperands_of_shows {left right : Term} {a : Alignment} {answer : String} {s : Step}
    {draft : Draft} (hs : s.Shows draft) (hl : 0 ≤ left.exact.toRat) (hr : 0 ≤ right.exact.toRat)
    (htop : a.top = right.exact.numeral) (hbottom : a.bottom = left.exact.numeral)
    (hdraft : draft ∈ Column.drafts .subtraction a
      (some (Problem.plain left.number.simplest, Problem.plain right.number.simplest)) answer)
    (hcompares : ∃ before after, draft.explanation = before ++ Problem.plain left.number.simplest ++
      " is smaller than " ++ Problem.plain right.number.simplest ++ ", so " ++ after) :
    ComparesOperands left right s := by
  obtain ⟨before, after, hexplanation⟩ := hcompares
  constructor
  · have hrows := Column.compact_rows_of_shows hs hdraft
    rw [htop, hbottom] at hrows
    exact hrows
  · rw [← hs.explanation] at hexplanation
    exact ⟨before, _, _, after, hexplanation, left.plain_simplest hl, right.plain_simplest hr⟩

/-- The steps of a problem record its operands, and those of an exchanged subtraction compare
them. -/
structure RecordsOperands (p : Problem) : Prop where
  recorded : ∀ s ∈ p.steps, p.RecordedAs s.operands
  compared : ∀ left right, p = .binary .subtraction left right →
    left.exact.toRat < right.exact.toRat → ∃ first shown last,
      p.steps = first :: (shown ++ [last]) ∧ ComparesOperands left right first ∧
        ComparesOperands left right last

theorem Problem.exists_comparing_steps {left right : Term}
    (h : (binary .subtraction left right).check = .ok ())
    (hlt : left.exact.toRat < right.exact.toRat) :
    ∃ first shown last, (binary .subtraction left right).steps = first :: (shown ++ [last]) ∧
      ComparesOperands left right first ∧ ComparesOperands left right last := by
  obtain ⟨hl, hr⟩ := nonneg_of_check (by decide) h
  generalize hp : binary .subtraction left right = p
  have hdrafts : p.drafts = Column.drafts .subtraction ⟨right.exact.numeral, left.exact.numeral⟩
      (some (plain left.number.simplest, plain right.number.simplest)) (plain p.result) := by
    rw [← hp]
    simp only [drafts]
    rw [if_pos ((Decimal.lt_iff _ _).2 hlt)]
  obtain ⟨first, middle, final, hpages, hcompares⟩ := Column.exists_comparing_drafts .subtraction
    ⟨right.exact.numeral, left.exact.numeral⟩ (plain left.number.simplest)
    (plain right.number.simplest) (plain p.result)
  have hshows := Step.ofDrafts_shows p.operation p.operands p.result p.drafts
  rw [hdrafts, hpages] at hshows
  obtain ⟨firstStep, others, hfirst, hothers, hsteps⟩ := List.forall₂_cons_right_iff.1 hshows
  obtain ⟨shown, lastSteps, rfl, -, hfinal⟩ := Step.exists_append hothers
  obtain ⟨last, hlast, rfl⟩ := Step.exists_singleton hfinal
  have hcompare {s : Step} {d : Draft} (hs : s.Shows d) (hd : d ∈ [first, final]) :
      ComparesOperands left right s := by
    have hmem : d ∈ first :: (middle ++ [final]) := by
      rcases List.mem_pair.1 hd with rfl | rfl <;> simp
    rw [← hpages] at hmem
    exact comparesOperands_of_shows hs hl hr rfl rfl hmem (hcompares d hd)
  refine ⟨firstStep, shown, last, ?_, hcompare hfirst (by simp), hcompare hlast (by simp)⟩
  rw [steps, hdrafts, hpages, hsteps]

/-! ## Main result -/

/-- **The recorded operands are the numbers worked with**, exactly as far as whole doubles are written
as their own values. -/
theorem operands_recorded {name : OperationName} {left : Operand} {right : Option Operand}
    {p : Problem} (h : Problem.ofTask name left right = .ok p) :
    p.IsPosedBy name left right ∧ RecordsOperands p := by
  obtain ⟨hposed, hcheck⟩ := Problem.isPosedBy_of_ofTask h
  refine ⟨hposed, ?_, ?_⟩
  · intro s hs
    rw [operands_of_mem_ofDrafts hs]
    exact p.recordedAs_operands
  · rintro l r rfl hlt
    exact Problem.exists_comparing_steps hcheck hlt

/-- A subtraction that is exchanged, with a whole double as the larger operand. -/
theorem operands_recorded_three :
    ∃ p, Problem.ofTask (.written "-") (.number (.float 0.75)) (some (.number (.float 3.0))) =
        .ok p ∧ RecordsOperands p ∧
      ∀ s ∈ p.steps, s.operands.left.IsWritten (3 / 4) ∧
        ∃ n, s.operands.right = some n ∧ n.IsWritten 3 := by
  have hl : (Number.float 0.75).Denotes ⟨false, 75, -2⟩ :=
    ⟨by decide +kernel, fun i h => by cases h⟩
  have hr : (Number.float 3.0).Denotes ⟨false, 30, -1⟩ :=
    ⟨by decide +kernel, fun i h => by cases h⟩
  have hname : (OperationName.written "-").resolve true = .ok (.binary .subtraction) := rfl
  have htask := Problem.ofTask_binary hname (by decide) hl hr (Decimal.toRat_mk_nonneg _ _)
    (Decimal.toRat_mk_nonneg _ _) (by simp)
  have hleft : hl.term.Small := by
    intro x i hx hi
    obtain rfl := Number.float.inj hx
    have hpart : Double.toInt? 0.75 = none := by decide +kernel
    rw [hpart] at hi
    cases hi
  have hright : hr.term.Small := by
    intro x i hx hi
    obtain rfl := Number.float.inj hx
    have hwhole : Double.toInt? 3.0 = some 3 := by decide +kernel
    rw [hwhole] at hi
    obtain rfl := Option.some.inj hi
    decide
  have hleftValue : hl.term.exact.toRat = 3 / 4 := by
    change (⟨false, 75, -2⟩ : Decimal).toRat = _
    rw [Decimal.toRat_mk]
    norm_num
  have hrightValue : hr.term.exact.toRat = 3 := by
    change (⟨false, 30, -1⟩ : Decimal).toRat = _
    rw [Decimal.toRat_mk]
    norm_num
  have hrecords := (operands_recorded htask).2
  refine ⟨_, htask, hrecords, fun s hs => ?_⟩
  obtain ⟨hrecordedLeft, n, hn, hrecordedRight⟩ := hrecords.recorded s hs
  rw [← hleftValue, ← hrightValue]
  exact ⟨hrecordedLeft.small hleft, n, hn, hrecordedRight.small hright⟩

/-- A whole double that is not written as its own value: the page shows the power of ten that it is
written as, and the step compares the integer that it is, which is the smaller one. -/
theorem recorded_operand_not_in_rows :
    ∃ p first, Problem.ofTask (.written "-") (.number (.int 99999999999999995000000))
        (some (.number (.float 1e23))) = .ok p ∧
      p.steps.head? = some first ∧
      first.layout.rows.take 2 = [" 100000000000000000000000".toList,
        "- 99999999999999995000000".toList] ∧
      first.operands = ⟨.int 99999999999999995000000, some (.int 99999999999999991611392)⟩ ∧
      first.explanation = "Write the numbers one above the other, aligning the digits by place " ++
        "value. 99999999999999995000000 is smaller than 99999999999999991611392, so subtract " ++
        "the smaller number from the larger one and make the answer negative." ∧
      ¬ (Number.int 99999999999999991611392).IsWritten (10 ^ 23) := by
  have hl : (Number.int 99999999999999995000000).Denotes ⟨false, 99999999999999995000000, 0⟩ :=
    ⟨rfl, fun i h => by cases h; decide +kernel⟩
  have hr : (Number.float 1e23).Denotes ⟨false, 1, 23⟩ :=
    ⟨by decide +kernel, fun i h => by cases h⟩
  have hname : (OperationName.written "-").resolve true = .ok (.binary .subtraction) := rfl
  have htask := Problem.ofTask_binary hname (by decide) hl hr (Decimal.toRat_mk_nonneg _ _)
    (Decimal.toRat_mk_nonneg _ _) (by simp)
  have hpage : (Problem.binary .subtraction
      ⟨.int 99999999999999995000000, ⟨false, 99999999999999995000000, 0⟩, rfl⟩
      ⟨.float 1e23, ⟨false, 1, 23⟩, by decide +kernel⟩).steps.head?.map (fun s =>
        (s.layout.rows.take 2, s.operands, s.explanation)) = some
      ([" 100000000000000000000000".toList, "- 99999999999999995000000".toList],
        ⟨.int 99999999999999995000000, some (.int 99999999999999991611392)⟩,
        "Write the numbers one above the other, aligning the digits by place " ++
          "value. 99999999999999995000000 is smaller than 99999999999999991611392, so subtract " ++
          "the smaller number from the larger one and make the answer negative.") := by
    decide +kernel
  obtain ⟨first, hfirst, hpage⟩ := Option.map_eq_some_iff.1 hpage
  simp only [Prod.mk.injEq] at hpage
  obtain ⟨hrows, hoperands, hexplanation⟩ := hpage
  refine ⟨_, first, htask, hfirst, hrows, hoperands, hexplanation, ?_⟩
  rw [Number.isWritten_int_iff]
  norm_num

end Longhand
