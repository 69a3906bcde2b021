import Longhand.Proofs.ColumnAddition
import Longhand.Proofs.ColumnSubtraction
import Longhand.Proofs.ExactCalculation
import Longhand.Proofs.WrittenNumbers
/-!
# The stated answer is the worked answer

The calculation on decimals is exact, and every step carries the exact result if there is a number
that is written as it: always if it is whole, and also with up to fifteen digits
(`Problem.isWritten_result_iff`). A result with more digits after the point than a double holds is
carried as the double it is read as. Where the exact result is carried, the sentence at the end of a
column addition or subtraction states the number in the bottom row (`statedAnswer?_final`).
-/

namespace Longhand

open Double (Canonical Reads parts)

/-! ## The sentence with the answer -/

theorem Text.words_eq {s : String} {before after : List Char}
    (h : s.toList = before ++ ' ' :: after) :
    words s = before.splitOn ' ' ++ after.splitOn ' ' := by
  rw [words, h]
  exact List.splitOnP_append_cons _ _ (by simp)

/-- The number that an explanation ends with, if that is the final answer. -/
def statedAnswer? (explanation : String) : Option Decimal :=
  match (Text.words explanation).reverse with
  | number :: words =>
    if words.take 3 = ["is".toList, "answer".toList, "final".toList] then
      Decimal.read? number.dropLast
    else none
  | [] => none

/-- The final answer is read back. -/
theorem statedAnswer?_of_end {explanation : String} (before : List Char) {number : List Char}
    (hnumber : ' ' ∉ number)
    (h : explanation.toList = before ++ ' ' :: ("final answer is ".toList ++ (number ++ ['.']))) :
    statedAnswer? explanation = Decimal.read? number := by
  have hlast : (number ++ ['.']).splitOn ' ' = [number ++ ['.']] :=
    Text.splitOn_lastWord (by simp [hnumber])
  have hwords : ("final answer is ".toList ++ (number ++ ['.'])).splitOn ' ' =
      ["final".toList, "answer".toList, "is".toList, number ++ ['.']] := by
    have hfinal := Text.splitOn_word (w := "final".toList) (by decide)
      ("answer is ".toList ++ (number ++ ['.']))
    have hanswer := Text.splitOn_word (w := "answer".toList) (by decide)
      ("is ".toList ++ (number ++ ['.']))
    have his := Text.splitOn_word (w := "is".toList) (by decide) (number ++ ['.'])
    rw [hlast] at his
    exact hfinal.trans (congrArg _ (hanswer.trans (congrArg _ his)))
  rw [statedAnswer?, Text.words_eq h, hwords]
  simp

namespace Column

/-- The last page of an addition or subtraction ends with the answer. -/
theorem drafts_eq_concat (m : Method) (a : Alignment) (exchanged : Option (String × String))
    (answer : String) :
    ∃ front final before, drafts m a exchanged answer = front ++ [final] ∧
      final.explanation.toList =
        before ++ ' ' :: ("final answer is ".toList ++ (answer.toList ++ ['.'])) := by
  cases exchanged with
  | none =>
    refine ⟨_, _, "The".toList, rfl, ?_⟩
    simp [toString]
  | some operands =>
    obtain ⟨left, right⟩ := operands
    refine ⟨_, _, left.toList ++ " is smaller than ".toList ++ right.toList ++ ", so the".toList,
      rfl, ?_⟩
    simp [toString]

/-- The last step states the answer. -/
theorem statedAnswer?_final {m : Method} {a : Alignment} {exchanged : Option (String × String)}
    {answer : String} {steps : List Step}
    (hshows : List.Forall₂ Step.Shows steps (drafts m a exchanged answer))
    (hanswer : ' ' ∉ answer.toList) {last : Step} (hlast : steps.getLast? = some last) :
    statedAnswer? last.explanation = Decimal.read? answer.toList := by
  obtain ⟨front, final, before, hdrafts, hend⟩ := drafts_eq_concat m a exchanged answer
  rw [hdrafts] at hshows
  obtain ⟨shown, lastSteps, rfl, -, hfinal⟩ := Step.exists_append hshows
  obtain ⟨step, hstep, rfl⟩ := Step.exists_singleton hfinal
  rw [List.getLast?_concat] at hlast
  obtain rfl := Option.some.inj hlast
  rw [← hstep.explanation] at hend
  exact statedAnswer?_of_end before hanswer hend

end Column

/-! ## Results as numbers -/

namespace Number

/-- A number that is written as `v` states `v` in plain notation. -/
theorem IsWritten.read?_plain {n : Number} {v : ℚ} (h : n.IsWritten v) :
    (Decimal.read? (Problem.plain n).toList).map Decimal.toRat = some v := by
  obtain ⟨c, hc, rfl⟩ := h
  rw [Problem.plain, String.toList_ofList, hc]
  exact c.toRat_read?_plain

theorem blank_not_mem_plain (n : Number) : ' ' ∉ (Problem.plain n).toList := by
  rw [Problem.plain, String.toList_ofList]
  exact n.exact.blank_not_mem_plain

end Number

namespace Problem

variable {p : Problem}

theorem result_of_mem_steps {s : Step} (hs : s ∈ p.steps) : s.result = p.result :=
  Division.result_of_mem_ofDrafts hs

/-- The result is the exact result as a number, or equal to it. -/
theorem result_eq_or (p : Problem) : p.result = Number.ofDecimal p.resultDecimal ∨
    p.result = (Number.ofDecimal p.resultDecimal).simplest := by
  unfold result
  split
  · exact .inr rfl
  · exact .inl rfl

section

variable (h : p.check = .ok ())

include h

/-- **The result is written as the exact result if any number is.** -/
theorem isWritten_result_iff :
    p.result.IsWritten p.exactResult ↔ ∃ n : Number, n.IsWritten p.exactResult := by
  constructor
  · intro hresult
    exact ⟨_, hresult⟩
  · intro hsome
    rw [← toRat_resultDecimal h] at hsome ⊢
    rcases p.result_eq_or with hresult | hresult
    · rw [hresult]
      exact Number.isWritten_ofDecimal hsome
    · rw [hresult]
      exact Number.isWritten_simplest_ofDecimal hsome

/-- A whole result is an integer. -/
theorem result_of_whole {i : Int} (hi : p.exactResult = i) : p.result = .int i := by
  rw [← toRat_resultDecimal h] at hi
  have hint := Number.ofDecimal_of_whole hi
  rcases p.result_eq_or with hresult | hresult
  · rw [hresult, hint]
  · rw [hresult, hint]
    rfl

/-- A result that is not whole is the double that the exact result is read as. -/
theorem toRat?_result (hpart : ∀ i : Int, p.exactResult ≠ i) {m : Nat} {q : Int}
    (hc : Canonical m q) (hm : 0 < m) (hreads : Reads m q |p.exactResult|) :
    p.result.toRat? = some ((if p.exactResult < 0 then -1 else 1) * (m : ℚ) * 2 ^ q) := by
  rw [← toRat_resultDecimal h] at hpart hreads ⊢
  have hzero : p.resultDecimal.isZero = false := by
    rw [Bool.eq_false_iff, ne_eq, Decimal.isZero_iff]
    exact_mod_cast hpart 0
  have hsign : p.resultDecimal.negative = true ↔ p.resultDecimal.toRat < 0 := by
    rw [← p.resultDecimal.isNegative_iff, Decimal.isNegative, hzero, Bool.not_false, Bool.and_true]
  have hdouble : (Number.ofDecimal p.resultDecimal).toRat? =
      some ((if p.resultDecimal.toRat < 0 then -1 else 1) * (m : ℚ) * 2 ^ q) := by
    rw [Number.ofDecimal_of_not_whole hpart, Number.toRat?, Double.toRat?,
      Double.parts_ofDecimal hc hm hreads]
    simp only [hsign]
  rcases p.result_eq_or with hresult | hresult
  · rw [hresult, hdouble]
  · rw [hresult]
    rcases Number.simplest_equals (Number.ofDecimal p.resultDecimal) with hsame | ⟨r, hr, hr'⟩
    · rw [hsame, hdouble]
    · rw [hr, ← hr', hdouble]

end

end Problem

/-! ## Main result -/

/-- The last page of an addition or subtraction agrees with its answer: the bottom row is the exact
result, and the answer is stated as the same number if the steps carry the exact result. -/
structure AnswersAsWorked (p : Problem) (last : Step) : Prop where
  row : ∃ W, last.layout.numbers.getLast? = some (some W) ∧ W.toRat = p.exactResult
  stated : last.result.IsWritten p.exactResult →
    ∃ A, statedAnswer? last.explanation = some A ∧ A.toRat = p.exactResult

/-- The steps of a problem carry its exact result as far as there are numbers for it. -/
structure CarriesResult (p : Problem) : Prop where
  /-- The calculation on decimals is not rounded. -/
  calculation : p.resultDecimal.toRat = p.exactResult
  written : ∀ s ∈ p.steps,
    (s.result.IsWritten p.exactResult ↔ ∃ n : Number, n.IsWritten p.exactResult)
  whole : ∀ s ∈ p.steps, ∀ i : Int, p.exactResult = i → s.result = .int i
  /-- Fifteen digits are enough for a number, unless doubles have fewer digits there. -/
  digits : ∀ s ∈ p.steps, HasDigits 15 p.exactResult → 2 ^ (-1022 : Int) ≤ |p.exactResult| →
    s.result.IsWritten p.exactResult
  /-- Any other part of a whole becomes the double that it is read as. -/
  double : ∀ s ∈ p.steps, (∀ i : Int, p.exactResult ≠ i) → ∀ m q, Canonical m q → 0 < m →
    Reads m q |p.exactResult| →
      s.result.toRat? = some ((if p.exactResult < 0 then -1 else 1) * (m : ℚ) * 2 ^ q)
  answer : p.operation = .binary .addition ∨ p.operation = .binary .subtraction →
    ∃ last, p.steps.getLast? = some last ∧ AnswersAsWorked p last

namespace Problem

/-- The sentence at the end states what the result is written as. -/
theorem stated_of_shows {p : Problem} {m : Column.Method} {a : Alignment}
    {exchanged : Option (String × String)}
    (hdrafts : p.drafts = Column.drafts m a exchanged (plain p.result)) {last : Step}
    (hlast : p.steps.getLast? = some last) {v : ℚ} (hv : last.result.IsWritten v) :
    ∃ A, statedAnswer? last.explanation = some A ∧ A.toRat = v := by
  have hshows := Step.ofDrafts_shows p.operation p.operands p.result p.drafts
  rw [hdrafts] at hshows
  rw [steps, hdrafts] at hlast
  have hresult : last.result = p.result :=
    Division.result_of_mem_ofDrafts (List.mem_of_getLast? hlast)
  rw [Column.statedAnswer?_final hshows p.result.blank_not_mem_plain hlast]
  rw [hresult] at hv
  exact Option.map_eq_some_iff.1 hv.read?_plain

theorem answersAsWorked_addition {left right : Term}
    (h : (binary .addition left right).check = .ok ()) :
    ∃ last, (binary .addition left right).steps.getLast? = some last ∧
      AnswersAsWorked (binary .addition left right) last := by
  obtain ⟨hd, hv⟩ := nonneg_of_check (by decide) h
  generalize hp : binary .addition left right = p
  have hdrafts : p.drafts =
      Column.drafts .addition (Column.addends left.exact right.exact) none (plain p.result) := by
    rw [← hp]
    rfl
  have hshows := Step.ofDrafts_shows p.operation p.operands p.result p.drafts
  rw [hdrafts] at hshows
  obtain ⟨first, shown, last, hsteps, hpages⟩ := Column.exactPages_of_shows hd hv hshows
  rw [← hdrafts] at hsteps
  obtain ⟨n, hn⟩ := hpages.answer
  have hlast : p.steps.getLast? = some last := by
    rw [steps, hsteps, ← List.cons_append, List.getLast?_concat]
  refine ⟨last, hlast, ⟨n.toDecimal, hn.number, ?_⟩, stated_of_shows hdrafts hlast⟩
  rw [hn.toRat_eq, Decimal.toRat_add, ← hp]
  rfl

theorem answersAsWorked_subtraction {left right : Term}
    (h : (binary .subtraction left right).check = .ok ()) :
    ∃ last, (binary .subtraction left right).steps.getLast? = some last ∧
      AnswersAsWorked (binary .subtraction left right) last := by
  obtain ⟨hd, hv⟩ := nonneg_of_check (by decide) h
  obtain ⟨exchanged, hdrafts, hexchanged⟩ := Column.drafts_subtraction left right
  generalize hp : binary .subtraction left right = p at hdrafts
  have hshows := Step.ofDrafts_shows p.operation p.operands p.result p.drafts
  rw [hdrafts] at hshows
  obtain ⟨first, shown, last, hsteps, hpages⟩ :=
    Column.differencePages_of_shows hd hv hshows hexchanged
  rw [← hdrafts] at hsteps
  obtain ⟨W, hW, hvalue⟩ := hpages.answer.number
  have hlast : p.steps.getLast? = some last := by
    rw [steps, hsteps, ← List.cons_append, List.getLast?_concat]
  refine ⟨last, hlast, ⟨W, hW, ?_⟩, stated_of_shows hdrafts hlast⟩
  rw [hvalue, ← hp]
  rfl

theorem carriesResult_of_check {p : Problem} (h : p.check = .ok ()) : CarriesResult p := by
  have hwritten (s : Step) (hs : s ∈ p.steps) :
      s.result.IsWritten p.exactResult ↔ ∃ n : Number, n.IsWritten p.exactResult := by
    rw [result_of_mem_steps hs]
    exact isWritten_result_iff h
  refine ⟨toRat_resultDecimal h, hwritten, ?_, ?_, ?_, ?_⟩
  · intro s hs i hi
    rw [result_of_mem_steps hs]
    exact result_of_whole h hi
  · intro s hs hdigits hsmall
    exact (hwritten s hs).2 (exists_isWritten_of_digits hdigits (.inr hsmall))
  · intro s hs hpart m q hc hm hreads
    rw [result_of_mem_steps hs]
    exact toRat?_result h hpart hc hm hreads
  · intro hop
    cases p with
    | negation value => rcases hop with hop | hop <;> cases hop
    | binary op left right =>
      rcases hop with hop | hop
      · obtain rfl : op = .addition := Operation.binary.inj hop
        exact answersAsWorked_addition h
      · obtain rfl : op = .subtraction := Operation.binary.inj hop
        exact answersAsWorked_subtraction h

end Problem

/-- **The stated answer is the worked answer** of every problem that is worked, as far as there are
numbers for the exact result. -/
theorem worked_answer_carried {name : OperationName} {left : Operand} {right : Option Operand}
    {p : Problem} (h : Problem.ofTask name left right = .ok p) :
    p.IsPosedBy name left right ∧ CarriesResult p := by
  obtain ⟨hposed, hcheck⟩ := Problem.isPosedBy_of_ofTask h
  exact ⟨hposed, Problem.carriesResult_of_check hcheck⟩

/-- Three tenths, which no calculation on doubles gives. -/
theorem worked_answer_carried_three_tenths :
    ∃ p, Problem.ofTask (.written "+") (.number (.float 0.1)) (some (.number (.float 0.2))) = .ok p ∧
      p.exactResult = 3 / 10 ∧ CarriesResult p ∧ ∀ s ∈ p.steps, s.result.IsWritten (3 / 10) := by
  have hl : (Number.float 0.1).Denotes ⟨false, 1, -1⟩ :=
    ⟨by decide +kernel, fun i h => by cases h⟩
  have hr : (Number.float 0.2).Denotes ⟨false, 2, -1⟩ :=
    ⟨by decide +kernel, fun i h => by cases h⟩
  have hname : (OperationName.written "+").resolve true = .ok (.binary .addition) := rfl
  have htask := Problem.ofTask_binary hname (by decide) hl hr (Decimal.toRat_mk_nonneg _ _)
    (Decimal.toRat_mk_nonneg _ _) (by simp)
  have hexact : (Problem.binary .addition hl.term hr.term).exactResult = 3 / 10 := by
    change (⟨false, 1, -1⟩ : Decimal).toRat + (⟨false, 2, -1⟩ : Decimal).toRat = 3 / 10
    rw [Decimal.toRat_mk, Decimal.toRat_mk]
    norm_num
  have hcarries := (worked_answer_carried htask).2
  refine ⟨_, htask, hexact, hcarries, fun s hs => ?_⟩
  rw [← hexact]
  refine hcarries.digits s hs ?_ ?_ <;> rw [hexact]
  · exact ⟨3, -1, by decide, by norm_num⟩
  · rw [abs_of_pos (by norm_num)]
    refine le_trans (zpow_le_zpow_right₀ (by norm_num) (by norm_num : (-1022 : Int) ≤ -2)) ?_
    norm_num

/-- A sum with a digit more than doubles have there: the bottom row ends in three and a half, and the
answer that is stated in four. -/
theorem stated_answer_above_row :
    ∃ p last W A, Problem.ofTask (.written "+") (.number (.int 9007199254740993))
        (some (.number (.float 0.5))) = .ok p ∧
      p.steps.getLast? = some last ∧ last.layout.numbers.getLast? = some (some W) ∧
      W.toRat = p.exactResult ∧ p.exactResult = 9007199254740993 + 1 / 2 ∧
      ¬ last.result.IsWritten p.exactResult ∧
      statedAnswer? last.explanation = some A ∧ A.toRat = 9007199254740994 := by
  have hl : (Number.int 9007199254740993).Denotes ⟨false, 9007199254740993, 0⟩ :=
    ⟨rfl, fun i h => by cases h; decide +kernel⟩
  have hr : (Number.float 0.5).Denotes ⟨false, 5, -1⟩ :=
    ⟨by decide +kernel, fun i h => by cases h⟩
  have hname : (OperationName.written "+").resolve true = .ok (.binary .addition) := rfl
  have htask := Problem.ofTask_binary hname (by decide) hl hr (Decimal.toRat_mk_nonneg _ _)
    (Decimal.toRat_mk_nonneg _ _) (by simp)
  have hexact : (Problem.binary .addition hl.term hr.term).exactResult =
      9007199254740993 + 1 / 2 := by
    change (⟨false, 9007199254740993, 0⟩ : Decimal).toRat + (⟨false, 5, -1⟩ : Decimal).toRat = _
    rw [Decimal.toRat_mk, Decimal.toRat_mk]
    norm_num
  have hpage : (Problem.binary .addition
      ⟨.int 9007199254740993, ⟨false, 9007199254740993, 0⟩, rfl⟩
      ⟨.float 0.5, ⟨false, 5, -1⟩, by decide +kernel⟩).steps.getLast?.map (fun s =>
        (s.result, s.layout.numbers.getLast?, statedAnswer? s.explanation)) =
      some (.float 9007199254740994.0, some (some ⟨false, 90071992547409935, -1⟩),
        some ⟨false, 9007199254740994, 0⟩) := by
    decide +kernel
  obtain ⟨last, hlast, hpage⟩ := Option.map_eq_some_iff.1 hpage
  simp only [Prod.mk.injEq] at hpage
  obtain ⟨hresult, hrow, hstated⟩ := hpage
  refine ⟨_, last, _, _, htask, hlast, hrow, ?_, hexact, ?_, hstated, ?_⟩
  · rw [hexact, Decimal.toRat_mk]
    norm_num
  · have hwritten : (Number.float 9007199254740994.0).IsWritten 9007199254740994 :=
      ⟨⟨false, 90071992547409940, -1⟩, by decide +kernel, by rw [Decimal.toRat_mk]; norm_num⟩
    rw [hresult, hexact]
    intro hsum
    have heq := hsum.unique hwritten
    norm_num at heq
  · rw [Decimal.toRat_mk]
    norm_num

end Longhand
