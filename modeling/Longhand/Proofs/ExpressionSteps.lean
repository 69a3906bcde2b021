import Longhand.Problem.Expression
import Longhand.Proofs.SingleOperations
import Longhand.Proofs.StatedAnswers
/-!
# The steps of an expression against its value

Of an expression with one operator the steps work the two numerals beside it, and of one without an
operator its numeral or the negative of it. The value takes every prefix minus into account, so the
steps end with it if there is no prefix minus, or an odd number of them before a lone numeral
(`last_step_against_value`).
-/

namespace Longhand

namespace Problem

theorem drafts_ne_nil (p : Problem) : p.drafts ≠ [] := by
  cases p with
  | negation value => simp [drafts, negationDrafts]
  | binary op left right =>
    cases op with
    | addition => simp [drafts, Column.drafts]
    | subtraction =>
      simp only [drafts]
      split <;> simp [Column.drafts]
    | multiplication => simp [drafts, Multiplication.drafts]
    | division => simp [drafts, Division.Work.drafts]
    | percentage => simp [drafts, percentageDrafts]

theorem steps_ne_nil (p : Problem) : p.steps ≠ [] := by
  rw [steps, Step.ofDrafts, ne_eq, List.mapIdx_eq_nil_iff]
  exact p.drafts_ne_nil

/-- There is a last step, with the result. -/
theorem exists_last_step (p : Problem) :
    ∃ last, p.steps.getLast? = some last ∧ last.result = p.result :=
  ⟨_, List.getLast?_eq_some_getLast p.steps_ne_nil,
    result_of_mem_steps (List.getLast_mem p.steps_ne_nil)⟩

/-- With a whole exact result the last step has that integer. -/
theorem exists_last_step_of_whole {p : Problem} (h : p.check = .ok ()) {i : Int}
    (hi : p.exactResult = i) : ∃ last, p.steps.getLast? = some last ∧ last.result = .int i := by
  obtain ⟨last, hlast, hresult⟩ := p.exists_last_step
  exact ⟨last, hlast, hresult.trans (result_of_whole h hi)⟩

end Problem

/-- A term whose double is a whole number of at most 53 binary digits. -/
theorem Term.toRat_exact {t : Term} {x : Float} (h : t.number = .float x) {i : Int}
    (hx : Double.toRat? x = some (i : ℚ)) (hlt : i.natAbs < 2 ^ 53) : t.exact.toRat = i := by
  have hexact := t.exact_eq
  rw [h] at hexact
  exact Double.toRat_exact_of_toInt? hexact (Double.toInt?_of_toRat? hx) hlt

/-- The exact result of an operation on whole numbers. -/
theorem Expression.Calculates.exactResult_eq {op : Operator} {f : Int → Int → Int}
    (h : Calculates op f) {left right : Term} {a b : Int} (hl : left.exact.toRat = a)
    (hr : right.exact.toRat = b) : (Problem.binary op left right).exactResult = f a b := by
  cases h <;> simp [Problem.exactResult, hl, hr]

theorem OperationName.resolve_of_symbol {s : String} {op : Operator}
    (h : Operator.ofSymbol? s = some op) : (written s).resolve true = .ok (.binary op) := by
  simp [resolve, h]

namespace ParseResult

open Expression

/-! ## The numerals beside the operator -/

theorem splitAtOperator_of_none {before : Option Token} {ts : List Token}
    (h : ∀ t ∈ ts, t.kind ≠ .operator) : splitAtOperator before ts = none := by
  induction ts generalizing before with
  | nil => rfl
  | cons t ts ih =>
    obtain ⟨ht, hts⟩ := List.forall_mem_cons.1 h
    rw [splitAtOperator, if_neg ht, ih hts]

theorem splitAtOperator_of_first {before : Option Token} {front after : List Token} {op : Token}
    (hfront : ∀ t ∈ front, t.kind ≠ .operator) (hop : op.kind = .operator) :
    splitAtOperator before (front ++ op :: after) = some (front.getLast?.or before, op, after) := by
  induction front generalizing before with
  | nil => simp [splitAtOperator, hop]
  | cons t front ih =>
    obtain ⟨ht, hfront⟩ := List.forall_mem_cons.1 hfront
    rw [List.cons_append, splitAtOperator, if_neg ht, ih hfront]
    simp [List.getLast?_cons]

/-- The numbers right before and right after the operator are the only two there are. -/
theorem numbers_beside {front after : List Token} {op left right l r : Token}
    (hop : op.kind = .operator)
    (hnumbers : (front ++ op :: after).filter (·.kind = .number) = [l, r])
    (hleft : number? front.getLast? = some left) (hright : number? after.head? = some right) :
    left = l ∧ right = r := by
  obtain ⟨hlast, hleftKind⟩ := Option.filter_eq_some_iff.1 hleft
  obtain ⟨hhead, hrightKind⟩ := Option.filter_eq_some_iff.1 hright
  obtain ⟨front, rfl⟩ := List.getLast?_eq_some_iff.1 hlast
  obtain ⟨after, rfl⟩ := List.head?_eq_some_iff.1 hhead
  simp only [decide_eq_true_eq] at hleftKind hrightKind
  simp only [List.append_assoc, List.singleton_append, List.filter_append, List.filter_cons, hop,
    hleftKind, hrightKind, reduceCtorEq, decide_false, decide_true, Bool.false_eq_true, if_false,
    if_true] at hnumbers
  have hlength := congrArg List.length hnumbers
  simp only [List.length_append, List.length_cons, List.length_nil] at hlength
  have hfront : front.filter (·.kind = .number) = [] := List.eq_nil_of_length_eq_zero (by omega)
  rw [hfront, List.nil_append] at hnumbers
  obtain ⟨hl, hrest⟩ := List.cons.inj hnumbers
  exact ⟨hl, (List.cons.inj hrest).1⟩

/-! ## The task of tokens -/

/-- A token is read as the double of a term. -/
def ReadAs (t : Token) (u : Term) : Prop :=
  ∃ x, Double.read? t.value.toList = some x ∧ u.number = .float x

theorem read?_of_tokenValue {t : Token} {x : Float} (h : tokenValue t = .ok x) :
    Double.read? t.value.toList = some x := by
  unfold tokenValue at h
  split at h
  · rename_i y hread
    rw [hread, Except.ok.inj h]
  · cases h

section

variable {ts : List Token} {task : ExpressionTask}

/-- Tokens with an operator ask for an operation on the numbers right before and right after it. -/
theorem exists_operation_of_task {front after : List Token} {op : Token}
    (hfront : ∀ t ∈ front, t.kind ≠ .operator) (hop : op.kind = .operator)
    (h : taskOfTokens (front ++ op :: after) = .ok task) :
    ∃ left right o l r, number? front.getLast? = some left ∧ number? after.head? = some right ∧
      (OperationName.written op.value).resolve true = .ok (.binary o) ∧ ReadAs left l ∧
      ReadAs right r ∧ (Problem.binary o l r).check = .ok () ∧ task = .problem (.binary o l r) := by
  rw [taskOfTokens, splitAtOperator_of_first hfront hop, Option.or_none] at h
  simp only at h
  split at h
  · rename_i left right hleft hright
    obtain ⟨x, hx, h⟩ := exists_of_bind_eq_ok h
    obtain ⟨y, hy, h⟩ := exists_of_bind_eq_ok h
    obtain ⟨p, hproblem, rfl⟩ := exists_of_map_eq_ok h
    obtain ⟨hposed, hcheck⟩ := Problem.isPosedBy_of_ofTask hproblem
    cases p with
    | negation value => cases hposed.2.2
    | binary o l r =>
      obtain ⟨hname, hl, hr⟩ := hposed
      exact ⟨left, right, o, l, r, hleft, hright, hname,
        ⟨x, read?_of_tokenValue hx, (Operand.number.inj hl).symm⟩,
        ⟨y, read?_of_tokenValue hy, (Operand.number.inj (Option.some.inj hr)).symm⟩, hcheck, rfl⟩
  · cases h

/-- Tokens without an operator ask for their number, or for its negative if there is a minus sign. -/
theorem exists_numeral_of_task {t : Token} (hnone : ∀ u ∈ ts, u.kind ≠ .operator)
    (hnumbers : ts.filter (·.kind = .number) = [t]) (h : taskOfTokens ts = .ok task) :
    if ts.any (·.kind = .unaryMinus) then ∃ u, ReadAs t u ∧ task = .problem (.negation u)
    else ∃ x, Double.read? t.value.toList = some x ∧ task = .numeral x := by
  have hfind : ts.find? (·.kind = .number) = some t := by
    rw [← List.head?_filter, hnumbers]
    rfl
  rw [taskOfTokens, splitAtOperator_of_none hnone] at h
  simp only [hfind] at h
  obtain ⟨x, hx, h⟩ := exists_of_bind_eq_ok h
  have hread := read?_of_tokenValue hx
  split at h
  · rename_i hsigns
    rw [if_pos hsigns]
    obtain ⟨p, hproblem, rfl⟩ := exists_of_map_eq_ok h
    obtain ⟨hposed, -⟩ := Problem.isPosedBy_of_ofTask hproblem
    cases p with
    | binary op left right => cases hposed.2.2
    | negation value => exact ⟨value, ⟨x, hread, (Operand.number.inj hposed.2.1).symm⟩, rfl⟩
  · rename_i hsigns
    rw [if_neg hsigns]
    exact ⟨x, hread, (Except.ok.inj h).symm⟩

end

/-! ## Steps -/

/-- A whole numeral is worked with as the integer that it spells. -/
theorem toRat_exact_of_readAs {t : Token} {u : Term} (h : ReadAs t u) {n : Nat} (hn : IsWhole t n) :
    u.exact.toRat = (n : Int) := by
  obtain ⟨x, hread, hu⟩ := h
  obtain ⟨y, hwhole, hy⟩ := hn.read
  obtain rfl := Option.some.inj (hread.symm.trans hwhole)
  have hlt := hn.lt
  exact Term.toRat_exact hu hy (by omega)

/-- The steps of an operation on whole numbers end with its result. -/
theorem last_step_operation {front after : List Token} {op l r : Token} {o : Operator}
    {f : Int → Int → Int} {a b : Nat} (hfront : ∀ t ∈ front, t.kind ≠ .operator)
    (hop : op.kind = .operator) (ho : Operator.ofSymbol? op.value = some o) (hf : Calculates o f)
    (hnumbers : (front ++ op :: after).filter (·.kind = .number) = [l, r])
    (hl : IsWhole l a) (hr : IsWhole r b)
    {task : ExpressionTask} (htask : taskOfTokens (front ++ op :: after) = .ok task)
    {steps : List Step} (hsteps : task.steps = .ok steps) :
    ∃ last, steps.getLast? = some last ∧ last.result = .int (f a b) := by
  obtain ⟨left, right, o', lterm, rterm, hleft, hright, hname, hlterm, hrterm, hcheck, rfl⟩ :=
    exists_operation_of_task hfront hop htask
  obtain ⟨rfl, rfl⟩ := numbers_beside hop hnumbers hleft hright
  obtain rfl := Except.ok.inj hsteps
  obtain rfl : o' = o :=
    Operation.binary.inj (Except.ok.inj (hname.symm.trans (OperationName.resolve_of_symbol ho)))
  exact Problem.exists_last_step_of_whole hcheck
    (hf.exactResult_eq (toRat_exact_of_readAs hlterm hl) (toRat_exact_of_readAs hrterm hr))

/-- The steps of a whole numeral end with it, or with its negative if there is a minus sign. -/
theorem last_step_numeral {ts : List Token} {t : Token} {n : Nat}
    (hnone : ∀ u ∈ ts, u.kind ≠ .operator) (hnumbers : ts.filter (·.kind = .number) = [t])
    (hn : IsWhole t n) {task : ExpressionTask} (htask : taskOfTokens ts = .ok task)
    {steps : List Step} (hsteps : task.steps = .ok steps) :
    ∃ last, steps.getLast? = some last ∧
      last.result = .int (if ts.any (·.kind = .unaryMinus) then -n else n) := by
  have hcases := exists_numeral_of_task hnone hnumbers htask
  split at hcases
  · rename_i hsigns
    obtain ⟨u, hu, rfl⟩ := hcases
    obtain rfl := Except.ok.inj hsteps
    rw [if_pos hsigns]
    refine Problem.exists_last_step_of_whole rfl ?_
    simp [Problem.exactResult, toRat_exact_of_readAs hu hn]
  · rename_i hsigns
    obtain ⟨x, hread, rfl⟩ := hcases
    obtain ⟨y, hwhole, hx⟩ := hn.read
    obtain rfl := Option.some.inj (hread.symm.trans hwhole)
    have hlt := hn.lt
    obtain ⟨c, hexact, -, hc⟩ := Double.exists_exact_of_toRat? hx (by omega)
    have hresult : Number.ofValue (Double.exact x) = .ok (.int n) := by
      rw [hexact, Number.ofValue, Number.ofDecimal_of_whole hc]
    rw [ExpressionTask.steps, ExpressionTask.numeralSteps, hresult] at hsteps
    obtain rfl := Except.ok.inj hsteps
    rw [if_neg hsigns]
    exact ⟨_, rfl, rfl⟩

/-- The steps end with what the post-order asks to be worked. -/
theorem last_step_of_asks {ts post : List Token} {worked value : Int} (hts : ∀ t ∈ ts, Scanned t)
    (horder : PostOrder.ofTokens ts = .ok post) (hasks : Asks post worked value)
    (hone : ts.countP (·.kind = .operator) ≤ 1) {task : ExpressionTask}
    (htask : taskOfTokens ts = .ok task) {steps : List Step} (hsteps : task.steps = .ok steps) :
    ∃ last, steps.getLast? = some last ∧ last.result = .int worked := by
  have hnumbers := filter_number_ofTokens hts horder
  have hmem {t : Token} (ht : t.kind ≠ .parenthesis) := mem_ofTokens_iff hts horder ht
  cases hasks with
  | @numeral t signs n ht hn hs =>
    have hnone : ∀ u ∈ ts, u.kind ≠ .operator := by
      intro u hu hkind
      rcases List.mem_cons.1 ((hmem (by simp [hkind])).2 hu) with rfl | hsign
      · simp [ht] at hkind
      · simp [hs u hsign] at hkind
    have hsigns : ts.any (·.kind = .unaryMinus) = true ↔ signs ≠ [] := by
      rw [List.any_eq_true]
      constructor
      · rintro ⟨u, hu, hkind⟩
        have hkind : u.kind = .unaryMinus := of_decide_eq_true hkind
        rcases List.mem_cons.1 ((hmem (by simp [hkind])).2 hu) with rfl | hsign
        · simp [ht] at hkind
        · exact List.ne_nil_of_mem hsign
      · intro hne
        obtain ⟨u, hu⟩ := List.exists_mem_of_ne_nil _ hne
        have hkind := hs u hu
        exact ⟨u, (hmem (by simp [hkind])).1 (List.mem_cons_of_mem _ hu), by simp [hkind]⟩
    have hnumber : ts.filter (·.kind = .number) = [t] := by
      rw [← hnumbers, List.filter_cons_of_pos (by simp [ht]), hs.filter_number]
    obtain ⟨last, hlast, hresult⟩ := last_step_numeral hnone hnumber hn htask hsteps
    refine ⟨last, hlast, ?_⟩
    rw [hresult]
    by_cases hempty : signs = []
    · simp [hempty, hsigns.not.2 (not_not.2 hempty)]
    · simp [hempty, hsigns.2 hempty]
  | @operation left right op leftSigns rightSigns signs o f a b hl ha hls hr hb hrs hop ho hf hs =>
    obtain ⟨front, after, rfl⟩ := List.append_of_mem ((hmem (by simp [hop])).1 (by simp : op ∈ _))
    have hfront : ∀ t ∈ front, t.kind ≠ .operator := by
      rw [List.countP_append, List.countP_cons_of_pos (by simp [hop])] at hone
      have hnone : front.countP (·.kind = .operator) = 0 := by omega
      simpa [List.countP_eq_zero] using hnone
    have hnumber : (front ++ op :: after).filter (·.kind = .number) = [left, right] := by
      rw [← hnumbers]
      simp [hl, hr, hop, hls.filter_number, hrs.filter_number, hs.filter_number]
    exact last_step_operation hfront hop ho hf hnumber ha hb htask hsteps

end ParseResult

/-! ## Main result -/

namespace Expression

/-- **The last step against the value** of an expression with at most one operator on whole numbers.
The last step has what is worked and the parse result is the value, and these are equal if there is no
prefix minus, or no operator and an odd number of minus signs. -/
theorem last_step_against_value {s : List Char} {ts : List Token} {result : Number}
    (h : parse {} s = .ok (.valid ts result))
    (hnumbers : ∀ t ∈ ts, t.kind = .number → ∃ n < 2 ^ 26, IsWhole t n)
    (hone : ts.countP (·.kind = .operator) ≤ 1)
    (hoperators : ∀ t ∈ ts, t.kind = .operator →
      ∃ op f, Operator.ofSymbol? t.value = some op ∧ Calculates op f)
    {task : ExpressionTask} (htask : (ParseResult.valid ts result).task = .ok task)
    {steps : List Step} (hsteps : task.steps = .ok steps) :
    ∃ post worked value last, PostOrder.ofTokens ts = .ok post ∧ Asks post worked value ∧
      steps.getLast? = some last ∧ last.result = .int worked ∧ result = .int value ∧
      (ts.countP (·.kind = .unaryMinus) = 0 ∨
        ts.countP (·.kind = .operator) = 0 ∧ Odd (ts.countP (·.kind = .unaryMinus)) →
        last.result = result) := by
  obtain ⟨x, heval, hround⟩ := parse_valid h
  obtain ⟨hscan, post, horder, hvalue⟩ := evaluate_ok heval
  have hts := scanned_of_scan hscan
  have hoperatorCount := countP_ofTokens hts horder (p := (·.kind = .operator)) (by simp +contextual)
  have hsignCount := countP_ofTokens hts horder (p := (·.kind = .unaryMinus)) (by simp +contextual)
  have hsingle : Single post := (postfix_of_value hvalue).single (by rwa [hoperatorCount])
  have hpostNumbers : ∀ t ∈ post, t.kind = .number → ∃ n < 2 ^ 26, IsWhole t n := fun t ht hkind =>
    hnumbers t ((mem_ofTokens_iff hts horder (by simp [hkind])).1 ht) hkind
  have hpostOperators : ∀ t ∈ post, t.kind = .operator →
      ∃ op f, Operator.ofSymbol? t.value = some op ∧ Calculates op f := fun t ht hkind =>
    hoperators t ((mem_ofTokens_iff hts horder (by simp [hkind])).1 ht) hkind
  obtain ⟨worked, value, y, hasks, hy, hexact, hlt⟩ := hsingle.value_eq hpostNumbers hpostOperators
  obtain rfl : x = y := Except.ok.inj (hvalue.symm.trans hy)
  have hresult : result = .int value :=
    Double.eq_of_roundHalfUp_eq_ok hexact hlt (by decide : (0 : Int) ≤ 2) hround
  obtain ⟨last, hlast, hworked⟩ := ParseResult.last_step_of_asks hts horder hasks hone htask hsteps
  refine ⟨post, worked, value, last, horder, hasks, hlast, hworked, hresult, fun hsigns => ?_⟩
  rw [← hoperatorCount, ← hsignCount] at hsigns
  rw [hworked, hresult, hasks.worked_eq hsigns]

set_option maxRecDepth 10000 in
/-- The parentheses around a difference change nothing. -/
theorem last_step_against_value_group :
    ∃ ts task steps last, parse {} "((7 - 12))".toList = .ok (.valid ts (.int (-5))) ∧
      (ParseResult.valid ts (.int (-5))).task = .ok task ∧ task.steps = .ok steps ∧
      steps.getLast? = some last ∧ last.result = .int (-5) := by
  let seven : Token := ⟨.number, "7", 2⟩
  let minus : Token := ⟨.operator, "-", 4⟩
  let twelve : Token := ⟨.number, "12", 6⟩
  let ts := [Spelling.parenthesis '(' 0, Spelling.parenthesis '(' 1, seven, minus, twelve,
    Spelling.parenthesis ')' 8, Spelling.parenthesis ')' 9]
  let p : Problem := .binary .subtraction ⟨.float 7, ⟨false, 70, -1⟩, by decide +kernel⟩
    ⟨.float 12, ⟨false, 120, -1⟩, by decide +kernel⟩
  have h : parse {} "((7 - 12))".toList = .ok (.valid ts (.int (-5))) := by decide +kernel
  have htask : (ParseResult.valid ts (.int (-5))).task = .ok (.problem p) := by decide +kernel
  have hseven : IsWhole seven 7 :=
    isWhole_of_digits (by simp : ([7] : List Digit) ≠ []) (by decide) (by decide) (by decide)
  have htwelve : IsWhole twelve 12 :=
    isWhole_of_digits (by simp : ([1, 2] : List Digit) ≠ []) (by decide) (by decide) (by decide)
  have hnumbers : ∀ t ∈ ts, t.kind = .number → ∃ n < 2 ^ 26, IsWhole t n := by
    simp only [ts, List.forall_mem_cons]
    refine ⟨by simp [Spelling.parenthesis], by simp [Spelling.parenthesis],
      fun _ => ⟨7, by decide, hseven⟩, by simp [minus], fun _ => ⟨12, by decide, htwelve⟩,
      by simp [Spelling.parenthesis], by simp [Spelling.parenthesis], by simp⟩
  have hoperators : ∀ t ∈ ts, t.kind = .operator →
      ∃ op f, Operator.ofSymbol? t.value = some op ∧ Calculates op f := by
    simp only [ts, List.forall_mem_cons]
    refine ⟨by simp [Spelling.parenthesis], by simp [Spelling.parenthesis], by simp [seven],
      fun _ => ⟨.subtraction, _, by decide, .subtraction⟩, by simp [twelve],
      by simp [Spelling.parenthesis], by simp [Spelling.parenthesis], by simp⟩
  obtain ⟨post, worked, value, last, -, -, hlast, -, -, hagree⟩ :=
    last_step_against_value h hnumbers (by decide) hoperators htask rfl
  exact ⟨ts, _, _, last, h, htask, rfl, hlast, hagree (.inl (by decide))⟩

set_option maxRecDepth 10000 in
/-- A prefix minus before the left number does not count in the steps. -/
theorem last_step_without_prefix_minus :
    ∃ ts task steps last, parse {} "-2+3".toList = .ok (.valid ts (.int 1)) ∧
      (ParseResult.valid ts (.int 1)).task = .ok task ∧ task.steps = .ok steps ∧
      steps.getLast? = some last ∧ last.result = .int 5 := by
  let p : Problem := .binary .addition ⟨.float 2, ⟨false, 20, -1⟩, by decide +kernel⟩
    ⟨.float 3, ⟨false, 30, -1⟩, by decide +kernel⟩
  have h : parse {} "-2+3".toList = .ok (.valid [Spelling.minus 0, ⟨.number, "2", 1⟩,
      ⟨.operator, "+", 2⟩, ⟨.number, "3", 3⟩] (.int 1)) := by
    decide +kernel
  have htask : (ParseResult.valid [Spelling.minus 0, ⟨.number, "2", 1⟩, ⟨.operator, "+", 2⟩,
      ⟨.number, "3", 3⟩] (.int 1)).task = .ok (.problem p) := by
    decide +kernel
  obtain ⟨last, hlast, hresult⟩ := p.exists_last_step
  have hworked : p.result = .int 5 := by decide +kernel
  exact ⟨_, _, _, last, h, htask, rfl, hlast, hresult.trans hworked⟩

end Expression

end Longhand
