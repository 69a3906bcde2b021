import Longhand.Proofs.ExpressionSteps
import Longhand.Proofs.FiniteResults
import Longhand.Proofs.RecordedOperands
import Longhand.Proofs.RemoteParsing
/-!
# Replies with steps

Steps are always sent, with null in place of a number that is not finite. The numbers in them are
operands, which are finite because they have been worked with, and results, which are finite unless the
problem overflows (`Problem.result_isFinite_iff`). What tokens may ask for is said once, in
`ParseResult.TaskOf`, and everything else here is a case analysis over it.

Main results, for tokens of any origin: they are answered with steps or with the fault of the task
(`exists_answer_of_answerable`), unless they are unanswerable (`ParseResult.Unanswerable`), and then
they are not answered at all (`error_of_unanswerable`).
-/

namespace Longhand

/-! ## JSON with finite numbers -/

namespace Json

/-- All numbers in the value are finite, so it is sent as it is. -/
def IsStandard (j : Json) : Prop :=
  j.standard = j

theorem isStandard_number_iff (n : Number) : (number n).IsStandard ↔ n.IsFinite := by
  cases n with
  | int i => exact iff_of_true rfl trivial
  | float x => cases hx : x.isFinite <;> simp [IsStandard, standard, Number.IsFinite, hx]

theorem isStandard_nat (n : Nat) : (nat n).IsStandard := rfl

theorem isStandard_text (s : String) : (text s).IsStandard := rfl

theorem isStandard_array_iff (items : List Json) :
    (array items).IsStandard ↔ ∀ j ∈ items, j.IsStandard := by
  have hmap : items.map standard = items.map id ↔ ∀ j ∈ items, j.standard = j := List.map_inj_left
  rwa [List.map_id, ← standardItems_eq, ← array.injEq] at hmap

theorem isStandard_object_iff (members : List (String × Json)) :
    (object members).IsStandard ↔ ∀ m ∈ members, m.2.IsStandard := by
  have hmap : members.map (fun m => (m.1, m.2.standard)) = members.map id ↔
      ∀ m ∈ members, (m.1, m.2.standard) = m := List.map_inj_left
  rw [List.map_id, ← standardMembers_eq, ← object.injEq] at hmap
  exact hmap.trans (forall₂_congr fun m _ => by simp [IsStandard, Prod.ext_iff])

theorem isStandard_map_iff {α : Type} (f : α → Json) (as : List α) :
    (array (as.map f)).IsStandard ↔ ∀ a ∈ as, (f a).IsStandard :=
  (isStandard_array_iff _).trans List.forall_mem_map

theorem isStandard_ofOption_iff {α : Type} (f : α → Json) (o : Option α) :
    (ofOption f o).IsStandard ↔ ∀ a ∈ o, (f a).IsStandard := by
  cases o with
  | none => exact iff_of_true rfl (by simp)
  | some a => simp [ofOption]

theorem isStandard_ofList? {α : Type} {f : α → Json} (hf : ∀ a, (f a).IsStandard)
    (l : Option (List α)) : (ofList? f l).IsStandard := by
  rw [ofList?, isStandard_ofOption_iff]
  intro as _
  rw [isStandard_map_iff]
  exact fun a _ => hf a

theorem membersWithoutNulls_cons {j : Json} (hj : j ≠ .null) (name : String)
    (members : List (String × Json)) : membersWithoutNulls ((name, j) :: members) =
      (name, j.withoutNulls) :: membersWithoutNulls members := by
  cases j with
  | null => exact absurd rfl hj
  | _ => rfl

mutual

/-- The members that are left out hold no numbers. -/
theorem isStandard_withoutNulls_iff : ∀ j : Json, j.withoutNulls.IsStandard ↔ j.IsStandard
  | .null | .bool _ | .number _ | .text _ | .unpaired _ => by rw [withoutNulls] <;> simp
  | .array items => by
    rw [withoutNulls, isStandard_array_iff, isStandard_array_iff]
    exact itemsAreStandard_withoutNulls_iff items
  | .object members => by
    rw [withoutNulls, isStandard_object_iff, isStandard_object_iff]
    exact membersAreStandard_withoutNulls_iff members

theorem itemsAreStandard_withoutNulls_iff : ∀ items : List Json,
    (∀ j ∈ itemsWithoutNulls items, j.IsStandard) ↔ ∀ j ∈ items, j.IsStandard
  | [] => Iff.rfl
  | j :: items => by
    rw [itemsWithoutNulls, List.forall_mem_cons, List.forall_mem_cons,
      isStandard_withoutNulls_iff j, itemsAreStandard_withoutNulls_iff items]

theorem membersAreStandard_withoutNulls_iff : ∀ members : List (String × Json),
    (∀ m ∈ membersWithoutNulls members, m.2.IsStandard) ↔ ∀ m ∈ members, m.2.IsStandard
  | [] => Iff.rfl
  | (name, j) :: members => by
    by_cases hj : j = .null
    · rw [hj, membersWithoutNulls, List.forall_mem_cons,
        membersAreStandard_withoutNulls_iff members]
      exact (and_iff_right rfl).symm
    · rw [membersWithoutNulls_cons hj, List.forall_mem_cons, List.forall_mem_cons,
        isStandard_withoutNulls_iff j, membersAreStandard_withoutNulls_iff members]

end

end Json

/-! ## Steps -/

theorem Highlight.isStandard_toJson (h : Highlight) : h.toJson.IsStandard := rfl

theorem Transfer.isStandard_toJson (t : Transfer) : t.toJson.IsStandard := rfl

theorem Layout.isStandard_toJson (l : Layout) : l.toJson.IsStandard := by
  rw [toJson, Json.isStandard_object_iff]
  simp [Json.isStandard_map_iff, Json.isStandard_text,
    Json.isStandard_ofList? Highlight.isStandard_toJson,
    Json.isStandard_ofList? Transfer.isStandard_toJson]

def Operands.AreFinite (o : Operands) : Prop :=
  o.left.IsFinite ∧ ∀ n ∈ o.right, n.IsFinite

/-- The numbers in a step are its operands and its result. -/
theorem Step.isStandard_toJson_iff (s : Step) :
    s.toJson.IsStandard ↔ s.operands.AreFinite ∧ s.result.IsFinite := by
  rw [toJson, Json.isStandard_object_iff]
  simp [Json.isStandard_object_iff, Json.isStandard_nat, Json.isStandard_text,
    Json.isStandard_number_iff, Json.isStandard_ofOption_iff, s.layout.isStandard_toJson,
    Operands.AreFinite]

/-- A step as it is sent, with null in place of a number that is not finite. -/
def Step.sent (s : Step) : Json :=
  s.toJson.withoutNulls.standard

/-- A step is sent with all its numbers if they are finite. -/
theorem Step.sent_eq_iff (s : Step) :
    s.sent = s.toJson.withoutNulls ↔ s.operands.AreFinite ∧ s.result.IsFinite := by
  rw [← s.isStandard_toJson_iff, ← Json.isStandard_withoutNulls_iff]
  exact Iff.rfl

/-! ## Tasks with doubles -/

theorem Term.number_isFinite (t : Term) : t.number.IsFinite := by
  have heq := t.exact_eq
  cases hnumber : t.number with
  | int i => exact trivial
  | float x =>
    rw [hnumber] at heq
    exact Double.isFinite_of_exact heq

theorem Problem.areFinite_operands (p : Problem) : p.operands.AreFinite := by
  cases p with
  | negation value =>
    exact ⟨(Number.isFinite_simplest_iff _).2 value.number_isFinite, by simp [operands]⟩
  | binary op left right =>
    refine ⟨(Number.isFinite_simplest_iff _).2 left.number_isFinite, ?_⟩
    simpa [operands] using (Number.isFinite_simplest_iff _).2 right.number_isFinite

theorem Json.isPlain_number_iff (n : Number) : (number n).IsPlain ↔ n.IsFinite := by
  cases n with
  | int i => exact iff_of_true rfl trivial
  | float x =>
    cases hx : x.isFinite <;>
      simp [IsPlain, sendError?, obstacle?, hasUnpaired, Number.IsFinite, hx]

/-- The particulars of a fault are plain values. -/
def StepFault.Tellable (f : StepFault) : Prop :=
  ∀ m ∈ f.details, m.2.IsPlain

theorem OperationName.tellable_of_resolve {name : OperationName} {hasRight : Bool} {f : StepFault}
    (h : name.resolve hasRight = .error f) : f.Tellable := by
  unfold resolve at h
  simp only at h
  split at h
  · split at h
    · obtain rfl := Except.error.inj h
      simp [StepFault.Tellable, StepFault.details]
    · cases h
  · split at h
    · cases h
    · obtain rfl := Except.error.inj h
      simp [StepFault.Tellable, StepFault.details, Json.IsPlain.text]
  · obtain rfl := Except.error.inj h
    simp [StepFault.Tellable, StepFault.details, Json.IsPlain.text]
  · obtain rfl := Except.error.inj h
    simp [StepFault.Tellable, StepFault.details, Json.IsPlain.text]

theorem Problem.tellable_of_check {p : Problem} {f : StepFault} (h : p.check = .error f) :
    f.Tellable := by
  unfold check at h
  split at h
  · cases h
  · cases h
  · split at h
    · obtain rfl := Except.error.inj h
      simp [StepFault.Tellable, StepFault.details, Json.isPlain_number_iff, Term.number_isFinite]
    · split at h
      · obtain rfl := Except.error.inj h
        simp [StepFault.Tellable, StepFault.details]
      · cases h

/-- A double is refused as an operand only for not being finite. -/
theorem Operand.error_of_term_float {x : Float} {e : StepError}
    (h : (number (.float x)).term = .error e) : e = .fault .notFinite := by
  unfold term at h
  simp only at h
  split at h
  · rename_i hint _
    cases hint
  · cases h
  · exact (Except.error.inj h).symm

namespace Problem

variable {name : OperationName} {x : Float} {y : Option Float}

/-- **A task with doubles is refused with a fault that can be told**, if it is refused. -/
theorem tellable_of_ofTask {e : StepError}
    (h : ofTask name (.number (.float x)) (y.map fun y => .number (.float y)) = .error e) :
    ∃ f, e = .fault f ∧ f.Tellable := by
  have hfinite : StepFault.Tellable .notFinite := by simp [StepFault.Tellable, StepFault.details]
  unfold ofTask at h
  rcases error_cases_of_bind h with hname | ⟨operation, hname, h⟩
  · obtain ⟨f, hf, rfl⟩ := exists_of_mapError_eq_error hname
    exact ⟨f, rfl, OperationName.tellable_of_resolve hf⟩
  rcases error_cases_of_bind h with hleft | ⟨left, -, h⟩
  · exact ⟨_, Operand.error_of_term_float hleft, hfinite⟩
  rcases error_cases_of_bind h with hright | ⟨right, -, h⟩
  · cases y with
    | none => cases hright
    | some y => exact ⟨_, Operand.error_of_term_float (eq_error_of_map hright), hfinite⟩
  have hcheck {p : Problem} (h : (p.check.mapError StepError.fault >>= fun _ => .ok p) = .error e) :
      ∃ f, e = .fault f ∧ f.Tellable := by
    rcases error_cases_of_bind h with hfault | ⟨_, -, h⟩
    · obtain ⟨f, hf, rfl⟩ := exists_of_mapError_eq_error hfault
      exact ⟨f, rfl, tellable_of_check hf⟩
    · cases h
  split at h
  · exact hcheck h
  · exact hcheck (p := .negation left) h

end Problem

/-! ## What tokens ask for -/

namespace ParseResult

/-- The first operator, with the tokens on either side of it. -/
theorem exists_of_splitAtOperator {ts after : List Token} {before last : Option Token} {op : Token}
    (h : splitAtOperator before ts = some (last, op, after)) :
    op.kind = .operator ∧ ∃ front, ts = front ++ op :: after ∧ last = front.getLast?.or before := by
  induction ts generalizing before with
  | nil => cases h
  | cons t rest ih =>
    rw [splitAtOperator] at h
    split at h
    · rename_i hkind
      obtain ⟨rfl, rfl, rfl⟩ : before = last ∧ t = op ∧ rest = after := by simpa using h
      exact ⟨hkind, [], rfl, rfl⟩
    · obtain ⟨hkind, front, rfl, rfl⟩ := ih h
      refine ⟨hkind, t :: front, rfl, ?_⟩
      cases hlast : front.getLast? <;> simp [List.getLast?_cons, hlast]

theorem kind_of_splitAtOperator {ts : List Token} {before : Option Token}
    (h : splitAtOperator before ts = none) : ∀ t ∈ ts, t.kind ≠ .operator := by
  induction ts generalizing before with
  | nil => simp
  | cons t rest ih =>
    rw [splitAtOperator] at h
    split at h
    · cases h
    · rename_i hkind
      exact List.forall_mem_cons.2 ⟨hkind, ih h⟩

theorem number?_eq_some {t : Option Token} {u : Token} (h : number? t = some u) :
    t = some u ∧ u.kind = .number := by
  simpa [number?, Option.filter_eq_some_iff] using h

/-- How the task of tokens comes about: they are refused with a fault that can be told, or for a
token that is no numeral, or they ask for a problem with doubles or for a lone numeral. -/
inductive TaskOf (ts : List Token) : Except StepError ExpressionTask → Prop
  | fault {f : StepFault} (h : f.Tellable) : TaskOf ts (.error (.fault f))
  | notNumeral {t : Token} (ht : t ∈ ts) (hkind : t.kind = .number)
      (h : Double.read? t.value.toList = none) : TaskOf ts (.error (.notNumeral t.value))
  | operation {front after : List Token} {left op right : Token} {x y : Float} {o : Operator}
      {l r : Term} (hts : ts = front ++ left :: op :: right :: after)
      (hleft : left.kind = .number) (hop : op.kind = .operator) (hright : right.kind = .number)
      (hx : Double.read? left.value.toList = some x) (hl : l.number = .float x)
      (hy : Double.read? right.value.toList = some y) (hr : r.number = .float y)
      (hcheck : (Problem.binary o l r).check = .ok ()) :
      TaskOf ts (.ok (.problem (.binary o l r)))
  | negation {t : Token} {x : Float} {value : Term} (ht : t ∈ ts) (hkind : t.kind = .number)
      (hx : Double.read? t.value.toList = some x) (hvalue : value.number = .float x) :
      TaskOf ts (.ok (.problem (.negation value)))
  | numeral {t : Token} {x : Float} (hops : ∀ u ∈ ts, u.kind ≠ .operator)
      (hsigns : ∀ u ∈ ts, u.kind ≠ .unaryMinus) (ht : t ∈ ts) (hkind : t.kind = .number)
      (hx : Double.read? t.value.toList = some x) : TaskOf ts (.ok (.numeral x))

section

variable {ts : List Token} {x : Float}

/-- An operator with a numeral on either side. -/
theorem taskOf_operation {front after : List Token} {left op right : Token} {y : Float}
    (hts : ts = front ++ left :: op :: right :: after) (hleft : left.kind = .number)
    (hop : op.kind = .operator) (hright : right.kind = .number)
    (hx : Double.read? left.value.toList = some x)
    (hy : Double.read? right.value.toList = some y) :
    TaskOf ts (.problem <$> Problem.ofTask (.written op.value) (.number (.float x))
      (some (.number (.float y)))) := by
  cases h : Problem.ofTask (.written op.value) (.number (.float x))
      (some (.number (.float y))) with
  | error e =>
    obtain ⟨f, rfl, hf⟩ := Problem.tellable_of_ofTask (y := some y) h
    exact .fault hf
  | ok p =>
    obtain ⟨hposed, hcheck⟩ := Problem.isPosedBy_of_ofTask h
    cases p with
    | negation value => cases hposed.2.2
    | binary o l r =>
      obtain ⟨-, hl, hr⟩ := hposed
      exact .operation hts hleft hop hright hx (Operand.number.inj hl).symm hy
        (Operand.number.inj (Option.some.inj hr)).symm hcheck

/-- A numeral with a sign. -/
theorem taskOf_negation {t : Token} (ht : t ∈ ts) (hkind : t.kind = .number)
    (hx : Double.read? t.value.toList = some x) :
    TaskOf ts (.problem <$> Problem.ofTask (.written "-") (.number (.float x)) none) := by
  cases h : Problem.ofTask (.written "-") (.number (.float x)) none with
  | error e =>
    obtain ⟨f, rfl, hf⟩ := Problem.tellable_of_ofTask (y := none) h
    exact .fault hf
  | ok p =>
    obtain ⟨hposed, -⟩ := Problem.isPosedBy_of_ofTask h
    cases p with
    | negation value => exact .negation ht hkind hx (Operand.number.inj hposed.2.1).symm
    | binary o l r => cases hposed.2.2

end

/-- **The task of tokens**: that of the operator that comes first and the numerals beside it, or of a
lone numeral. -/
theorem taskOf_taskOfTokens (ts : List Token) : TaskOf ts (taskOfTokens ts) := by
  have hunsuitable : TaskOf ts (.error (.fault .unsuitable)) :=
    .fault (by simp [StepFault.Tellable, StepFault.details])
  unfold taskOfTokens
  split
  · rename_i before op after hsplit
    obtain ⟨hop, front, rfl, rfl⟩ := exists_of_splitAtOperator hsplit
    split
    · rename_i left right hbefore hafter
      obtain ⟨hlast, hleft⟩ := number?_eq_some hbefore
      obtain ⟨hhead, hright⟩ := number?_eq_some hafter
      rw [Option.or_none] at hlast
      obtain ⟨front, rfl⟩ := List.getLast?_eq_some_iff.1 hlast
      obtain ⟨after, rfl⟩ := List.head?_eq_some_iff.1 hhead
      rw [tokenValue, tokenValue]
      cases hx : Double.read? left.value.toList with
      | none => exact .notNumeral (by simp) hleft hx
      | some x =>
        cases hy : Double.read? right.value.toList with
        | none => exact .notNumeral (by simp) hright hy
        | some y =>
          exact taskOf_operation (List.append_assoc front [left] (op :: right :: after)) hleft hop
            hright hx hy
    · exact hunsuitable
  · rename_i hsplit
    split
    · exact hunsuitable
    · rename_i t hfind
      have ht := List.mem_of_find?_eq_some hfind
      have hkind : t.kind = .number := by simpa using List.find?_some hfind
      rw [tokenValue]
      cases hx : Double.read? t.value.toList with
      | none => exact .notNumeral ht hkind hx
      | some x =>
        change TaskOf ts (if _ then _ else _)
        split
        · exact taskOf_negation ht hkind hx
        · rename_i hsigns
          refine .numeral (kind_of_splitAtOperator hsplit) (fun u hu hminus => hsigns ?_) ht hkind hx
          exact List.any_eq_true.2 ⟨u, hu, decide_eq_true hminus⟩

/-- The problem that tokens ask for has doubles and has passed its check. -/
theorem TaskOf.problem {ts : List Token} {p : Problem} (h : TaskOf ts (.ok (.problem p))) :
    p.OfDoubles ∧ p.check = .ok () := by
  cases h with
  | operation hts hleft hop hright hx hl hy hr hcheck => exact ⟨⟨⟨_, hl⟩, ⟨_, hr⟩⟩, hcheck⟩
  | negation ht hkind hx hvalue => exact ⟨⟨_, hvalue⟩, rfl⟩

/-- Why the steps of tokens cannot be told. -/
inductive Unanswerable (ts : List Token) : Service.Failure → Prop
  /-- A token is to be worked with and is no numeral. -/
  | notNumeral {text : String} (h : taskOfTokens ts = .error (.notNumeral text)) :
      Unanswerable ts (.notNumeral text)
  /-- A lone numeral is too large for a double. -/
  | infinite {x : Float} {negative : Bool} (h : taskOfTokens ts = .ok (.numeral x))
      (hx : Double.exact x = .infinity negative) : Unanswerable ts (.arithmetic .infiniteInteger)

end ParseResult

/-! ## The step that shows a numeral -/

namespace ExpressionTask

/-- There is one step for a numeral, unless it is too large for a double. -/
theorem numeralSteps_cases (x : Float) :
    (∃ s : Step, numeralSteps x = .ok [s] ∧
      (s.operands.AreFinite ∧ s.result.IsFinite ↔ x.isFinite = true) ∧
      ∀ negative, Double.exact x ≠ .infinity negative) ∨
    ∃ negative, Double.exact x = .infinity negative ∧ numeralSteps x = .error .infiniteInteger := by
  have hleft : (Number.float x).simplest.IsFinite ↔ x.isFinite = true :=
    Number.isFinite_simplest_iff _
  unfold numeralSteps Double.exact
  cases hparts : Double.parts x with
  | nan =>
    have hnan : ¬Double.nan.isFinite = true := by decide +kernel
    refine .inl ⟨_, rfl, iff_of_false (fun h => hnan h.2) fun hx => ?_, by simp⟩
    obtain ⟨d, hexact, -⟩ := Double.moderate_exact hx
    rw [Double.exact, hparts] at hexact
    cases hexact
  | infinity negative => exact .inr ⟨negative, rfl, rfl⟩
  | finite negative m q =>
    have hx := Double.isFinite_of_parts hparts
    have hexact : Double.exact x = .finite (Double.ofParts negative m q) := by
      rw [Double.exact, hparts]
    have hresult := Number.isFinite_ofDecimal (Double.abs_exact_lt hexact)
    exact .inl ⟨_, rfl, iff_of_true ⟨⟨hleft.2 hx, by simp⟩, hresult⟩ hx, by simp⟩

end ExpressionTask

/-- **The steps of a problem are sent with all their numbers**, unless the result is too large. -/
theorem Problem.sent_steps_iff {p : Problem} (hp : p.OfDoubles) (hcheck : p.check = .ok ()) :
    (∀ s ∈ p.steps, s.sent = s.toJson.withoutNulls) ↔ ¬p.Overflows := by
  have hstep : ∀ s ∈ p.steps, (s.sent = s.toJson.withoutNulls ↔ ¬p.Overflows) := by
    intro s hs
    rw [s.sent_eq_iff, operands_of_mem_ofDrafts hs, Problem.result_of_mem_steps hs,
      and_iff_right p.areFinite_operands, result_isFinite_iff hp hcheck]
  obtain ⟨s, hs⟩ := List.exists_mem_of_ne_nil _ p.steps_ne_nil
  exact ⟨fun h => (hstep s hs).1 (h s hs), fun h t ht => (hstep t ht).2 h⟩

/-! ## Replies -/

namespace Service

open ParseResult

/-- The steps as they are sent, with the query. -/
def sentSteps (query : String) (steps : List Step) : Json :=
  .object [("expression", .text query), ("steps", .array (steps.map Step.sent))]

theorem standard_stepsBody (query : String) (steps : List Step) :
    (stepsBody (some query) steps).standard = sentSteps query steps := by
  have hitems : Json.standardItems (Json.itemsWithoutNulls (steps.map Step.toJson)) =
      steps.map Step.sent := by
    induction steps with
    | nil => rfl
    | cons s steps ih =>
      rw [List.map_cons, Json.itemsWithoutNulls, Json.standardItems, ih]
      rfl
  rw [sentSteps, ← hitems]
  rfl

/-- What answers a request for the steps of a query that has a parse result: its steps, the fault of
its task, or the fault of the expression. -/
inductive Answers (id query : String) : ParseResult → Nat × ReplyBody → Prop
  | worked {ts : List Token} {result : Number} {task : ExpressionTask} {steps : List Step}
      (htask : taskOfTokens ts = .ok task) (hsteps : task.steps = .ok steps) (hne : steps ≠ []) :
      Answers id query (.valid ts result) (200, .json (sentSteps query steps))
  | refused {ts : List Token} {result : Number} {f : StepFault}
      (h : taskOfTokens ts = .error (.fault f)) :
      Answers id query (.valid ts result) (422, (stepFault id f).body)
  | faulty (ts : List Token) (message : String) (code : Option String) :
      Answers id query (.invalid ts message code)
        (400, (Reply.ofError id 400 (failureCode code) (.text message) []).body)

section

variable (room : Json.Room) (id query : String) (ts : List Token) (result : Number)

theorem sent_of_fault {f : StepFault} (h : taskOfTokens ts = .error (.fault f)) (hf : f.Tellable) :
    sent room.writing (stepsOfResult id query (.valid ts result)) =
      .ok (422, (stepFault id f).body) := by
  have hsent : (stepFault id f).body.sendError? room.writing = none :=
    sendError?_ofError_text id StepFault.code 422 f.message hf room
  rw [stepsOfResult, task, h]
  simp only [sent, bind, Except.bind, hsent]
  rfl

theorem sent_of_steps {task : ExpressionTask} {steps : List Step}
    (h : taskOfTokens ts = .ok task) (hsteps : task.steps = .ok steps) :
    sent room.writing (stepsOfResult id query (.valid ts result)) =
      .ok (200, .json (sentSteps query steps)) := by
  rw [stepsOfResult, ParseResult.task, h, ← standard_stepsBody]
  simp only [hsteps]
  rfl

/-- **Unanswerable tokens are not answered.** -/
theorem error_of_unanswerable {e : Failure} (h : Unanswerable ts e) :
    stepsOfResult id query (.valid ts result) = .error e := by
  cases h with
  | notNumeral h => rw [stepsOfResult, task, h]
  | @infinite x negative h hx =>
    rcases ExpressionTask.numeralSteps_cases x with ⟨s, -, -, hfinite⟩ | ⟨negative, -, he⟩
    · exact absurd hx (hfinite negative)
    · rw [stepsOfResult, task, h]
      simp only [ExpressionTask.steps, he]

/-- **All other tokens are answered**, with steps or with the fault of the task. -/
theorem exists_answer_of_answerable (h : ∀ e, ¬Unanswerable ts e) :
    ∃ a, sent room.writing (stepsOfResult id query (.valid ts result)) = .ok a ∧
      Answers id query (.valid ts result) a := by
  have hcases := taskOf_taskOfTokens ts
  cases htask : taskOfTokens ts with
  | error e =>
    rw [htask] at hcases
    cases hcases with
    | fault hf => exact ⟨_, sent_of_fault room id query ts result htask hf, .refused htask⟩
    | notNumeral => exact absurd (.notNumeral htask) (h _)
  | ok task =>
    cases task with
    | problem p =>
      exact ⟨_, sent_of_steps room id query ts result htask rfl, .worked htask rfl p.steps_ne_nil⟩
    | numeral x =>
      rcases ExpressionTask.numeralSteps_cases x with ⟨s, hs, -, -⟩ | ⟨negative, hx, -⟩
      · exact ⟨_, sent_of_steps room id query ts result htask hs, .worked htask hs (by simp)⟩
      · exact absurd (.infinite htask hx) (h _)

end

/-- The fault of an expression is told as it is. -/
theorem sent_of_invalid (room : Json.Room) (id query : String) (ts : List Token) (message : String)
    (code : Option String) : sent room.writing (stepsOfResult id query (.invalid ts message code)) =
      .ok (400, (Reply.ofError id 400 (failureCode code) (.text message) []).body) := by
  have hsent : (Reply.ofError id 400 (failureCode code) (.text message) []).body.sendError?
      room.writing = none :=
    sendError?_ofError_text id (failureCode code) 400 message (by simp) room
  simp only [stepsOfResult, sent, bind, Except.bind, hsent]
  rfl

end Service

end Longhand
