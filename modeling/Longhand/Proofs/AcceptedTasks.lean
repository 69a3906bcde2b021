import Longhand.Proofs.FeasibleProblems
import Longhand.Proofs.StepReplies
/-!
# The tasks that are worked

A task has steps exactly if it is in the domain of the written methods (`InDomain`) and none of
its integers is beyond the doubles. Of the others, those whose operation fits and whose operands are
good until an integer beyond the doubles is met (`MeetsLarge`) are refused as arithmetic, and all
the rest with a fault. These are the three outcomes of one chain of checks
(`Problem.taskOutcome_ofTask`).

Main result: `accepted_tasks`.
-/

namespace Longhand

/-! ## Operations -/

def Operator.symbols : List (String × Operator) :=
  [("+", .addition), ("-", .subtraction), ("×", .multiplication), ("*", .multiplication),
    ("÷", .division), ("/", .division), ("%", .percentage)]

namespace OperationName

/-- What an operation, as it is given, can stand for: itself, a symbol or a name, and a minus for
the negation too. -/
inductive StandsFor : OperationName → Operation → Prop
  | operation (op : Operation) : StandsFor (.operation op) op
  | symbol {s : String} {op : Operator} (h : (s, op) ∈ Operator.symbols) :
      StandsFor (.written s) (.binary op)
  | name (op : Operation) : StandsFor (.written op.name) op
  | minus : StandsFor (.written "-") .negation

theorem mem_symbols_of_ofSymbol? {s : String} {op : Operator} (h : Operator.ofSymbol? s = some op) :
    (s, op) ∈ Operator.symbols := by
  unfold Operator.ofSymbol? at h
  split at h
  · rename_i c hs
    obtain rfl : s = String.ofList [c] := by rw [← hs, String.ofList_toList]
    unfold Operator.ofChar? at h
    split at h <;> simp_all [Operator.symbols]
  · cases h

theorem standsFor_of_eq {name : OperationName} {hasRight : Bool} {op : Operation}
    (h : (match name with
      | .operation op => some op
      | .written s =>
        if s = "-" ∧ !hasRight then some .negation
        else ((Operator.ofSymbol? s).map Operation.binary).or (Operation.ofName? s)) = some op) :
    name.StandsFor op := by
  cases name with
  | operation op' =>
    obtain rfl := Option.some.inj h
    exact .operation op'
  | written s =>
    simp only at h
    split at h
    · rename_i hminus
      obtain rfl := Option.some.inj h
      exact hminus.1 ▸ .minus
    · rcases Option.or_eq_some_iff.1 h with hsymbol | ⟨-, hname⟩
      · obtain ⟨op', hop, rfl⟩ := Option.map_eq_some_iff.1 hsymbol
        exact .symbol (mem_symbols_of_ofSymbol? hop)
      · obtain rfl : op.name = s := by simpa using List.find?_some hname
        exact .name op

theorem standsFor_of_resolve {name : OperationName} {hasRight : Bool} {op : Operation}
    (h : name.resolve hasRight = .ok op) : name.StandsFor op := by
  unfold resolve at h
  simp only at h
  split at h
  · rename_i hop
    split at h
    · cases h
    · obtain rfl := Except.ok.inj h
      exact standsFor_of_eq hop
  · rename_i hop
    split at h
    · obtain rfl := Except.ok.inj h
      exact standsFor_of_eq hop
    · cases h
  · cases h
  · cases h

theorem resolve_of_standsFor {name : OperationName} {hasRight : Bool} {op : Operation}
    (h : name.StandsFor op) (hfits : hasRight = true ↔ op ≠ .negation) :
    name.resolve hasRight = .ok op := by
  cases h with
  | operation op =>
    cases op with
    | negation =>
      obtain rfl : hasRight = false := by simpa using hfits
      rfl
    | binary op =>
      obtain rfl : hasRight = true := by simpa using hfits
      rfl
  | @symbol s op hsymbol =>
    obtain rfl : hasRight = true := by simpa using hfits
    have hall : ∀ x ∈ Operator.symbols, (written x.1).resolve true = .ok (.binary x.2) := by
      decide +kernel
    exact hall _ hsymbol
  | name op =>
    cases op with
    | negation =>
      obtain rfl : hasRight = false := by simpa using hfits
      rfl
    | binary op =>
      obtain rfl : hasRight = true := by simpa using hfits
      cases op <;> rfl
  | minus =>
    obtain rfl : hasRight = false := by simpa using hfits
    rfl

/-- The operation stands for one that takes as many operands as there are. -/
def Resolves (name : OperationName) (hasRight : Bool) : Prop :=
  ∃ op, name.StandsFor op ∧ (hasRight = true ↔ op ≠ .negation)

/-- **What is meant** is what the operation stands for, if it has as many operands as it takes. -/
theorem resolve_eq_ok_iff {name : OperationName} {hasRight : Bool} {op : Operation} :
    name.resolve hasRight = .ok op ↔ name.StandsFor op ∧ (hasRight = true ↔ op ≠ .negation) :=
  ⟨fun h => ⟨standsFor_of_resolve h, hasRight_of_resolve h⟩,
    fun h => resolve_of_standsFor h.1 h.2⟩

end OperationName

/-! ## Operands -/

theorem Number.denotes_int {i : Int} (h : Double.holdsInt i = true) :
    (int i).Denotes (Decimal.ofInt i) :=
  ⟨rfl, fun _ hj => Number.int.inj hj ▸ h⟩

namespace Operand

/-- The operand is a finite number, written as `v`. -/
def IsWritten (o : Operand) (v : ℚ) : Prop :=
  ∃ n : Number, o = .number n ∧ n.IsWritten v

/-- The operand is a number beyond the doubles, as only an integer can be. -/
def TooLarge (o : Operand) : Prop :=
  ∃ v, o.IsWritten v ∧ Double.overflow ≤ |v|

theorem isWritten_number_iff {n : Number} {v : ℚ} : (number n).IsWritten v ↔ n.IsWritten v := by
  constructor
  · rintro ⟨m, hm, h⟩
    exact Operand.number.inj hm ▸ h
  · exact fun h => ⟨n, rfl, h⟩

theorem IsWritten.unique {o : Operand} {v w : ℚ} (hv : o.IsWritten v) (hw : o.IsWritten w) :
    v = w := by
  obtain ⟨n, rfl, hv⟩ := hv
  exact hv.unique (isWritten_number_iff.1 hw)

theorem isWritten_term (t : Term) : (number t.number).IsWritten t.exact.toRat :=
  ⟨t.number, rfl, t.exact, t.exact_eq, rfl⟩

theorem tooLarge_int_iff (i : Int) : (number (.int i)).TooLarge ↔ Double.holdsInt i = false := by
  have hsize : Double.overflow ≤ |(i : ℚ)| ↔ Double.holdsInt i = false := by
    rw [Decimal.overflow_eq, Double.holdsInt, decide_eq_false_iff_not, not_lt, ← Int.cast_abs,
      Int.abs_eq_natAbs]
    exact_mod_cast Iff.rfl
  rw [← hsize]
  constructor
  · rintro ⟨v, hv, h⟩
    rwa [← (Number.isWritten_int_iff i v).1 (isWritten_number_iff.1 hv)] at h
  · exact fun h => ⟨i, isWritten_number_iff.2 ((Number.isWritten_int_iff i _).2 rfl), h⟩

theorem term_of_not_holdsInt {i : Int} (h : Double.holdsInt i = false) :
    (number (.int i)).term = .error (.arithmetic .integerTooLarge) := by
  unfold term
  simp only [Number.exact, h, Bool.false_eq_true, if_false]

theorem not_tooLarge_float (x : Float) : ¬(number (.float x)).TooLarge := by
  rintro ⟨v, hv, hlarge⟩
  obtain ⟨d, hd, rfl⟩ := isWritten_number_iff.1 hv
  exact absurd (Double.abs_exact_lt hd) (not_lt.2 hlarge)

theorem not_tooLarge_of_denotes {n : Number} {d : Decimal} (h : n.Denotes d) :
    ¬(number n).TooLarge := by
  cases n with
  | int i => simp [tooLarge_int_iff, h.holdsInt i rfl]
  | float x => exact not_tooLarge_float x

/-- What comes of looking at an operand. -/
inductive Outcome (o : Operand) : Except StepError Term → Prop
  | accepted (t : Term) (ht : o = .number t.number) (h : t.number.Denotes t.exact) :
      Outcome o (.ok t)
  | tooLarge (h : o.TooLarge) : Outcome o (.error (.arithmetic .integerTooLarge))
  | refused (f : StepFault) (h : ∀ v, ¬o.IsWritten v) : Outcome o (.error (.fault f))

theorem outcome_of_denotes {n : Number} {d : Decimal} (h : n.Denotes d) :
    (number n).Outcome (number n).term := by
  rw [term_number h]
  exact .accepted h.term rfl h

/-- **An operand is accepted** if it is a finite number that is not beyond the doubles. -/
theorem outcome_term (o : Operand) : o.Outcome o.term := by
  have hother (f : StepFault) (h : ∀ n, o ≠ .number n) : o.Outcome (.error (.fault f)) :=
    .refused _ fun v ⟨n, hn, _⟩ => h n hn
  cases o with
  | number n =>
    cases n with
    | int i =>
      cases hholds : Double.holdsInt i with
      | false =>
        rw [term_of_not_holdsInt hholds]
        exact .tooLarge ((tooLarge_int_iff i).2 hholds)
      | true => exact outcome_of_denotes (Number.denotes_int hholds)
    | float x =>
      by_cases hfinite : ∃ d, Double.exact x = .finite d
      · obtain ⟨d, hd⟩ := hfinite
        exact outcome_of_denotes ⟨hd, fun j hj => by cases hj⟩
      · cases hterm : (number (.float x)).term with
        | error e =>
          rw [error_of_term_float hterm]
          refine .refused _ fun v hv => hfinite ?_
          obtain ⟨d, hd, -⟩ := isWritten_number_iff.1 hv
          exact ⟨d, hd⟩
        | ok t =>
          have ht := Operand.number.inj (eq_number_of_term hterm)
          have hexact := t.exact_eq
          rw [← ht] at hexact
          exact absurd ⟨t.exact, hexact⟩ hfinite
  | boolean b => exact hother _ (by simp)
  | text s => exact hother _ (by simp)
  | decimal v => exact hother _ (by simp)

end Operand

/-! ## Tasks -/

/-- The tasks in the domain of the written methods. -/
inductive InDomain (name : OperationName) : Operand → Option Operand → Prop
  | negation {left : Operand} {v : ℚ} (hname : name.StandsFor .negation) (hl : left.IsWritten v) :
      InDomain name left none
  | binary {op : Operator} {left right : Operand} {v w : ℚ} (hname : name.StandsFor (.binary op))
      (hl : left.IsWritten v) (hr : right.IsWritten w) (hsigns : op ≠ .percentage → 0 ≤ v ∧ 0 ≤ w)
      (hdivisor : op = .division → w ≠ 0) : InDomain name left (some right)

/-- The first operand that is no finite number within the doubles is a number beyond them. -/
def MeetsLarge (left : Operand) (right : Option Operand) : Prop :=
  left.TooLarge ∨ (∃ v, left.IsWritten v) ∧ ∃ r, right = some r ∧ r.TooLarge

theorem meetsLarge_none_iff {left : Operand} : MeetsLarge left none ↔ left.TooLarge := by
  simp [MeetsLarge]

theorem meetsLarge_some_iff {left right : Operand} : MeetsLarge left (some right) ↔
    left.TooLarge ∨ (∃ v, left.IsWritten v) ∧ right.TooLarge := by
  simp [MeetsLarge]

namespace Problem

theorem check_eq_ok_iff {op : Operator} {l r : Term} : (binary op l r).check = .ok () ↔
    (op ≠ .percentage → 0 ≤ l.exact.toRat ∧ 0 ≤ r.exact.toRat) ∧
      (op = .division → r.exact.toRat ≠ 0) := by
  constructor
  · refine fun h => ⟨fun hop => nonneg_of_check hop h, ?_⟩
    rintro rfl
    exact (divisor_pos_of_check h).2.ne'
  · rintro ⟨hsigns, hdivisor⟩
    have hnot {d : Decimal} (h : 0 ≤ d.toRat) : d.isNegative = false := by
      rw [Bool.eq_false_iff, ne_eq, d.isNegative_iff]
      exact not_lt.2 h
    have hzero (h : op = .division) : r.exact.isZero = false := by
      rw [Bool.eq_false_iff, ne_eq, r.exact.isZero_iff]
      exact hdivisor h
    by_cases hop : op = .percentage
    · rw [hop]
      rfl
    · obtain ⟨hl, hr⟩ := hsigns hop
      unfold check
      split
      · rfl
      · rfl
      · rename_i hproblem
        obtain ⟨rfl, rfl, rfl⟩ := Problem.binary.inj hproblem
        rw [hnot hl, hnot hr, Bool.or_self, if_neg Bool.false_ne_true, if_neg]
        rintro ⟨hdiv, hz⟩
        rw [hzero hdiv] at hz
        cases hz

section

variable {name : OperationName} {left : Operand} {right : Option Operand}

theorem resolves_of_inDomain (h : InDomain name left right) : name.Resolves right.isSome := by
  cases h with
  | negation hname hl => exact ⟨_, hname, by simp⟩
  | binary hname hl hr hsigns hdivisor => exact ⟨_, hname, by simp⟩

theorem exists_isWritten_of_inDomain (h : InDomain name left right) : ∃ v, left.IsWritten v := by
  cases h with
  | negation hname hl => exact ⟨_, hl⟩
  | binary hname hl hr hsigns hdivisor => exact ⟨_, hl⟩

theorem exists_isWritten_of_meetsLarge (h : MeetsLarge left right) : ∃ v, left.IsWritten v := by
  rcases h with ⟨v, hv, -⟩ | ⟨hv, -⟩
  · exact ⟨v, hv⟩
  · exact hv

/-- The domain in terms of the terms of a task. -/
theorem inDomain_binary_iff {op : Operator} {l r : Term}
    (hname : name.resolve true = .ok (.binary op)) :
    InDomain name (.number l.number) (some (.number r.number)) ↔
      (binary op l r).check = .ok () := by
  rw [check_eq_ok_iff]
  constructor
  · intro h
    cases h with
    | @binary op' _ _ v w hname' hl hr hsigns hdivisor =>
      have hop : name.resolve true = .ok (.binary op') :=
        OperationName.resolve_eq_ok_iff.2 ⟨hname', by simp⟩
      obtain rfl := Operation.binary.inj (Except.ok.inj (hname.symm.trans hop))
      obtain rfl := hl.unique (Operand.isWritten_term l)
      obtain rfl := hr.unique (Operand.isWritten_term r)
      exact ⟨hsigns, hdivisor⟩
  · rintro ⟨hsigns, hdivisor⟩
    exact .binary (OperationName.resolve_eq_ok_iff.1 hname).1 (Operand.isWritten_term l)
      (Operand.isWritten_term r) hsigns hdivisor

/-- How a task comes out: it is worked, or refused as arithmetic for a large number, or refused with
a fault. -/
inductive TaskOutcome (name : OperationName) (left : Operand) (right : Option Operand) :
    Except StepError Problem → Prop
  | worked {p : Problem} (hdomain : InDomain name left right) (hsmall : ¬MeetsLarge left right)
      (hterms : ∀ t ∈ p.terms, t.number.Denotes t.exact) : TaskOutcome name left right (.ok p)
  | tooLarge (hname : name.Resolves right.isSome) (hlarge : MeetsLarge left right) :
      TaskOutcome name left right (.error (.arithmetic .integerTooLarge))
  | refused (f : StepFault) (hdomain : ¬InDomain name left right)
      (hsmall : ¬(name.Resolves right.isSome ∧ MeetsLarge left right)) :
      TaskOutcome name left right (.error (.fault f))

/-- The task of two operands, the first of which has been accepted. -/
theorem taskOutcome_binary {op : Operator} {l : Term} (hl : l.number.Denotes l.exact)
    (hname : name.resolve true = .ok (.binary op)) (right : Operand) :
    TaskOutcome name (.number l.number) (some right)
      (right.term >>= fun r =>
        (binary op l r).check.mapError .fault >>= fun _ => .ok (binary op l r)) := by
  have hresolves : name.Resolves true := ⟨_, OperationName.resolve_eq_ok_iff.1 hname⟩
  have hleft := Operand.not_tooLarge_of_denotes hl
  have hright := right.outcome_term
  generalize right.term = term at hright ⊢
  cases hright with
  | tooLarge h =>
    exact .tooLarge hresolves (meetsLarge_some_iff.2 (.inr ⟨⟨_, Operand.isWritten_term l⟩, h⟩))
  | refused f h =>
    refine .refused f ?_ ?_
    · intro hdomain
      cases hdomain with
      | binary hname hl hr hsigns hdivisor => exact h _ hr
    · rintro ⟨-, hlarge⟩
      rcases meetsLarge_some_iff.1 hlarge with hlarge | ⟨-, v, hv, -⟩
      · exact hleft hlarge
      · exact h v hv
  | accepted r hr hrdenotes =>
    subst hr
    have hsmall : ¬MeetsLarge (.number l.number) (some (.number r.number)) := by
      rw [meetsLarge_some_iff]
      rintro (hlarge | ⟨-, hlarge⟩)
      · exact hleft hlarge
      · exact Operand.not_tooLarge_of_denotes hrdenotes hlarge
    change TaskOutcome _ _ _
      ((binary op l r).check.mapError .fault >>= fun _ => .ok (binary op l r))
    have hdomain := inDomain_binary_iff (l := l) (r := r) hname
    cases hcheck : (binary op l r).check with
    | error f =>
      rw [hcheck] at hdomain
      exact .refused f (fun h => by cases hdomain.1 h) (fun h => hsmall h.2)
    | ok u => exact .worked (hdomain.2 hcheck) hsmall (by simpa [terms] using ⟨hl, hrdenotes⟩)

/-- The operands of a task are looked at in turn. -/
theorem taskOutcome_ofTask (name : OperationName) (left : Operand) (right : Option Operand) :
    TaskOutcome name left right (ofTask name left right) := by
  unfold ofTask
  cases hname : name.resolve right.isSome with
  | error f =>
    have hnot : ¬name.Resolves right.isSome := by
      rintro ⟨op, h⟩
      rw [OperationName.resolve_eq_ok_iff.2 h] at hname
      cases hname
    exact .refused f (fun h => hnot (resolves_of_inDomain h)) (fun h => hnot h.1)
  | ok operation =>
    obtain ⟨hstands, hcount⟩ := OperationName.resolve_eq_ok_iff.1 hname
    have hleft := left.outcome_term
    generalize left.term = term at hleft ⊢
    cases hleft with
    | tooLarge h => exact .tooLarge ⟨operation, hstands, hcount⟩ (.inl h)
    | refused f h =>
      have hnot : ¬∃ v, left.IsWritten v := fun ⟨v, hv⟩ => h v hv
      exact .refused f (fun h => hnot (exists_isWritten_of_inDomain h))
        (fun h => hnot (exists_isWritten_of_meetsLarge h.2))
    | accepted l hl hldenotes =>
      subst hl
      cases right with
      | none =>
        obtain rfl : operation = .negation := by simpa using hcount
        refine .worked (.negation hstands (Operand.isWritten_term l)) ?_ (by simpa [terms])
        rw [meetsLarge_none_iff]
        exact Operand.not_tooLarge_of_denotes hldenotes
      | some right =>
        obtain ⟨op, rfl⟩ : ∃ op, operation = .binary op := by
          cases operation with
          | negation => simp at hcount
          | binary op => exact ⟨op, rfl⟩
        have houtcome := taskOutcome_binary hldenotes hname right
        change TaskOutcome _ _ _ (right.term.map some >>= _)
        cases hterm : right.term with
        | error e =>
          rw [hterm] at houtcome
          exact houtcome
        | ok r =>
          rw [hterm] at houtcome
          exact houtcome

end

/-! ## Main result -/

/-- **The tasks that are accepted** are those of the domain, unless an integer beyond the doubles is
met. Then the task is refused as arithmetic, whatever signs its operands have; every other refusal
is a fault. What is accepted is the problem asked for, and nothing that its method takes for granted
is missing. -/
theorem accepted_tasks (name : OperationName) (left : Operand) (right : Option Operand) :
    ((∃ shown, (ofTask name left right).map steps = .ok shown ∧ shown ≠ []) ↔
        InDomain name left right ∧ ¬MeetsLarge left right) ∧
      (ofTask name left right = .error (.arithmetic .integerTooLarge) ↔
        name.Resolves right.isSome ∧ MeetsLarge left right) ∧
      (∀ e, ofTask name left right = .error e →
        e = .arithmetic .integerTooLarge ∨ ∃ f, e = .fault f) ∧
      ∀ p, ofTask name left right = .ok p →
        p.IsPosedBy name left right ∧ Step.WellFormed p.steps ∧ p.Feasible := by
  have hposed (p : Problem) (h : ofTask name left right = .ok p) := isPosedBy_of_ofTask h
  have houtcome := taskOutcome_ofTask name left right
  generalize ofTask name left right = outcome at hposed houtcome
  cases houtcome with
  | @worked p hdomain hsmall hterms =>
    refine ⟨iff_of_true ⟨_, rfl, p.steps_ne_nil⟩ ⟨hdomain, hsmall⟩,
      iff_of_false (by simp) (fun h => hsmall h.2), by simp, ?_⟩
    intro q hq
    obtain rfl := Except.ok.inj hq
    obtain ⟨hp, hcheck⟩ := hposed p rfl
    exact ⟨hp, p.wellFormed_steps, feasible_of_check hterms hcheck⟩
  | tooLarge hname hlarge =>
    refine ⟨iff_of_false ?_ (fun h => h.2 hlarge), iff_of_true rfl ⟨hname, hlarge⟩, by simp,
      by simp⟩
    rintro ⟨shown, h, -⟩
    cases h
  | refused f hdomain hsmall =>
    refine ⟨iff_of_false ?_ (fun h => hdomain h.1), iff_of_false (by simp) hsmall, ?_, by simp⟩
    · rintro ⟨shown, h, -⟩
      cases h
    · exact fun e he => .inr ⟨f, (Except.error.inj he).symm⟩

/-- A negative operand that is beyond the doubles is not refused for its sign, and a sum in the
domain is refused. -/
theorem large_integer_not_looked_at :
    ¬InDomain (.written "+") (.number (.int (-(pow10 309 : Nat)))) (some (.number (.int 1))) ∧
      ofTask (.written "+") (.number (.int (-(pow10 309 : Nat)))) (some (.number (.int 1))) =
        .error (.arithmetic .integerTooLarge) ∧
      InDomain (.written "+") (.number (.int (pow10 309 : Nat))) (some (.number (.int 1))) ∧
      ofTask (.written "+") (.number (.int (pow10 309 : Nat))) (some (.number (.int 1))) =
        .error (.arithmetic .integerTooLarge) := by
  have hname : (OperationName.written "+").resolve true = .ok (.binary .addition) := rfl
  have hint (i : Int) : (Operand.number (.int i)).IsWritten i :=
    Operand.isWritten_number_iff.2 ((Number.isWritten_int_iff i _).2 rfl)
  refine ⟨?_, by decide +kernel, ?_, by decide +kernel⟩
  · intro h
    cases h with
    | @binary op _ _ v w hop hl hr hsigns hdivisor =>
      have hresolve : (OperationName.written "+").resolve true = .ok (.binary op) :=
        OperationName.resolve_eq_ok_iff.2 ⟨hop, by simp⟩
      obtain rfl := Operation.binary.inj (Except.ok.inj (hname.symm.trans hresolve))
      obtain rfl := hl.unique (hint _)
      have hsign := (hsigns (by decide)).1
      have hpos := pow10_pos 309
      have hle : 0 ≤ -((pow10 309 : Nat) : Int) := by exact_mod_cast hsign
      omega
  · exact .binary (OperationName.resolve_eq_ok_iff.1 hname).1 (hint _) (hint _)
      (fun _ => ⟨by positivity, by positivity⟩) (fun h => by cases h)

end Problem

end Longhand
