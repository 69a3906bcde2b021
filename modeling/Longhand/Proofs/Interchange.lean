import Longhand.Expression.Parse
import Longhand.Proofs.Outcomes
import Longhand.Proofs.ParseOutcome
/-!
# Tokens that stand for each other

The conversion into post-order and the evaluation look at a token's kind, at what operator or number
its text spells, and at whether the text is an opening parenthesis; its position and its text come up
again only in faults. So two runs on tokens that agree in what is looked at (`Interchange`) go the same
way: token after token they keep related tokens on the stack and put related tokens out
(`Interchange.convert`), and they find the same value or related faults (`Interchange.evaluateTokens`).
-/

namespace Longhand

/-- Under `R` tokens stand for each other, and under `E` so do the faults that tell of them. -/
structure Interchange (E : ExpressionFault → ExpressionFault → Prop) (R : Token → Token → Prop) :
    Prop where
  kind_eq {t t' : Token} (h : R t t') : t.kind = t'.kind
  opens_eq {t t' : Token} (h : R t t') : PostOrder.opens t = PostOrder.opens t'
  symbol_eq {t t' : Token} (h : R t t') : Operator.ofSymbol? t.value = Operator.ofSymbol? t'.value
  read_eq {t t' : Token} (h : R t t') (hkind : t.kind = .number) :
    Double.read? t.value.toList = Double.read? t'.value.toList
  invalidNumber {t t' : Token} (h : R t t') (hkind : t.kind = .number) :
    E (.invalidNumber t.value t.position) (.invalidNumber t'.value t'.position)
  unknownOperator {t t' : Token} (h : R t t') (hkind : t.kind = .operator)
    (hnone : Operator.ofSymbol? t.value = none) :
    E (.unknownOperator t.value) (.unknownOperator t'.value)
  insufficientOperands {t t' : Token} (h : R t t') :
    E (.insufficientOperands t.position) (.insufficientOperands t'.position)
  strayParenthesis {t t' : Token} (h : R t t') :
    E (.strayParenthesis t.position) (.strayParenthesis t'.position)
  mismatched : E .mismatched .mismatched
  incomplete : E .incomplete .incomplete
  divisionByZero : E .divisionByZero .divisionByZero

namespace Interchange

open PostOrder

/-! ## Related lists -/

section

variable {R : Token → Token → Prop} {p : Token → Bool}

theorem takeWhile (hp : ∀ t t', R t t' → p t = p t') {ts ts' : List Token}
    (h : List.Forall₂ R ts ts') : List.Forall₂ R (ts.takeWhile p) (ts'.takeWhile p) := by
  induction h with
  | nil => exact .nil
  | cons h hs ih =>
    rw [List.takeWhile_cons, List.takeWhile_cons, ← hp _ _ h]
    split
    · exact .cons h ih
    · exact .nil

theorem dropWhile (hp : ∀ t t', R t t' → p t = p t') {ts ts' : List Token}
    (h : List.Forall₂ R ts ts') : List.Forall₂ R (ts.dropWhile p) (ts'.dropWhile p) := by
  induction h with
  | nil => exact .nil
  | cons h hs ih =>
    rw [List.dropWhile_cons, List.dropWhile_cons, ← hp _ _ h]
    split
    · exact ih
    · exact .cons h hs

theorem any_eq (hp : ∀ t t', R t t' → p t = p t') {ts ts' : List Token}
    (h : List.Forall₂ R ts ts') : ts.any p = ts'.any p := by
  induction h with
  | nil => rfl
  | cons h hs ih => rw [List.any_cons, List.any_cons, hp _ _ h, ih]

end

variable {E : ExpressionFault → ExpressionFault → Prop} {R : Token → Token → Prop}
  (hR : Interchange E R)

include hR

theorem bindsFirst_eq (precedence : Nat) {t t' : Token} (h : R t t') :
    bindsFirst precedence t = bindsFirst precedence t' := by
  rw [bindsFirst, bindsFirst, Token.operation?, Token.operation?, hR.kind_eq h, hR.symbol_eq h]

/-! ## Conversion -/

/-- **Two conversions** of related tokens, with related tokens waiting, put out related tokens. -/
theorem convert {stack stack' ts ts' : List Token} (hstack : List.Forall₂ R stack stack')
    (hts : List.Forall₂ R ts ts') :
    Matching E (List.Forall₂ R) (convert stack ts) (convert stack' ts') := by
  induction hts generalizing stack stack' with
  | nil =>
    have hany : stack.any (·.kind = .parenthesis) = stack'.any (·.kind = .parenthesis) :=
      any_eq (fun _ _ h => by rw [hR.kind_eq h]) hstack
    simp only [PostOrder.convert, ← hany]
    split
    · exact .error hR.mismatched
    · exact .ok hstack
  | @cons t t' rest rest' h hrest ih =>
    have hkind' := hR.kind_eq h
    cases hkind : t.kind with
    | number =>
      rw [Expression.convert_number hkind, Expression.convert_number (hkind' ▸ hkind)]
      exact (ih hstack).map fun _ _ => .cons h
    | unaryMinus =>
      rw [Expression.convert_sign hkind, Expression.convert_sign (hkind' ▸ hkind)]
      exact ih (.cons h hstack)
    | operator =>
      have hsymbol := hR.symbol_eq h
      cases hop : Operator.ofSymbol? t.value with
      | none =>
        simp only [PostOrder.convert, hkind, hkind' ▸ hkind, hop, hsymbol ▸ hop]
        exact .error (hR.unknownOperator h hkind hop)
      | some op =>
        have hfirst (t t' : Token) (h : R t t') := hR.bindsFirst_eq op.precedence h
        rw [Expression.convert_operator hkind hop,
          Expression.convert_operator (hkind' ▸ hkind) (hsymbol ▸ hop)]
        exact (ih (.cons h (dropWhile hfirst hstack))).map fun _ _ hout =>
          List.rel_append (takeWhile hfirst hstack) hout
    | parenthesis =>
      have hshut (t t' : Token) (h : R t t') : (!opens t) = !opens t' := by rw [hR.opens_eq h]
      have hdrop := dropWhile hshut hstack
      rw [Expression.convert_parenthesis hkind, Expression.convert_parenthesis (hkind' ▸ hkind),
        ← hR.opens_eq h]
      split
      · exact ih (.cons h hstack)
      · generalize stack.dropWhile (!opens ·) = below at hdrop ⊢
        generalize stack'.dropWhile (!opens ·) = below' at hdrop ⊢
        cases hdrop with
        | nil => exact .error hR.mismatched
        | cons _ hbelow =>
          exact (ih hbelow).map fun _ _ hout => List.rel_append (takeWhile hshut hstack) hout

theorem ofTokens {ts ts' : List Token} (h : List.Forall₂ R ts ts') :
    Matching E (List.Forall₂ R) (ofTokens ts) (ofTokens ts') :=
  hR.convert .nil h

/-! ## Evaluation -/

theorem push (operands : List Float) {t t' : Token} (h : R t t') :
    Matching E Eq (push operands t) (push operands t') := by
  have hkind' := hR.kind_eq h
  unfold PostOrder.push
  rw [← hkind']
  cases hkind : t.kind with
  | number =>
    simp only [← hR.read_eq h hkind]
    cases Double.read? t.value.toList with
    | none => exact .error (hR.invalidNumber h hkind)
    | some x => exact .ok rfl
  | unaryMinus =>
    cases operands with
    | nil => exact .error (hR.insufficientOperands h)
    | cons x operands => exact .ok rfl
  | parenthesis => exact .error (hR.strayParenthesis h)
  | operator =>
    rcases operands with _ | ⟨right, _ | ⟨left, operands⟩⟩
    · exact .error (hR.insufficientOperands h)
    · exact .error (hR.insufficientOperands h)
    · simp only [← hR.symbol_eq h]
      cases hop : Operator.ofSymbol? t.value with
      | none => exact .error (hR.unknownOperator h hkind hop)
      | some op =>
        have hcombine : Matching E Eq (combine op left right) (combine op left right) := by
          cases hvalue : combine op left right with
          | ok x => exact .ok rfl
          | error f =>
            -- a division by zero is told without the token
            obtain ⟨-, rfl⟩ := Expression.combine_eq_error hvalue
            exact .error hR.divisionByZero
        exact hcombine.map fun _ _ h => by rw [h]

theorem foldlM_push (operands : List Float) {ts ts' : List Token} (h : List.Forall₂ R ts ts') :
    Matching E Eq (ts.foldlM PostOrder.push operands) (ts'.foldlM PostOrder.push operands) := by
  induction h generalizing operands with
  | nil => exact .ok rfl
  | cons h hs ih =>
    rw [List.foldlM_cons, List.foldlM_cons]
    refine (hR.push operands h).bind ?_
    rintro next _ rfl
    exact ih next

theorem value {ts ts' : List Token} (h : List.Forall₂ R ts ts') :
    Matching E Eq (value ts) (value ts') := by
  refine (hR.foldlM_push [] h).bind ?_
  rintro operands _ rfl
  rcases operands with _ | ⟨x, _ | ⟨y, operands⟩⟩
  · exact .error hR.incomplete
  · exact .ok rfl
  · exact .error hR.incomplete

/-- **Two evaluations** of related tokens have the same value or related faults. -/
theorem evaluateTokens {ts ts' : List Token} (h : List.Forall₂ R ts ts') :
    Matching E Eq (Expression.evaluateTokens ts) (Expression.evaluateTokens ts') :=
  (hR.ofTokens h).bind fun _ _ => hR.value

end Interchange

end Longhand
