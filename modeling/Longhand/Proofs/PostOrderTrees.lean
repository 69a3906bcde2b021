import Longhand.Proofs.Parsing
/-!
# Trees in post-order

The evaluation of tokens in post-order knows nothing but a stack of operands. A `TokenTree` is an
expression that is made of tokens, and a forest is a stack of them. The invariant of the evaluation
is that the operands on the stack are the values of a sound forest, whose post-order is what has
been read: a token makes the forest grow or is stuck (`grows_or_stuck`), and so
the tokens make up a sound forest or there is a first one that is stuck (`forest_or_firstStuck`).

Main result, `evaluation_accepts_post_orders`: the tokens with a value are the post-orders of sound
trees, and all others are reported for the first token that is stuck, or at the end.
-/

namespace Longhand

/-- An expression whose operands and operators are tokens. -/
inductive TokenTree where
  | numeral (t : Token) (h : t.kind = .number)
  | negation (t : Token) (h : t.operation? = some .negation) (operand : TokenTree)
  | binary (t : Token) (op : Operator) (h : t.operation? = some (.binary op))
      (left right : TokenTree)

namespace TokenTree

/-- The operands and operators, each operator after its operands. -/
def postOrder : TokenTree → List Token
  | numeral t _ => [t]
  | negation t _ operand => operand.postOrder ++ [t]
  | binary t _ _ left right => left.postOrder ++ right.postOrder ++ [t]

/-- The value in doubles, worked out from the operands to the whole. A numeral that cannot be read
counts as no number. -/
def value : TokenTree → Float
  | numeral t _ => (Double.read? t.value.toList).getD Double.nan
  | negation _ _ operand => -operand.value
  | binary _ op _ left right => op.apply left.value right.value

/-- Whether all numerals can be read and nothing is divided by zero. -/
def Sound : TokenTree → Prop
  | numeral t _ => (Double.read? t.value.toList).isSome = true
  | negation _ _ operand => operand.Sound
  | binary _ op _ left right =>
    left.Sound ∧ right.Sound ∧ ¬(op = .division ∧ (right.value == 0) = true)

/-! ## Forests -/

/-- The tokens of a stack of expressions, the one at the bottom first. -/
def forestOrder : List TokenTree → List Token
  | [] => []
  | e :: below => forestOrder below ++ e.postOrder

/-- What a token makes of a stack of expressions: it takes its operands and takes their place. -/
inductive Grows : List TokenTree → Token → List TokenTree → Prop
  | numeral {below : List TokenTree} {t : Token} (h : t.kind = .number) :
      Grows below t (numeral t h :: below)
  | negation {operand : TokenTree} {below : List TokenTree} {t : Token}
      (h : t.operation? = some .negation) :
      Grows (operand :: below) t (negation t h operand :: below)
  | binary {left right : TokenTree} {below : List TokenTree} {t : Token} {op : Operator}
      (h : t.operation? = some (.binary op)) :
      Grows (right :: left :: below) t (binary t op h left right :: below)

theorem Grows.forestOrder_eq {forest grown : List TokenTree} {t : Token}
    (h : Grows forest t grown) : forestOrder grown = forestOrder forest ++ [t] := by
  cases h <;> simp [forestOrder, postOrder]

theorem Grows.unique {forest grown grown' : List TokenTree} {t : Token} (h : Grows forest t grown)
    (h' : Grows forest t grown') : grown = grown' := by
  have hnumber (hkind : t.kind = .number) : t.operation? = none := by
    simp [Token.operation?, hkind]
  cases h with
  | numeral hkind =>
    cases h' with
    | numeral _ => rfl
    | negation hop => simp [hnumber hkind] at hop
    | binary hop => simp [hnumber hkind] at hop
  | negation hop =>
    cases h' with
    | numeral hkind => simp [hnumber hkind] at hop
    | negation _ => rfl
    | binary hop' => cases hop.symm.trans hop'
  | binary hop =>
    cases h' with
    | numeral hkind => simp [hnumber hkind] at hop
    | negation hop' => cases hop.symm.trans hop'
    | binary hop' =>
      cases hop.symm.trans hop'
      rfl

theorem exists_grows (e : TokenTree) (below : List TokenTree) :
    ∃ forest t, Grows forest t (e :: below) := by
  cases e with
  | numeral t h => exact ⟨_, t, .numeral h⟩
  | negation t h operand => exact ⟨_, t, .negation h⟩
  | binary t op h left right => exact ⟨_, t, .binary h⟩

/-- Tokens are the post-order of one forest at most. -/
theorem forestOrder_injective : Function.Injective forestOrder := by
  intro forest forest' h
  -- the last token tells what was on the stack before it, so the induction is from the end
  induction hts : forestOrder forest using List.reverseRecOn generalizing forest forest' with
  | nil =>
    have hnil {forest : List TokenTree} (hf : forestOrder forest = []) : forest = [] := by
      cases forest with
      | nil => rfl
      | cons e below =>
        obtain ⟨before, t, hgrows⟩ := exists_grows e below
        simp [hgrows.forestOrder_eq] at hf
    rw [hnil hts, hnil (h.symm.trans hts)]
  | append_singleton ts t ih =>
    have hgrown {forest : List TokenTree} (hf : forestOrder forest = ts ++ [t]) :
        ∃ before, Grows before t forest ∧ forestOrder before = ts := by
      cases forest with
      | nil => simp [forestOrder] at hf
      | cons e below =>
        obtain ⟨before, u, hgrows⟩ := exists_grows e below
        rw [hgrows.forestOrder_eq] at hf
        obtain ⟨hbefore, hlast⟩ := List.append_inj' hf rfl
        obtain rfl : u = t := List.head_eq_of_cons_eq hlast
        exact ⟨before, hgrows, hbefore⟩
    obtain ⟨before, hb, hbts⟩ := hgrown hts
    obtain ⟨before', hb', hbts'⟩ := hgrown (h.symm.trans hts)
    obtain rfl := ih (hbts.trans hbts'.symm) hbts
    exact hb.unique hb'

/-- Tokens are the post-order of one tree at most. -/
theorem postOrder_injective : Function.Injective postOrder := by
  intro e e' h
  have hforest : forestOrder [e] = forestOrder [e'] := by simp [forestOrder, h]
  exact List.head_eq_of_cons_eq (forestOrder_injective hforest)

/-! ## One token -/

/-- What is wrong with a token after the expressions on the stack. -/
inductive Stuck : List TokenTree → Token → ExpressionFault → Prop
  | unreadable {forest : List TokenTree} {t : Token} (h : t.kind = .number)
      (hread : Double.read? t.value.toList = none) :
      Stuck forest t (.invalidNumber t.value t.position)
  | noOperand {t : Token} (h : t.operation? = some .negation) :
      Stuck [] t (.insufficientOperands t.position)
  | fewOperands {forest : List TokenTree} {t : Token} {op : Operator}
      (h : t.operation? = some (.binary op)) (hlength : forest.length < 2) :
      Stuck forest t (.insufficientOperands t.position)
  | zeroDivisor {left right : TokenTree} {below : List TokenTree} {t : Token}
      (h : t.operation? = some (.binary .division)) (hzero : (right.value == 0) = true) :
      Stuck (right :: left :: below) t .divisionByZero
  | parenthesis {forest : List TokenTree} {t : Token} (h : t.kind = .parenthesis) :
      Stuck forest t (.strayParenthesis t.position)

end TokenTree

section

variable {t : Token} {op : Operator}

theorem Token.kind_of_negation (h : t.operation? = some .negation) : t.kind = .unaryMinus := by
  cases hkind : t.kind <;> simp_all [Token.operation?]

theorem Token.operator_of_binary (h : t.operation? = some (.binary op)) :
    t.kind = .operator ∧ Operator.ofSymbol? t.value = some op := by
  cases hkind : t.kind <;> simp_all [Token.operation?]

namespace PostOrder

theorem push_negation (h : t.operation? = some .negation) (x : Float) (operands : List Float) :
    push (x :: operands) t = .ok (-x :: operands) := by
  simp [push, Token.kind_of_negation h]

theorem push_binary (h : t.operation? = some (.binary op)) (left right : Float)
    (operands : List Float) :
    push (right :: left :: operands) t =
      if op = .division ∧ (right == 0) = true then .error .divisionByZero
      else .ok (op.apply left right :: operands) := by
  obtain ⟨hkind, hop⟩ := Token.operator_of_binary h
  simp only [push, hkind, hop, Expression.combine_eq]
  split <;> rfl

end PostOrder

end

namespace TokenTree

open PostOrder

section

variable {forest grown : List TokenTree} {t : Token} {f : ExpressionFault}

theorem Grows.push_eq (h : Grows forest t grown) (hsound : ∀ e ∈ grown, e.Sound) :
    push (forest.map value) t = .ok (grown.map value) := by
  cases h with
  | numeral hkind =>
    obtain ⟨x, hx⟩ := Option.isSome_iff_exists.1 (hsound _ List.mem_cons_self)
    simp [push, hkind, value, hx]
  | negation hop => exact push_negation hop _ _
  | binary hop =>
    obtain ⟨-, -, hdivisor⟩ := hsound _ List.mem_cons_self
    simp only [List.map_cons, push_binary hop, if_neg hdivisor, value]

theorem Stuck.push_eq (h : Stuck forest t f) : push (forest.map value) t = .error f := by
  cases h with
  | unreadable hkind hread => simp [push, hkind, hread]
  | noOperand hop => simp [push, Token.kind_of_negation hop]
  | fewOperands hop hlength =>
    have hkind := (Token.operator_of_binary hop).1
    rcases forest with _ | ⟨e, _ | ⟨e', below⟩⟩
    · simp [push, hkind]
    · simp [push, hkind]
    · exact absurd hlength (by simp)
  | zeroDivisor hop hzero => simp [push_binary hop, hzero]
  | parenthesis hkind => simp [push, hkind]

/-- **One token** makes a sound forest grow into a sound one, or it is stuck. -/
theorem grows_or_stuck (ht : t.kind = .operator → (Operator.ofSymbol? t.value).isSome = true)
    (hforest : ∀ e ∈ forest, e.Sound) :
    (∃ grown, Grows forest t grown ∧ ∀ e ∈ grown, e.Sound) ∨ ∃ f, Stuck forest t f := by
  cases hkind : t.kind with
  | number =>
    cases hread : Double.read? t.value.toList with
    | none => exact .inr ⟨_, .unreadable hkind hread⟩
    | some x =>
      exact .inl ⟨_, .numeral hkind, List.forall_mem_cons.2 ⟨by simp [Sound, hread], hforest⟩⟩
  | unaryMinus =>
    have hop : t.operation? = some .negation := by simp [Token.operation?, hkind]
    rcases forest with _ | ⟨operand, below⟩
    · exact .inr ⟨_, .noOperand hop⟩
    · obtain ⟨hoperand, hbelow⟩ := List.forall_mem_cons.1 hforest
      exact .inl ⟨_, .negation hop, List.forall_mem_cons.2 ⟨hoperand, hbelow⟩⟩
  | operator =>
    obtain ⟨op, hsymbol⟩ := Option.isSome_iff_exists.1 (ht hkind)
    have hop : t.operation? = some (.binary op) := by simp [Token.operation?, hkind, hsymbol]
    rcases forest with _ | ⟨right, _ | ⟨left, below⟩⟩
    · exact .inr ⟨_, .fewOperands hop (by simp)⟩
    · exact .inr ⟨_, .fewOperands hop (by simp)⟩
    · by_cases hdivisor : op = .division ∧ (right.value == 0) = true
      · obtain ⟨rfl, hzero⟩ := hdivisor
        exact .inr ⟨_, .zeroDivisor hop hzero⟩
      · obtain ⟨hright, hrest⟩ := List.forall_mem_cons.1 hforest
        obtain ⟨hleft, hbelow⟩ := List.forall_mem_cons.1 hrest
        exact .inl ⟨_, .binary hop, List.forall_mem_cons.2 ⟨⟨hleft, hright, hdivisor⟩, hbelow⟩⟩
  | parenthesis => exact .inr ⟨_, .parenthesis hkind⟩

end

/-! ## All tokens -/

/-- A sound tree leaves its value above the operands that were there before. -/
theorem foldlM_push_postOrder {e : TokenTree} (he : e.Sound) (operands : List Float) :
    e.postOrder.foldlM push operands = .ok (e.value :: operands) := by
  induction e generalizing operands with
  | numeral t h =>
    obtain ⟨x, hx⟩ := Option.isSome_iff_exists.1 he
    simp [postOrder, push, h, value, hx]
  | negation t h operand ih =>
    rw [postOrder, List.foldlM_append, ih he]
    change [t].foldlM push (operand.value :: operands) = _
    simp [push_negation h, value]
  | binary t op h left right ihl ihr =>
    obtain ⟨hleft, hright, hdivisor⟩ := he
    rw [postOrder, List.foldlM_append, List.foldlM_append, ihl hleft]
    change (right.postOrder.foldlM push (left.value :: operands) >>= [t].foldlM push) = _
    rw [ihr hright]
    change [t].foldlM push (right.value :: left.value :: operands) = _
    simp [push_binary h, hdivisor, value]

theorem value_postOrder {e : TokenTree} (he : e.Sound) :
    PostOrder.value e.postOrder = .ok e.value := by
  rw [PostOrder.value, foldlM_push_postOrder he]
  rfl

theorem foldlM_push_forestOrder {forest : List TokenTree} (hforest : ∀ e ∈ forest, e.Sound) :
    (forestOrder forest).foldlM push [] = .ok (forest.map value) := by
  induction forest with
  | nil => rfl
  | cons e below ih =>
    obtain ⟨he, hbelow⟩ := List.forall_mem_cons.1 hforest
    rw [forestOrder, List.foldlM_append, ih hbelow]
    exact foldlM_push_postOrder he _

/-- The fault of the first token that is stuck. Those before it make up a sound forest. -/
def FirstStuck (ts : List Token) (f : ExpressionFault) : Prop :=
  ∃ forest t after, (∀ e ∈ forest, e.Sound) ∧ ts = forestOrder forest ++ t :: after ∧
    Stuck forest t f

/-- **All tokens** make up a sound forest, or one of them is the first that is stuck. -/
theorem forest_or_firstStuck {forest : List TokenTree} (hforest : ∀ e ∈ forest, e.Sound)
    {ts : List Token}
    (hts : ∀ t ∈ ts, t.kind = .operator → (Operator.ofSymbol? t.value).isSome = true) :
    (∃ grown, (∀ e ∈ grown, e.Sound) ∧ forestOrder grown = forestOrder forest ++ ts) ∨
      ∃ f, FirstStuck (forestOrder forest ++ ts) f := by
  induction ts generalizing forest with
  | nil => exact .inl ⟨forest, hforest, (List.append_nil _).symm⟩
  | cons t rest ih =>
    obtain ⟨ht, hrest⟩ := List.forall_mem_cons.1 hts
    rcases grows_or_stuck ht hforest with ⟨grown, hgrows, hgrown⟩ | ⟨f, hstuck⟩
    · simpa [hgrows.forestOrder_eq] using ih hgrown hrest
    · exact .inr ⟨f, forest, t, rest, hforest, rfl, hstuck⟩

theorem value_forestOrder {forest : List TokenTree} (hforest : ∀ e ∈ forest, e.Sound) :
    PostOrder.value (forestOrder forest) =
      match forest with
      | [e] => .ok e.value
      | _ => .error .incomplete := by
  rw [PostOrder.value, foldlM_push_forestOrder hforest]
  rcases forest with _ | ⟨e, _ | ⟨e', below⟩⟩ <;> rfl

theorem FirstStuck.value_eq {ts : List Token} {f : ExpressionFault} (h : FirstStuck ts f) :
    PostOrder.value ts = .error f := by
  obtain ⟨forest, t, after, hforest, rfl, hstuck⟩ := h
  rw [PostOrder.value, List.foldlM_append, foldlM_push_forestOrder hforest]
  change ((t :: after).foldlM push (forest.map value) >>= _) = _
  rw [List.foldlM_cons, hstuck.push_eq]
  rfl

theorem Stuck.code_eq {forest : List TokenTree} {t : Token} {f : ExpressionFault}
    (h : Stuck forest t f) (hf : f ≠ .divisionByZero) : f.code = "INVALID_EXPRESSION_FORMAT" := by
  cases h with
  | zeroDivisor hop hzero => exact absurd rfl hf
  | _ => rfl

/-! ## Main result -/

section

variable {ts : List Token}
  (hts : ∀ t ∈ ts, t.kind = .operator → (Operator.ofSymbol? t.value).isSome = true)

include hts

/-- How the evaluation of tokens may end. -/
theorem value_cases :
    (∃ e : TokenTree, e.Sound ∧ e.postOrder = ts ∧ PostOrder.value ts = .ok e.value) ∨
      (∃ f, FirstStuck ts f ∧ PostOrder.value ts = .error f) ∨
      (∃ forest, (∀ e ∈ forest, e.Sound) ∧ forestOrder forest = ts ∧ forest.length ≠ 1) ∧
        PostOrder.value ts = .error .incomplete := by
  have hnone : ∀ e ∈ ([] : List TokenTree), e.Sound := by simp
  rcases forest_or_firstStuck hnone hts with ⟨grown, hgrown, horder⟩ | ⟨f, hf⟩
  · obtain rfl : forestOrder grown = ts := by simpa [forestOrder] using horder
    have hvalue := value_forestOrder hgrown
    rcases grown with _ | ⟨e, _ | ⟨e', below⟩⟩
    · exact .inr (.inr ⟨⟨[], by simp, rfl, by simp⟩, hvalue⟩)
    · exact .inl ⟨e, hgrown e (by simp), by simp [forestOrder], hvalue⟩
    · exact .inr (.inr ⟨⟨e :: e' :: below, hgrown, rfl, by simp⟩, hvalue⟩)
  · have hstuck : FirstStuck ts f := by simpa [forestOrder] using hf
    exact .inr (.inl ⟨f, hstuck, hstuck.value_eq⟩)

/-- **Evaluation accepts post-orders**: tokens have a value exactly if they are the post-order of a
tree all of whose numerals can be read and none of whose divisions is by zero. There is no other tree
with that post-order, and the value is that of the tree. Otherwise the fault is a division by zero if
the first token that is stuck is a division and its right operand is zero, and a malformed expression
in every other case: another token is the first that is stuck, or all of them make up a number of
trees other than one. -/
theorem evaluation_accepts_post_orders :
    (∀ v, PostOrder.value ts = .ok v ↔
        ∃ e : TokenTree, e.Sound ∧ e.postOrder = ts ∧ e.value = v) ∧
      (∀ e e' : TokenTree, e.postOrder = ts → e'.postOrder = ts → e = e') ∧
      (PostOrder.value ts = .error .divisionByZero ↔
        ∃ left right below t after, (∀ e ∈ right :: left :: below, e.Sound) ∧
          ts = forestOrder (right :: left :: below) ++ t :: after ∧
          t.operation? = some (.binary .division) ∧ (right.value == 0) = true) ∧
      ∀ f, PostOrder.value ts = .error f → f ≠ .divisionByZero →
        f.code = "INVALID_EXPRESSION_FORMAT" ∧
          (FirstStuck ts f ∨ f = .incomplete ∧ ∃ forest, (∀ e ∈ forest, e.Sound) ∧
            forestOrder forest = ts ∧ forest.length ≠ 1) := by
  have hcases := value_cases hts
  refine ⟨fun v => ⟨fun h => ?_, ?_⟩, ?_, ⟨fun h => ?_, ?_⟩, fun f h hf => ?_⟩
  · rcases hcases with ⟨e, he, horder, hvalue⟩ | ⟨f, -, hvalue⟩ | ⟨-, hvalue⟩
    · exact ⟨e, he, horder, Except.ok.inj (hvalue.symm.trans h)⟩
    · cases hvalue.symm.trans h
    · cases hvalue.symm.trans h
  · rintro ⟨e, he, rfl, rfl⟩
    exact value_postOrder he
  · exact fun e e' he he' => postOrder_injective (he.trans he'.symm)
  · rcases hcases with ⟨e, -, -, hvalue⟩ | ⟨f, hstuck, hvalue⟩ | ⟨-, hvalue⟩
    · cases hvalue.symm.trans h
    · cases hvalue.symm.trans h
      obtain ⟨forest, t, after, hforest, rfl, hstuck⟩ := hstuck
      cases hstuck with
      | zeroDivisor hop hzero => exact ⟨_, _, _, t, after, hforest, rfl, hop, hzero⟩
    · cases hvalue.symm.trans h
  · rintro ⟨left, right, below, t, after, hforest, rfl, hop, hzero⟩
    exact FirstStuck.value_eq ⟨_, t, after, hforest, rfl, .zeroDivisor hop hzero⟩
  · rcases hcases with ⟨e, -, -, hvalue⟩ | ⟨g, hstuck, hvalue⟩ | ⟨hforest, hvalue⟩
    · cases hvalue.symm.trans h
    · cases hvalue.symm.trans h
      obtain ⟨forest, t, after, -, -, hfault⟩ := id hstuck
      exact ⟨hfault.code_eq hf, .inl hstuck⟩
    · cases hvalue.symm.trans h
      exact ⟨rfl, .inr ⟨rfl, hforest⟩⟩

end

/-- One divided by zero, and a parenthesis after it that is not looked at. -/
theorem evaluation_accepts_post_orders_zeroDivisor :
    PostOrder.value [⟨.number, "1", 0⟩, ⟨.number, "0", 2⟩, ⟨.operator, "÷", 4⟩,
      ⟨.parenthesis, "(", 6⟩] = .error .divisionByZero := by
  have hone : (numeral ⟨.number, "1", 0⟩ rfl).Sound := by simp only [Sound]; decide
  have hzero : (numeral ⟨.number, "0", 2⟩ rfl).Sound := by simp only [Sound]; decide
  refine (evaluation_accepts_post_orders (by decide)).2.2.1.2 ⟨numeral ⟨.number, "1", 0⟩ rfl,
    numeral ⟨.number, "0", 2⟩ rfl, [], ⟨.operator, "÷", 4⟩, [⟨.parenthesis, "(", 6⟩], ?_, rfl,
    by decide, ?_⟩
  · simp [hone, hzero]
  · decide +kernel

end TokenTree

end Longhand
