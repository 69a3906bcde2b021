import Longhand.Proofs.ParseOutcome
import Longhand.Proofs.SingleOperations
/-!
# Parentheses in a text and in its tokens

The parentheses of a text are looked at twice: as characters, before anything else is known
(`checkParentheses`), and as tokens, while they are brought into post-order. Both looks refuse the same
texts (`pre_scan_agrees_with_conversion`). What is brought into post-order keeps every token but the
parentheses, each as often as it stood in the expression, and the numbers in their order.
-/

namespace Longhand.Expression

open PostOrder

/-! ## Counting parentheses -/

/-- After `depth` open parentheses, some beginning of the text closes more than are open. -/
def ClosesTooMuch (depth : Nat) (s : List Char) : Prop :=
  ∃ before, before <+: s ∧ depth + before.count '(' < before.count ')'

/-- What a count of the parentheses has to find after `depth` open ones. -/
inductive Miscounted (depth : Nat) (s : List Char) : ExpressionFault → Prop
  | mismatched (h : ClosesTooMuch depth s) : Miscounted depth s .mismatched
  | unclosed {n : Nat} (h : ¬ClosesTooMuch depth s) (hn : 0 < n)
      (hcount : depth + s.count '(' = s.count ')' + n) : Miscounted depth s (.unclosed n)

section

variable {depth depth' : Nat} {c : Char} {rest : List Char}

/-- One character more in front, which opens or closes what the depths differ by. -/
theorem closesTooMuch_cons (hdepth : depth + [c].count '(' = depth' + [c].count ')') :
    ClosesTooMuch depth (c :: rest) ↔ ClosesTooMuch depth' rest := by
  have hcons : ∀ (a : Char) (s : List Char), (c :: s).count a = [c].count a + s.count a :=
    fun a s => @List.count_append _ _ a [c] s
  constructor
  · rintro ⟨before, hbefore, hlt⟩
    rcases List.prefix_cons_iff.1 hbefore with rfl | ⟨before, rfl, hrest⟩
    · simp at hlt
    · have hopen := hcons '(' before
      have hclose := hcons ')' before
      exact ⟨before, hrest, by omega⟩
  · rintro ⟨before, hbefore, hlt⟩
    have hopen := hcons '(' before
    have hclose := hcons ')' before
    exact ⟨c :: before, (List.prefix_cons_inj c).2 hbefore, by omega⟩

theorem miscounted_cons {f : ExpressionFault}
    (hdepth : depth + [c].count '(' = depth' + [c].count ')') :
    Miscounted depth (c :: rest) f ↔ Miscounted depth' rest f := by
  have hcons : ∀ a : Char, (c :: rest).count a = [c].count a + rest.count a :=
    fun a => @List.count_append _ _ a [c] rest
  have hopen := hcons '('
  have hclose := hcons ')'
  constructor
  · rintro (h | ⟨h, hn, hcount⟩)
    · exact .mismatched ((closesTooMuch_cons hdepth).1 h)
    · exact .unclosed (mt (closesTooMuch_cons hdepth).2 h) hn (by omega)
  · rintro (h | ⟨h, hn, hcount⟩)
    · exact .mismatched ((closesTooMuch_cons hdepth).2 h)
    · exact .unclosed (mt (closesTooMuch_cons hdepth).1 h) hn (by omega)

end

theorem not_closesTooMuch_nil (depth : Nat) : ¬ClosesTooMuch depth [] := by
  rintro ⟨before, hbefore, hlt⟩
  obtain rfl := List.prefix_nil.1 hbefore
  simp at hlt

theorem closesTooMuch_close_zero (rest : List Char) : ClosesTooMuch 0 (')' :: rest) :=
  ⟨[')'], by simp, by simp⟩

theorem miscounted_nil_iff (depth : Nat) (f : ExpressionFault) :
    Miscounted depth [] f ↔ 0 < depth ∧ f = .unclosed depth := by
  constructor
  · rintro (h | ⟨h, hn, hcount⟩)
    · exact absurd h (not_closesTooMuch_nil depth)
    · obtain rfl : depth = _ := by simpa using hcount
      exact ⟨hn, rfl⟩
  · rintro ⟨hdepth, rfl⟩
    exact .unclosed (not_closesTooMuch_nil depth) hdepth (by simp)

/-- **The look at the parentheses finds what a count of them has to find**, and nothing else. -/
theorem checkDepth_eq_error_iff (depth : Nat) (s : List Char) (f : ExpressionFault) :
    checkDepth depth s = .error f ↔ Miscounted depth s f := by
  induction s generalizing depth with
  | nil =>
    rw [miscounted_nil_iff]
    cases depth <;> simp [checkDepth, eq_comm]
  | cons c rest ih =>
    by_cases hopen : c = '('
    · subst hopen
      rw [checkDepth_open]
      exact (ih (depth + 1)).trans (miscounted_cons (by simp)).symm
    by_cases hclose : c = ')'
    · subst hclose
      cases depth with
      | zero =>
        rw [checkDepth_close_zero, Except.error.injEq]
        constructor
        · rintro rfl
          exact .mismatched (closesTooMuch_close_zero rest)
        · rintro (h | ⟨h, -, -⟩)
          · rfl
          · exact absurd (closesTooMuch_close_zero rest) h
      | succ depth =>
        rw [checkDepth_close]
        exact (ih depth).trans (miscounted_cons (by simp)).symm
    · rw [checkDepth_other depth rest hopen hclose]
      exact (ih depth).trans (miscounted_cons (by simp [hopen, hclose])).symm

/-! ## The conversion -/

/-- Tokens of a text are brought into post-order, or their parentheses are refused. -/
theorem convert_ok_or_mismatched {stack ts : List Token} (hstack : ∀ t ∈ stack, Stacked t)
    (hts : ∀ t ∈ ts, Scanned t) :
    (∃ out, convert stack ts = .ok out) ∨ convert stack ts = .error .mismatched := by
  induction ts generalizing stack with
  | nil =>
    rw [convert]
    split
    · exact .inr rfl
    · exact .inl ⟨stack, rfl⟩
  | cons t rest ih =>
    obtain ⟨ht, hrest⟩ := List.forall_mem_cons.1 hts
    rcases convert_cons hstack ht rest with ⟨taken, stack', hmoves, hconvert⟩ | ⟨-, -, herror⟩
    · have hstack' : ∀ u ∈ stack', Stacked u := fun u hu => (hmoves.mem_stack hstack ht u hu).2
      rw [hconvert]
      rcases ih hstack' hrest with ⟨out, hout⟩ | herror
      · exact .inl ⟨taken ++ out, by rw [hout]; rfl⟩
      · exact .inr (by rw [herror]; rfl)
    · exact .inr herror

section

variable {s : List Char} {ts : List Token} (hscan : Token.ofText s = .ok ts)

include hscan

/-- A text whose parentheses are in order is one whose tokens have a post-order. -/
theorem checkParentheses_eq_ok_iff :
    checkParentheses s = .ok () ↔ ∃ post, PostOrder.ofTokens ts = .ok post := by
  constructor
  · intro hparentheses
    obtain ⟨post, hpost, -⟩ := exists_ofTokens hparentheses hscan
    exact ⟨post, hpost⟩
  · rintro ⟨post, hpost⟩
    have hbalanced := balanced_of_convert (by simp) (scanned_of_scan hscan) hpost
    exact (balanced_scan_iff hscan).1 hbalanced

theorem exists_checkParentheses_eq_error_iff :
    (∃ f, checkParentheses s = .error f) ↔ PostOrder.ofTokens ts = .error .mismatched := by
  have hok := checkParentheses_eq_ok_iff hscan
  rcases @convert_ok_or_mismatched [] ts (by simp) (scanned_of_scan hscan) with
    ⟨post, hpost⟩ | herror
  · have hpost : PostOrder.ofTokens ts = .ok post := hpost
    simp [hok.2 ⟨post, hpost⟩, hpost]
  · have herror : PostOrder.ofTokens ts = .error .mismatched := herror
    cases hparentheses : checkParentheses s with
    | error f => simp [herror]
    | ok u =>
      obtain ⟨post, hpost⟩ := hok.1 hparentheses
      cases herror.symm.trans hpost

variable {post : List Token} (hpost : PostOrder.ofTokens ts = .ok post)

include hpost

theorem ordered_of_scan : ∀ t ∈ post, Ordered ts t :=
  ordered_of_ofTokens ((checkParentheses_eq_ok_iff hscan).2 ⟨post, hpost⟩) hscan hpost

/-- Nothing is lost or doubled but the parentheses. -/
theorem perm_ofTokens : post.Perm (ts.filter (·.kind ≠ .parenthesis)) := by
  rw [List.perm_iff_count]
  intro t
  by_cases ht : t.kind = .parenthesis
  · have hpostCount : post.count t = 0 :=
      List.count_eq_zero.2 fun hmem => (ordered_of_scan hscan hpost t hmem).not_parenthesis ht
    have hfilterCount : (ts.filter (·.kind ≠ .parenthesis)).count t = 0 :=
      List.count_eq_zero.2 fun hmem => by simpa [ht] using List.of_mem_filter hmem
    rw [hpostCount, hfilterCount]
  · rw [List.count_filter (by simpa using ht)]
    refine countP_ofTokens (scanned_of_scan hscan) hpost fun u hu => ?_
    rw [beq_eq_false_iff_ne]
    rintro rfl
    exact ht hu

/-- The evaluation of a post-order meets no parenthesis. -/
theorem value_ne_strayParenthesis (position : Nat) :
    PostOrder.value post ≠ .error (.strayParenthesis position) := by
  intro hvalue
  rcases faulty_of_value (ordered_of_scan hscan hpost) (scanned_of_scan hscan) hvalue with
    h | ⟨t, -, h⟩
  · cases h
  · cases h

end

/-- The tokens of an expression and what they are brought into. -/
structure KeepsTokens (ts post : List Token) : Prop where
  no_parenthesis : ∀ t ∈ post, t.kind ≠ .parenthesis
  /-- Every other token is there, as often as before. -/
  perm : post.Perm (ts.filter (·.kind ≠ .parenthesis))
  numbers : post.filter (·.kind = .number) = ts.filter (·.kind = .number)

/-- **The look at the parentheses of a text and the conversion of its tokens agree.** The look finds
what a count of the parentheses has to find; it finds something exactly if the conversion refuses the
parentheses; and if it finds nothing, the conversion has an outcome, loses nothing and leaves no
parenthesis for the evaluation to meet. So parsing never stops at the conversion. -/
theorem pre_scan_agrees_with_conversion {s : List Char} {ts : List Token}
    (hscan : Token.ofText s = .ok ts) :
    (∀ f, checkParentheses s = .error f ↔ Miscounted 0 s f) ∧
    ((∃ f, checkParentheses s = .error f) ↔ PostOrder.ofTokens ts = .error .mismatched) ∧
    (checkParentheses s = .ok () → ∃ post, PostOrder.ofTokens ts = .ok post ∧ KeepsTokens ts post ∧
      ∀ position, PostOrder.value post ≠ .error (.strayParenthesis position)) ∧
    ∀ maxLength f, ¬FirstFault maxLength s .postOrder f := by
  refine ⟨checkDepth_eq_error_iff 0 s, exists_checkParentheses_eq_error_iff hscan, ?_, ?_⟩
  · intro hparentheses
    obtain ⟨post, hpost, hordered⟩ := exists_ofTokens hparentheses hscan
    refine ⟨post, hpost, ?_, value_ne_strayParenthesis hscan hpost⟩
    exact {
      no_parenthesis := fun t ht => (hordered t ht).not_parenthesis
      perm := perm_ofTokens hscan hpost
      numbers := filter_number_ofTokens (scanned_of_scan hscan) hpost }
  · rintro maxLength f hfault
    -- only the two looks at the parentheses can find what is wrong with them
    cases hfault.foundAt

/-- Closed before it is opened: the count comes out even, and both looks refuse it. -/
theorem pre_scan_agrees_with_conversion_closed_first :
    ∃ ts, Token.ofText "2)-(3".toList = .ok ts ∧
      checkParentheses "2)-(3".toList = .error .mismatched ∧
      PostOrder.ofTokens ts = .error .mismatched := by
  have hscan : Token.ofText "2)-(3".toList = .ok
      [⟨.number, "2", 0⟩, ⟨.parenthesis, ")", 1⟩, ⟨.operator, "-", 2⟩, ⟨.parenthesis, "(", 3⟩,
        ⟨.number, "3", 4⟩] :=
    eq_ok_of_toOption (by decide +kernel)
  have hcloses : ClosesTooMuch 0 "2)-(3".toList := ⟨"2)".toList, by decide, by decide⟩
  obtain ⟨hfinds, hagree, -, -⟩ := pre_scan_agrees_with_conversion hscan
  have hcheck := (hfinds .mismatched).2 (.mismatched hcloses)
  exact ⟨_, hscan, hcheck, hagree.1 ⟨_, hcheck⟩⟩

end Longhand.Expression
