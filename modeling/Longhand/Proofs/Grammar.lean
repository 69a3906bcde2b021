import Longhand.Expression.Parse
import Longhand.Proofs.Outcomes
import Longhand.Proofs.Parsing
/-!
# The grammar of accepted expressions

Every accepted expression has balanced parentheses, and its post-order is a sentence of the postfix
grammar, for that is what the conversion and the evaluation run into otherwise. Neither looks at
where a token stands among the others. The expression is a sentence of the infix grammar exactly if
every token is also in its place (`infix_iff_placed`): an operand where one is due and an operator
where none is.

What is true of the tokens of a text follows from how a scan cuts it (`CutInto`), by induction on the
cuts.
-/

namespace Longhand.Expression

open PostOrder

/-! ## Sentences -/

/-- A parenthesis that opens a group. -/
structure Opening (t : Token) : Prop where
  kind_eq : t.kind = .parenthesis
  value_eq : t.value = "("

/-- A parenthesis that closes a group. -/
structure Closing (t : Token) : Prop where
  kind_eq : t.kind = .parenthesis
  value_eq : t.value = ")"

/-- A binary operator with one of the symbols that stand for one. -/
structure Operating (t : Token) : Prop where
  kind_eq : t.kind = .operator
  known : (Operator.ofSymbol? t.value).isSome = true

/-- The sentences of the infix grammar. -/
inductive Infix : List Token → Prop
  | number {t : Token} (h : t.kind = .number) : Infix [t]
  | negation {t : Token} {operand : List Token} (h : t.kind = .unaryMinus) (ho : Infix operand) :
      Infix (t :: operand)
  | binary {t : Token} {left right : List Token} (h : Operating t) (hl : Infix left)
      (hr : Infix right) : Infix (left ++ t :: right)
  | group {first last : Token} {inner : List Token} (hf : Opening first) (hl : Closing last)
      (hi : Infix inner) : Infix (first :: (inner ++ [last]))

/-- The sentences of the postfix grammar. -/
inductive Postfix : List Token → Prop
  | number {t : Token} (h : t.kind = .number) : Postfix [t]
  | negation {t : Token} {operand : List Token} (h : t.kind = .unaryMinus)
      (ho : Postfix operand) : Postfix (operand ++ [t])
  | binary {t : Token} {left right : List Token} (h : Operating t) (hl : Postfix left)
      (hr : Postfix right) : Postfix (left ++ right ++ [t])

/-- Whether every token is in its place: a number, a sign and an opening parenthesis where an operand
is due, an operator and a closing parenthesis right after an operand, and the end there as well. -/
def placed (due : Bool) : List Token → Bool
  | [] => !due
  | t :: rest =>
    match t.kind with
    | .number => due && placed false rest
    | .unaryMinus => due && placed true rest
    | .operator => !due && placed true rest
    | .parenthesis => if opens t then due && placed true rest else !due && placed false rest

/-- Whether the parentheses are balanced, after some that are still open. -/
def balanced : Nat → List Token → Bool
  | depth, [] => depth = 0
  | depth, t :: rest =>
    if t.kind = .parenthesis then
      if opens t then balanced (depth + 1) rest
      else
        match depth with
        | 0 => false
        | depth + 1 => balanced depth rest
    else balanced depth rest

/-! ## Tokens of a text -/

section

variable {operand : Bool} {position : Nat} {c : Char} {rest : List Char}

theorem scan_of_blank (hblank : Text.isBlank c = true) :
    Token.scan operand position (c :: rest) = Token.scan operand (position + 1) rest := by
  rw [Token.scan.eq_def]
  simp only [hblank, if_true]

theorem scan_of_digit (hblank : ¬Text.isBlank c = true) (hdigit : Token.isDigit c = true) :
    Token.scan operand position (c :: rest) =
      (⟨.number, String.ofList (c :: rest.takeWhile Token.isNumeric), position⟩ :: ·) <$>
        Token.scan false (position + (c :: rest.takeWhile Token.isNumeric).length)
          (rest.dropWhile Token.isNumeric) := by
  rw [Token.scan.eq_def]
  simp only [hblank, hdigit, if_true]
  rfl

theorem scan_of_sign (hminus : c = '-' ∧ operand = true) :
    Token.scan operand position (c :: rest) =
      (⟨.unaryMinus, "-", position⟩ :: ·) <$> Token.scan false (position + 1) rest := by
  obtain ⟨rfl, rfl⟩ := hminus
  exact scan_minus position rest

theorem scan_of_operator (hblank : ¬Text.isBlank c = true) (hdigit : ¬Token.isDigit c = true)
    (hminus : ¬(c = '-' ∧ operand = true)) (hop : (Operator.ofChar? c).isSome = true) :
    Token.scan operand position (c :: rest) =
      (⟨.operator, String.singleton c, position⟩ :: ·) <$>
        Token.scan true (position + 1) rest := by
  rw [Token.scan.eq_def]
  simp only [hblank, hdigit, hminus, hop, if_true]
  rfl

theorem scan_of_parenthesis (hparen : Token.isParenthesis c = true) :
    Token.scan operand position (c :: rest) =
      (⟨.parenthesis, String.singleton c, position⟩ :: ·) <$>
        Token.scan (c = '(') (position + 1) rest := by
  simp only [Token.isParenthesis, Bool.or_eq_true, decide_eq_true_eq] at hparen
  rw [Token.scan.eq_def]
  rcases hparen with rfl | rfl <;> rfl

end

/-- A character that is a token by itself, of that kind. -/
inductive StandsAlone : Char → TokenKind → Prop
  | sign : StandsAlone '-' .unaryMinus
  | operator {c : Char} (h : (Operator.ofChar? c).isSome = true) : StandsAlone c .operator
  | opening : StandsAlone '(' .parenthesis
  | closing : StandsAlone ')' .parenthesis

/-- A text from a position on is cut into tokens: blanks are left out, a number takes all that
continues it, and every other token has one character. -/
inductive CutInto : Nat → List Char → List Token → Prop
  | nil (position : Nat) : CutInto position [] []
  | blank {position : Nat} {c : Char} {rest : List Char} {ts : List Token}
      (hblank : Text.isBlank c = true) (hrest : CutInto (position + 1) rest ts) :
      CutInto position (c :: rest) ts
  | number {position : Nat} {c : Char} {rest : List Char} {ts : List Token}
      (hblank : ¬Text.isBlank c = true) (hdigit : Token.isDigit c = true)
      (hrest : CutInto (position + (c :: rest.takeWhile Token.isNumeric).length)
        (rest.dropWhile Token.isNumeric) ts) :
      CutInto position (c :: rest)
        (⟨.number, String.ofList (c :: rest.takeWhile Token.isNumeric), position⟩ :: ts)
  | symbol {position : Nat} {c : Char} {rest : List Char} {ts : List Token} {kind : TokenKind}
      (hblank : ¬Text.isBlank c = true) (hc : StandsAlone c kind)
      (hrest : CutInto (position + 1) rest ts) :
      CutInto position (c :: rest) (⟨kind, String.singleton c, position⟩ :: ts)

/-- **What a scan does**: the tokens that it finds are those that the text is cut into. -/
theorem cutInto_of_scan {operand : Bool} {position : Nat} {s : List Char} {ts : List Token}
    (h : Token.scan operand position s = .ok ts) : CutInto position s ts := by
  induction operand, position, s using Token.scan.induct generalizing ts with
  | case1 operand position =>
    rw [scan_nil] at h
    obtain rfl := Except.ok.inj h
    exact .nil position
  | case2 operand position c rest hblank ih =>
    rw [scan_of_blank hblank] at h
    exact .blank hblank (ih h)
  | case3 operand position c rest hblank hdigit run =>
    rename_i ih
    rw [scan_of_digit hblank hdigit] at h
    obtain ⟨us, hus, rfl⟩ := exists_of_map_eq_ok h
    exact .number hblank hdigit (ih hus)
  | case4 operand position c rest hblank hdigit hminus ih =>
    rw [scan_of_sign hminus] at h
    obtain ⟨us, hus, rfl⟩ := exists_of_map_eq_ok h
    obtain ⟨rfl, -⟩ := hminus
    exact .symbol hblank .sign (ih hus)
  | case5 operand position c rest hblank hdigit hminus hop ih =>
    rw [scan_of_operator hblank hdigit hminus hop] at h
    obtain ⟨us, hus, rfl⟩ := exists_of_map_eq_ok h
    exact .symbol hblank (.operator hop) (ih hus)
  | case6 operand position c rest hblank hdigit hminus hop hparen ih =>
    rw [scan_of_parenthesis hparen] at h
    obtain ⟨us, hus, rfl⟩ := exists_of_map_eq_ok h
    simp only [Token.isParenthesis, Bool.or_eq_true, decide_eq_true_eq] at hparen
    rcases hparen with rfl | rfl
    · exact .symbol hblank .opening (ih hus)
    · exact .symbol hblank .closing (ih hus)
  | case7 operand position c rest hblank hdigit hminus hop hparen =>
    rw [Token.scan.eq_def] at h
    simp [hblank, hdigit, hminus, hop, hparen] at h

/-- What every token of a text is like. -/
structure Scanned (t : Token) : Prop where
  known : t.kind = .operator → (Operator.ofSymbol? t.value).isSome = true
  sided : t.kind = .parenthesis → t.value = "(" ∨ t.value = ")"
  kind_eq_of_opens : opens t = true → t.kind = .parenthesis

theorem Scanned.opening {t : Token} (ht : Scanned t) (h : opens t = true) : Opening t :=
  ⟨ht.kind_eq_of_opens h, by simpa [opens] using h⟩

theorem Scanned.closing {t : Token} (ht : Scanned t) (hkind : t.kind = .parenthesis)
    (h : opens t = false) : Closing t :=
  ⟨hkind, (ht.sided hkind).resolve_left (by simpa [opens] using h)⟩

theorem Scanned.operating {t : Token} (ht : Scanned t) (h : t.kind = .operator) : Operating t :=
  ⟨h, ht.known h⟩

theorem Scanned.opens_eq_false {t : Token} (ht : Scanned t) (h : t.kind ≠ .parenthesis) :
    opens t = false := by
  by_contra hopens
  exact h (ht.kind_eq_of_opens (Bool.not_eq_false _ ▸ hopens))

theorem StandsAlone.scanned {c : Char} {kind : TokenKind} (h : StandsAlone c kind) (position : Nat) :
    Scanned ⟨kind, String.singleton c, position⟩ := by
  cases h with
  | sign => exact ⟨by simp, by simp, by simp [opens]⟩
  | operator hop =>
    refine ⟨by simp [Operator.ofSymbol?, hop], by simp, fun hopens => ?_⟩
    obtain rfl : c = '(' := by simpa using congrArg String.toList (of_decide_eq_true hopens)
    simp [Operator.ofChar?] at hop
  | opening => exact ⟨by simp, fun _ => .inl rfl, by simp⟩
  | closing => exact ⟨by simp, fun _ => .inr rfl, by simp⟩

theorem CutInto.scanned {position : Nat} {s : List Char} {ts : List Token}
    (h : CutInto position s ts) : ∀ t ∈ ts, Scanned t := by
  induction h with
  | nil => simp
  | blank hblank hrest ih => exact ih
  | @number _ c _ _ hblank hdigit hrest ih =>
    refine List.forall_mem_cons.2 ⟨⟨by simp, by simp, fun hopens => ?_⟩, ih⟩
    -- a number starts with a digit, so it is not the text of a parenthesis
    have hc := congrArg String.toList (of_decide_eq_true hopens)
    simp only [String.toList_ofList] at hc
    obtain rfl : c = '(' := (List.cons.inj hc).1
    simp [Token.isDigit] at hdigit
  | symbol hblank hc hrest ih => exact List.forall_mem_cons.2 ⟨hc.scanned _, ih⟩

theorem scanned_of_scan {operand : Bool} {position : Nat} {s : List Char} {ts : List Token}
    (h : Token.scan operand position s = .ok ts) : ∀ t ∈ ts, Scanned t :=
  (cutInto_of_scan h).scanned

/-! ## What the conversion finds out -/

/-- What a token that waits on the stack is like. -/
def Stacked (t : Token) : Prop :=
  t.kind = .parenthesis ↔ opens t = true

theorem Scanned.stacked {t : Token} (ht : Scanned t) (h : t.kind ≠ .parenthesis) : Stacked t :=
  ⟨fun hkind => absurd hkind h, ht.kind_eq_of_opens⟩

theorem kind_ne_of_bindsFirst {t : Token} {level : Nat} (h : bindsFirst level t = true) :
    t.kind ≠ .parenthesis := by
  intro hkind
  simp [bindsFirst, Token.operation?, hkind] at h

/-- What one token of the conversion moves: to the output, and onto or off the stack. -/
inductive Moves (stack : List Token) (t : Token) : List Token → List Token → Prop
  | number (h : t.kind = .number) : Moves stack t [t] stack
  | sign (h : t.kind = .unaryMinus) : Moves stack t [] (t :: stack)
  | operator {taken left : List Token} (h : t.kind = .operator) (hs : taken ++ left = stack)
      (htaken : ∀ u ∈ taken, u.kind ≠ .parenthesis) : Moves stack t taken (t :: left)
  | opening (h : Opening t) : Moves stack t [] (t :: stack)
  | closing {taken below : List Token} {first : Token} (h : Closing t)
      (hfirst : first.kind = .parenthesis) (hs : taken ++ first :: below = stack)
      (htaken : ∀ u ∈ taken, u.kind ≠ .parenthesis) : Moves stack t taken below

theorem Opening.opens_eq {t : Token} (h : Opening t) : opens t = true := by
  simp [opens, h.value_eq]

theorem Closing.opens_eq {t : Token} (h : Closing t) : opens t = false := by
  simp [opens, h.value_eq]

theorem Stacked.opens_eq_false {t : Token} (ht : Stacked t) (h : t.kind ≠ .parenthesis) :
    opens t = false :=
  Bool.eq_false_iff.2 fun hopens => h (ht.2 hopens)

/-- What goes to the output comes from the stack or is the token, and is no parenthesis. -/
theorem Moves.mem_taken {stack taken stack' : List Token} {t : Token}
    (h : Moves stack t taken stack') : ∀ u ∈ taken, u ∈ t :: stack ∧ u.kind ≠ .parenthesis := by
  cases h with
  | number hkind => simp [hkind]
  | sign hkind => simp
  | operator hkind hs htaken =>
    intro u hu
    exact ⟨List.mem_cons_of_mem _ (hs ▸ List.mem_append_left _ hu), htaken u hu⟩
  | opening hopening => simp
  | closing hclosing hfirst hs htaken =>
    intro u hu
    exact ⟨List.mem_cons_of_mem _ (hs ▸ List.mem_append_left _ hu), htaken u hu⟩

/-- Tokens that are no parentheses open none. -/
theorem countP_opens_eq_zero {ts : List Token} (hts : ∀ t ∈ ts, Stacked t)
    (h : ∀ t ∈ ts, t.kind ≠ .parenthesis) : ts.countP opens = 0 := by
  rw [List.countP_eq_zero]
  intro t ht
  simp [(hts t ht).opens_eq_false (h t ht)]

section

variable {stack taken stack' : List Token} {t : Token} (hstack : ∀ u ∈ stack, Stacked u)
  (ht : Scanned t)

include hstack ht

/-- **One token of the conversion** moves some tokens and goes on, or it closes a parenthesis that
none on the stack opens. -/
theorem convert_cons (rest : List Token) :
    (∃ taken stack', Moves stack t taken stack' ∧
        convert stack (t :: rest) = (taken ++ ·) <$> convert stack' rest) ∨
      Closing t ∧ stack.countP opens = 0 ∧ convert stack (t :: rest) = .error .mismatched := by
  cases hkind : t.kind with
  | number => exact .inl ⟨[t], stack, .number hkind, convert_number hkind stack rest⟩
  | unaryMinus =>
    refine .inl ⟨[], t :: stack, .sign hkind, ?_⟩
    rw [convert_sign hkind]
    exact (id_map _).symm
  | operator =>
    obtain ⟨op, hop⟩ := Option.isSome_iff_exists.1 (ht.known hkind)
    refine .inl ⟨_, _, .operator hkind List.takeWhile_append_dropWhile ?_,
      convert_operator hkind hop stack rest⟩
    exact fun u hu => kind_ne_of_bindsFirst (List.mem_takeWhile_imp hu)
  | parenthesis =>
    rw [convert_parenthesis hkind]
    cases hopens : opens t with
    | true => exact .inl ⟨[], t :: stack, .opening (ht.opening hopens), (id_map _).symm⟩
    | false =>
      have hclosing := ht.closing hkind hopens
      cases hdrop : stack.dropWhile (!opens ·) with
      | nil =>
        refine .inr ⟨hclosing, ?_, rfl⟩
        rw [List.countP_eq_zero]
        intro u hu
        simpa using List.dropWhile_eq_nil_iff.1 hdrop u hu
      | cons first below =>
        have hsplit : stack.takeWhile (!opens ·) ++ first :: below = stack := by
          rw [← hdrop, List.takeWhile_append_dropWhile]
        have hfirst : opens first = true := by
          have hhead := List.head?_dropWhile_not (!opens ·) stack
          rw [hdrop] at hhead
          simpa using hhead
        have hmem : first ∈ stack := hsplit ▸ List.mem_append_right _ List.mem_cons_self
        refine .inl ⟨_, below, .closing hclosing ((hstack first hmem).2 hfirst) hsplit ?_, rfl⟩
        intro u hu hparenthesis
        have hshut := List.mem_takeWhile_imp hu
        simp [(hstack u ((List.takeWhile_sublist _).subset hu)).1 hparenthesis] at hshut

variable (h : Moves stack t taken stack')

include h

/-- What waits after the token waited before it or is the token, and is like what waits. -/
theorem Moves.mem_stack : ∀ u ∈ stack', u ∈ t :: stack ∧ Stacked u := by
  have hbefore (u : Token) (hu : u ∈ stack) : u ∈ t :: stack ∧ Stacked u :=
    ⟨List.mem_cons_of_mem _ hu, hstack u hu⟩
  cases h with
  | number hkind => exact hbefore
  | sign hkind =>
    exact List.forall_mem_cons.2 ⟨⟨List.mem_cons_self, ht.stacked (by simp [hkind])⟩, hbefore⟩
  | operator hkind hs htaken =>
    refine List.forall_mem_cons.2 ⟨⟨List.mem_cons_self, ht.stacked (by simp [hkind])⟩, ?_⟩
    exact fun u hu => hbefore u (hs ▸ List.mem_append_right _ hu)
  | opening hopening =>
    refine List.forall_mem_cons.2 ⟨⟨List.mem_cons_self, ?_⟩, hbefore⟩
    exact ⟨fun _ => hopening.opens_eq, fun _ => hopening.kind_eq⟩
  | closing hclosing hfirst hs htaken =>
    exact fun u hu => hbefore u (hs ▸ List.mem_append_right _ (List.mem_cons_of_mem _ hu))

/-- The parentheses stay balanced, the opening ones on the stack included. -/
theorem Moves.balanced_cons (rest : List Token) :
    balanced (stack.countP opens) (t :: rest) = balanced (stack'.countP opens) rest := by
  cases h with
  | number hkind => simp [balanced, hkind]
  | sign hkind => simp [balanced, hkind, ht.opens_eq_false (by simp [hkind])]
  | operator hkind hs htaken =>
    subst hs
    have hnone := countP_opens_eq_zero (List.forall_mem_append.1 hstack).1 htaken
    simp [balanced, hkind, hnone, ht.opens_eq_false (by simp [hkind])]
  | opening hopening => simp [balanced, hopening.kind_eq, hopening.opens_eq]
  | @closing _ below first hclosing hfirst hs htaken =>
    subst hs
    obtain ⟨hfront, hback⟩ := List.forall_mem_append.1 hstack
    have hnone := countP_opens_eq_zero hfront htaken
    have hopens := (hback first List.mem_cons_self).1 hfirst
    simp [balanced, hclosing.kind_eq, hclosing.opens_eq, hnone, hopens]

end

/-- A conversion that has an outcome goes on with the tokens after the first one. -/
theorem moves_of_convert {stack rest out : List Token} {t : Token}
    (hstack : ∀ u ∈ stack, Stacked u) (ht : Scanned t) (h : convert stack (t :: rest) = .ok out) :
    ∃ taken stack' out', Moves stack t taken stack' ∧ (∀ u ∈ stack', Stacked u) ∧
      convert stack' rest = .ok out' ∧ taken ++ out' = out := by
  rcases convert_cons hstack ht rest with ⟨taken, stack', hmoves, hconvert⟩ | ⟨-, -, herror⟩
  · rw [hconvert] at h
    obtain ⟨out', hout, rfl⟩ := exists_of_map_eq_ok h
    exact ⟨taken, stack', out', hmoves, fun u hu => (hmoves.mem_stack hstack ht u hu).2, hout, rfl⟩
  · rw [herror] at h
    cases h

/-- The parentheses of tokens that can be brought into post-order are balanced, the opening ones on
the stack included. -/
theorem balanced_of_convert {stack ts out : List Token} (hstack : ∀ t ∈ stack, Stacked t)
    (hts : ∀ t ∈ ts, Scanned t) (h : convert stack ts = .ok out) :
    balanced (stack.countP opens) ts = true := by
  induction ts generalizing stack out with
  | nil =>
    have hnone : stack.countP opens = 0 := by
      rw [List.countP_eq_zero]
      intro t ht hopens
      have hany : stack.any (·.kind = .parenthesis) = true :=
        List.any_eq_true.2 ⟨t, ht, by simpa using (hstack t ht).2 hopens⟩
      rw [convert, hany] at h
      cases h
    simp [balanced, hnone]
  | cons t rest ih =>
    obtain ⟨ht, hrest⟩ := List.forall_mem_cons.1 hts
    obtain ⟨taken, stack', out', hmoves, hstack', hout, -⟩ := moves_of_convert hstack ht h
    rw [hmoves.balanced_cons hstack ht]
    exact ih hstack' hrest hout

/-! ## Tokens in their places -/

/-- A sentence takes the place of one operand. -/
theorem Infix.placed_append {ts : List Token} (h : Infix ts) (rest : List Token) :
    placed true (ts ++ rest) = placed false rest := by
  induction h generalizing rest with
  | number h => simp [placed, h]
  | negation h ho ih => simp [placed, h, ih]
  | binary h hl hr ihl ihr => simp [placed, h.kind_eq, ihl, ihr]
  | group hf hl hi ih => simp [placed, hf.kind_eq, hf.opens_eq, hl.kind_eq, hl.opens_eq, ih]

/-- The beginnings of a sentence after which an operand is due, with the number of groups that are
still open. -/
inductive Due : Nat → List Token → Prop
  | start : Due 0 []
  | negation {depth : Nat} {before : List Token} {t : Token} (hb : Due depth before)
      (h : t.kind = .unaryMinus) : Due depth (before ++ [t])
  | binary {depth : Nat} {before left : List Token} {t : Token} (hb : Due depth before)
      (hl : Infix left) (h : Operating t) : Due depth (before ++ left ++ [t])
  | group {depth : Nat} {before : List Token} {t : Token} (hb : Due depth before)
      (h : Opening t) : Due (depth + 1) (before ++ [t])

/-- With the operand that is due a beginning without open groups is complete. -/
theorem Due.complete {before operand : List Token} (hb : Due 0 before) (ho : Infix operand) :
    Infix (before ++ operand) := by
  generalize hdepth : 0 = depth at hb
  induction hb generalizing operand with
  | start => simpa using ho
  | negation hb h ih => simpa using ih (.negation h ho) hdepth
  | binary hb hl h ih => simpa using ih (.binary h hl ho) hdepth
  | group hb h ih => simp at hdepth

/-- With the operand that is due and a closing parenthesis the innermost group is complete, and is an
operand itself. -/
theorem Due.close {depth : Nat} {before operand : List Token} {last : Token}
    (hb : Due (depth + 1) before) (ho : Infix operand) (hl : Closing last) :
    ∃ outer group, Due depth outer ∧ Infix group ∧
      outer ++ group = before ++ operand ++ [last] := by
  generalize hdepth : depth + 1 = open_ at hb
  induction hb generalizing operand with
  | start => simp at hdepth
  | negation hb h ih => simpa using ih (.negation h ho) hdepth
  | binary hb hleft h ih => simpa using ih (.binary h hleft ho) hdepth
  | group hb h ih =>
    obtain rfl := Nat.succ.inj hdepth
    exact ⟨_, _, hb, .group h hl ho, by simp⟩

/-- What has been read of a sentence, with whether an operand is due after it. -/
def Begun (due : Bool) (depth : Nat) (before : List Token) : Prop :=
  if due then Due depth before
  else ∃ outer operand, Due depth outer ∧ Infix operand ∧ outer ++ operand = before

/-- One more token in its place. -/
theorem Begun.step {due : Bool} {depth : Nat} {before rest : List Token} {t : Token}
    (hb : Begun due depth before) (ht : Scanned t) (hplaced : placed due (t :: rest) = true)
    (hbalanced : balanced depth (t :: rest) = true) :
    ∃ due' depth', Begun due' depth' (before ++ [t]) ∧ placed due' rest = true ∧
      balanced depth' rest = true := by
  cases hkind : t.kind with
  | number =>
    simp only [placed, hkind, Bool.and_eq_true] at hplaced
    simp only [balanced, hkind, reduceCtorEq, if_false] at hbalanced
    obtain ⟨rfl, hplaced⟩ := hplaced
    exact ⟨false, depth, ⟨before, [t], hb, .number hkind, rfl⟩, hplaced, hbalanced⟩
  | unaryMinus =>
    simp only [placed, hkind, Bool.and_eq_true] at hplaced
    simp only [balanced, hkind, reduceCtorEq, if_false] at hbalanced
    obtain ⟨rfl, hplaced⟩ := hplaced
    exact ⟨true, depth, Due.negation hb hkind, hplaced, hbalanced⟩
  | operator =>
    simp only [placed, hkind, Bool.and_eq_true, Bool.not_eq_true'] at hplaced
    simp only [balanced, hkind, reduceCtorEq, if_false] at hbalanced
    obtain ⟨rfl, hplaced⟩ := hplaced
    obtain ⟨outer, operand, ho, hi, rfl⟩ := hb
    exact ⟨true, depth, Due.binary ho hi (ht.operating hkind), hplaced, hbalanced⟩
  | parenthesis =>
    cases hopens : opens t
    · simp only [placed, hkind, hopens, Bool.false_eq_true, if_false, Bool.and_eq_true,
        Bool.not_eq_true'] at hplaced
      simp only [balanced, hkind, hopens, Bool.false_eq_true, if_true, if_false] at hbalanced
      obtain ⟨rfl, hplaced⟩ := hplaced
      obtain ⟨outer, operand, ho, hi, rfl⟩ := hb
      cases depth with
      | zero => simp at hbalanced
      | succ depth =>
        -- the innermost group is complete and becomes the operand of what stands before it
        obtain ⟨outer', group, ho', hg, heq⟩ := ho.close hi (ht.closing hkind hopens)
        exact ⟨false, depth, ⟨outer', group, ho', hg, heq⟩, hplaced, hbalanced⟩
    · simp only [placed, hkind, hopens, if_true, Bool.and_eq_true] at hplaced
      simp only [balanced, hkind, hopens, if_true] at hbalanced
      obtain ⟨rfl, hplaced⟩ := hplaced
      exact ⟨true, depth + 1, Due.group hb (ht.opening hopens), hplaced, hbalanced⟩

/-- All the tokens that are left, each in its place. -/
theorem Begun.infix_append {due : Bool} {depth : Nat} {before ts : List Token}
    (hb : Begun due depth before) (hts : ∀ t ∈ ts, Scanned t) (hplaced : placed due ts = true)
    (hbalanced : balanced depth ts = true) : Infix (before ++ ts) := by
  induction ts generalizing due depth before with
  | nil =>
    obtain rfl : due = false := by simpa [placed] using hplaced
    obtain rfl : depth = 0 := by simpa [balanced] using hbalanced
    obtain ⟨outer, operand, ho, hi, rfl⟩ := hb
    simpa using ho.complete hi
  | cons t rest ih =>
    obtain ⟨ht, hrest⟩ := List.forall_mem_cons.1 hts
    obtain ⟨due', depth', hb', hplaced', hbalanced'⟩ := hb.step ht hplaced hbalanced
    simpa using ih hb' hrest hplaced' hbalanced'

/-- Scanned tokens with balanced parentheses form a sentence if they are all in their places, and only
then. -/
theorem infix_iff_placed {ts : List Token} (hts : ∀ t ∈ ts, Scanned t)
    (hbalanced : balanced 0 ts = true) : Infix ts ↔ placed true ts = true := by
  constructor
  · intro h
    simpa [placed] using h.placed_append []
  · intro h
    have hb : Begun true 0 [] := Due.start
    simpa using hb.infix_append hts h hbalanced

/-! ## What the evaluation finds out -/

/-- Tokens in post-order that leave a number of operands on the stack. -/
inductive Leaves : Nat → List Token → Prop
  | none : Leaves 0 []
  | snoc {n : Nat} {before operand : List Token} (hb : Leaves n before) (ho : Postfix operand) :
      Leaves (n + 1) (before ++ operand)

theorem Leaves.exists_snoc {n : Nat} {ts : List Token} (h : Leaves (n + 1) ts) :
    ∃ before operand, Leaves n before ∧ Postfix operand ∧ before ++ operand = ts := by
  cases h with
  | snoc hb ho => exact ⟨_, _, hb, ho, rfl⟩

theorem Leaves.push {operands operands' : List Float} {before : List Token} {t : Token}
    (hb : Leaves operands.length before) (h : PostOrder.push operands t = .ok operands') :
    Leaves operands'.length (before ++ [t]) := by
  cases hkind : t.kind with
  | number =>
    simp only [PostOrder.push, hkind] at h
    cases hread : Double.read? t.value.toList with
    | none => simp [hread] at h
    | some x =>
      simp only [hread, Except.ok.injEq] at h
      subst h
      exact .snoc hb (.number hkind)
  | unaryMinus =>
    rcases operands with _ | ⟨x, operands⟩
    · simp [PostOrder.push, hkind] at h
    · simp only [PostOrder.push, hkind, Except.ok.injEq] at h
      subst h
      obtain ⟨below, operand, hbelow, ho, rfl⟩ := hb.exists_snoc
      rw [List.append_assoc]
      exact .snoc hbelow (.negation hkind ho)
  | operator =>
    rcases operands with _ | ⟨right, _ | ⟨left, operands⟩⟩
    · simp [PostOrder.push, hkind] at h
    · simp [PostOrder.push, hkind] at h
    · cases hop : Operator.ofSymbol? t.value with
      | none => simp [PostOrder.push, hkind, hop] at h
      | some op =>
        simp only [PostOrder.push, hkind, hop] at h
        obtain ⟨x, -, rfl⟩ := exists_of_map_eq_ok h
        obtain ⟨upper, r, hupper, hr, rfl⟩ := hb.exists_snoc
        obtain ⟨below, l, hbelow, hl, rfl⟩ := hupper.exists_snoc
        have hbinary := Postfix.binary ⟨hkind, by simp [hop]⟩ hl hr
        simpa using Leaves.snoc hbelow hbinary
  | parenthesis => simp [PostOrder.push, hkind] at h

theorem Leaves.foldlM_push {operands operands' : List Float} {before ts : List Token}
    (hb : Leaves operands.length before) (h : ts.foldlM PostOrder.push operands = .ok operands') :
    Leaves operands'.length (before ++ ts) := by
  induction ts generalizing operands before with
  | nil =>
    obtain rfl := Except.ok.inj h
    simpa using hb
  | cons t ts ih =>
    rw [List.foldlM_cons] at h
    cases hpush : PostOrder.push operands t with
    | error f =>
      rw [hpush] at h
      cases h
    | ok next =>
      rw [hpush] at h
      simpa using ih (hb.push hpush) h

/-- Tokens that have a value are a sentence of the postfix grammar. -/
theorem postfix_of_value {ts : List Token} {x : Float} (h : PostOrder.value ts = .ok x) :
    Postfix ts := by
  rw [PostOrder.value] at h
  cases hfold : ts.foldlM PostOrder.push [] with
  | error f =>
    rw [hfold] at h
    cases h
  | ok operands =>
    have hnone : Leaves ([] : List Float).length [] := .none
    have hleaves := hnone.foldlM_push hfold
    rw [hfold] at h
    rcases operands with _ | ⟨x, _ | ⟨y, operands⟩⟩
    · cases h
    · obtain ⟨before, operand, hb, ho, heq⟩ := hleaves.exists_snoc
      cases hb
      obtain rfl : operand = ts := by simpa using heq
      exact ho
    · cases h

/-! ## Main result -/

theorem evaluate_ok {maxLength : Int} {s : List Char} {ts : List Token} {x : Float}
    (h : evaluate maxLength s = .ok (ts, x)) :
    Token.ofText (normalize s) = .ok ts ∧
      ∃ post, PostOrder.ofTokens ts = .ok post ∧ PostOrder.value post = .ok x := by
  unfold evaluate at h
  obtain ⟨-, -, h⟩ := exists_of_bind_eq_ok h
  obtain ⟨-, -, h⟩ := exists_of_bind_eq_ok h
  obtain ⟨scanned, hscan, h⟩ := exists_of_bind_eq_ok h
  obtain ⟨y, hvalue, h⟩ := exists_of_bind_eq_ok h
  obtain ⟨-, -, h⟩ := exists_of_bind_eq_ok h
  obtain ⟨rfl, rfl⟩ := Prod.mk.inj (Except.ok.inj h)
  exact ⟨hscan, exists_of_bind_eq_ok hvalue⟩

theorem parse_valid {limits : ParseLimits} {s : List Char} {ts : List Token} {result : Number}
    (h : parse limits s = .ok (.valid ts result)) :
    ∃ x, evaluate limits.maxLength s = .ok (ts, x) ∧
      (Double.exact x).roundHalfUp limits.places = .ok result := by
  unfold parse at h
  rcases heval : evaluate limits.maxLength s with f | ⟨us, x⟩
  · simp only [heval] at h
    split at h <;> simp [ParseResult.ofFault] at h
  · simp only [heval] at h
    cases hround : (Double.exact x).roundHalfUp limits.places with
    | error e =>
      rw [hround] at h
      cases h
    | ok r =>
      rw [hround] at h
      obtain ⟨rfl, rfl⟩ := ParseResult.valid.inj (Except.ok.inj h)
      exact ⟨x, rfl, hround⟩

/-- **Accepted expressions**: the post-order of an accepted expression is a sentence of the postfix
grammar. The expression itself is a sentence of the infix grammar if all of its tokens are in their
places, and only then; nothing else makes sure that they are. -/
theorem accepted_infix_iff_placed {limits : ParseLimits} {s : List Char} {ts : List Token}
    {result : Number} (h : parse limits s = .ok (.valid ts result)) :
    (∃ post, PostOrder.ofTokens ts = .ok post ∧ Postfix post) ∧
      (Infix ts ↔ placed true ts = true) := by
  obtain ⟨x, heval, -⟩ := parse_valid h
  obtain ⟨hscan, post, horder, hvalue⟩ := evaluate_ok heval
  have hts := scanned_of_scan hscan
  refine ⟨⟨post, horder, postfix_of_value hvalue⟩, infix_iff_placed hts ?_⟩
  simpa using balanced_of_convert (by simp) hts horder

set_option maxRecDepth 10000 in
theorem accepted_infix_iff_placed_negated_group :
    ∃ ts, parse {} "-(2 - 3)".toList = .ok (.valid ts (.int 1)) ∧ Infix ts := by
  have h : parse {} "-(2 - 3)".toList =
      .ok (.valid [Spelling.minus 0, Spelling.parenthesis '(' 1, ⟨.number, "2", 2⟩,
        ⟨.operator, "-", 4⟩, ⟨.number, "3", 6⟩, Spelling.parenthesis ')' 7] (.int 1)) := by
    decide +kernel
  exact ⟨_, h, (accepted_infix_iff_placed h).2.2 (by decide)⟩

set_option maxRecDepth 10000 in
/-- Two numbers side by side are accepted if an operator follows. -/
theorem accepted_not_infix :
    ∃ ts, parse {} "2 3 +".toList = .ok (.valid ts (.int 5)) ∧ ¬ Infix ts := by
  have h : parse {} "2 3 +".toList =
      .ok (.valid [⟨.number, "2", 0⟩, ⟨.number, "3", 2⟩, ⟨.operator, "+", 4⟩] (.int 5)) := by
    decide +kernel
  refine ⟨_, h, fun hinfix => ?_⟩
  have hplaced := hinfix.placed_append []
  simp [placed] at hplaced

end Longhand.Expression
