import Longhand.Proofs.Grammar
import Longhand.Proofs.RoundedDoubles
/-!
# The outcome of parsing

The outcome of parsing is a value or a fault, and a fault is what the first stage that fails has found. What
each stage finds is true of the text: a count of parentheses, a character, a token of the text
(`FirstFault.foundAt`). Two things can never be found. After the look at the parentheses there is
always a post-order (`exists_ofTokens`), and every operator in it is known, for the scanner makes no
other. A value in range is rounded to an integer or a finite double, whatever the number of places
(`Decimal.Moderate.roundHalfUp_eq`). What stands in the way of an outcome is not in the text: a length
limit with too many digits to be told, or more places than a calculation keeps digits.
-/

namespace Longhand

theorem append_ne_empty {s t : String} (h : s ≠ "") : s ++ t ≠ "" := by
  intro happend
  exact h (String.append_eq_empty_iff.1 happend).1

theorem ExpressionFault.message_ne_empty (f : ExpressionFault) : f.message ≠ "" := by
  unfold message
  cases f with
  | tooLong limit => exact append_ne_empty (append_ne_empty (by decide))
  | invalidCharacter c position =>
    exact append_ne_empty (append_ne_empty (append_ne_empty (by decide)))
  | invalidNumber numeral position => exact append_ne_empty (append_ne_empty (by decide))
  | unknownOperator symbol => exact append_ne_empty (append_ne_empty (by decide))
  | _ =>
    simp only
    decide

namespace Expression

open PostOrder

/-! ## Parentheses -/

/-- What can be wrong with the parentheses of a text after `depth` open ones. -/
inductive Unbalanced (depth : Nat) (s : List Char) : ExpressionFault → Prop
  /-- A parenthesis closes when all before it are closed. -/
  | mismatched {before after : List Char} (hs : s = before ++ ')' :: after)
      (hcount : depth + before.count '(' = before.count ')') : Unbalanced depth s .mismatched
  | unclosed {n : Nat} (hn : 0 < n) (hcount : depth + s.count '(' = s.count ')' + n) :
      Unbalanced depth s (.unclosed n)

theorem Unbalanced.cons {depth depth' : Nat} {c : Char} {rest : List Char} {f : ExpressionFault}
    (h : Unbalanced depth' rest f)
    (hdepth : depth + [c].count '(' = depth' + [c].count ')') : Unbalanced depth (c :: rest) f := by
  have hcons : ∀ (a : Char) (s : List Char), (c :: s).count a = [c].count a + s.count a :=
    fun a s => @List.count_append _ _ a [c] s
  cases h with
  | @mismatched before after hs hcount =>
    subst hs
    have hopen := hcons '(' before
    have hclose := hcons ')' before
    exact .mismatched (List.cons_append ..).symm (by omega)
  | unclosed hn hcount =>
    have hopen := hcons '(' rest
    have hclose := hcons ')' rest
    exact .unclosed hn (by omega)

theorem checkDepth_open (depth : Nat) (rest : List Char) :
    checkDepth depth ('(' :: rest) = checkDepth (depth + 1) rest := by
  cases depth <;> rfl

theorem checkDepth_close (depth : Nat) (rest : List Char) :
    checkDepth (depth + 1) (')' :: rest) = checkDepth depth rest := by
  simp [checkDepth]

theorem checkDepth_close_zero (rest : List Char) :
    checkDepth 0 (')' :: rest) = .error .mismatched := by
  simp [checkDepth]

theorem checkDepth_other {c : Char} (depth : Nat) (rest : List Char) (hopen : c ≠ '(')
    (hclose : c ≠ ')') : checkDepth depth (c :: rest) = checkDepth depth rest := by
  cases depth <;> simp [checkDepth, hopen, hclose]

theorem unbalanced_of_checkDepth {depth : Nat} {s : List Char} {f : ExpressionFault}
    (h : checkDepth depth s = .error f) : Unbalanced depth s f := by
  induction s generalizing depth with
  | nil =>
    cases depth with
    | zero => cases h
    | succ depth =>
      obtain rfl := Except.error.inj h
      exact .unclosed (Nat.succ_pos depth) (by simp)
  | cons c rest ih =>
    by_cases hopen : c = '('
    · subst hopen
      rw [checkDepth_open] at h
      exact (ih h).cons (by simp)
    by_cases hclose : c = ')'
    · subst hclose
      cases depth with
      | zero =>
        rw [checkDepth_close_zero] at h
        obtain rfl := Except.error.inj h
        exact .mismatched (List.nil_append _).symm rfl
      | succ depth =>
        rw [checkDepth_close] at h
        exact (ih h).cons (by simp)
    · rw [checkDepth_other depth rest hopen hclose] at h
      exact (ih h).cons (by simp [hopen, hclose])

/-! ## Tokens -/

/-- A character that starts no token and is no blank. -/
structure Foreign (c : Char) : Prop where
  not_blank : Text.isBlank c = false
  not_digit : Token.isDigit c = false
  not_operator : Operator.ofChar? c = none
  not_parenthesis : Token.isParenthesis c = false

theorem foreign_of_not {c : Char} (hblank : ¬Text.isBlank c = true)
    (hdigit : ¬Token.isDigit c = true) (hop : ¬(Operator.ofChar? c).isSome = true)
    (hparen : ¬Token.isParenthesis c = true) : Foreign c :=
  ⟨by simpa using hblank, by simpa using hdigit, by simpa using hop, by simpa using hparen⟩

/-- What the scanner finds in a text that starts at `position`. -/
def ForeignAt (position : Nat) (s : List Char) (f : ExpressionFault) : Prop :=
  ∃ i c, s[i]? = some c ∧ Foreign c ∧ f = .invalidCharacter c (position + i)

theorem ForeignAt.append_left {position : Nat} {rest : List Char} {f : ExpressionFault}
    (first : List Char) (h : ForeignAt (position + first.length) rest f) :
    ForeignAt position (first ++ rest) f := by
  obtain ⟨i, c, hat, hc, rfl⟩ := h
  refine ⟨first.length + i, c, ?_, hc, by rw [Nat.add_assoc]⟩
  rw [List.getElem?_append_right (Nat.le_add_right _ _), Nat.add_sub_cancel_left, hat]

theorem scan_of_foreign {operand : Bool} {position : Nat} {c : Char} {rest : List Char}
    (hc : Foreign c) :
    Token.scan operand position (c :: rest) = .error (.invalidCharacter c position) := by
  have hminus : ¬(c = '-' ∧ operand = true) := by
    rintro ⟨rfl, -⟩
    exact absurd hc.not_operator (by decide)
  rw [Token.scan.eq_def]
  simp [hc.not_blank, hc.not_digit, hc.not_operator, hc.not_parenthesis, hminus]

theorem foreignAt_of_scan {operand : Bool} {position : Nat} {s : List Char} {f : ExpressionFault}
    (h : Token.scan operand position s = .error f) : ForeignAt position s f := by
  induction operand, position, s using Token.scan.induct with
  | case1 operand position =>
    rw [scan_nil] at h
    cases h
  | case2 operand position c rest hblank ih =>
    rw [scan_of_blank hblank] at h
    exact (ih h).append_left [c]
  | case3 operand position c rest hblank hdigit run ih =>
    rw [scan_of_digit hblank hdigit] at h
    have hsplit : run ++ rest.dropWhile Token.isNumeric = c :: rest :=
      congrArg (c :: ·) List.takeWhile_append_dropWhile
    rw [← hsplit]
    exact (ih (eq_error_of_map h)).append_left run
  | case4 operand position c rest hblank hdigit hminus ih =>
    rw [scan_of_sign hminus] at h
    exact (ih (eq_error_of_map h)).append_left [c]
  | case5 operand position c rest hblank hdigit hminus hop ih =>
    rw [scan_of_operator hblank hdigit hminus hop] at h
    exact (ih (eq_error_of_map h)).append_left [c]
  | case6 operand position c rest hblank hdigit hminus hop hparen ih =>
    rw [scan_of_parenthesis hparen] at h
    exact (ih (eq_error_of_map h)).append_left [c]
  | case7 operand position c rest hblank hdigit hminus hop hparen =>
    have hforeign : Foreign c := foreign_of_not hblank hdigit hop hparen
    rw [scan_of_foreign hforeign] at h
    exact ⟨0, c, rfl, hforeign, (Except.error.inj h).symm⟩

/-! ## Post-order -/

theorem checkDepth_cons {p : Char → Bool} {c : Char} (hc : p c = true) (hopen : p '(' = false)
    (hclose : p ')' = false) (depth : Nat) (rest : List Char) :
    checkDepth depth (c :: rest) = checkDepth depth rest := by
  refine checkDepth_other depth rest ?_ ?_
  · rintro rfl
    exact Bool.noConfusion (hopen.symm.trans hc)
  · rintro rfl
    exact Bool.noConfusion (hclose.symm.trans hc)

theorem checkDepth_dropWhile {p : Char → Bool} (hopen : p '(' = false) (hclose : p ')' = false)
    (depth : Nat) (s : List Char) : checkDepth depth (s.dropWhile p) = checkDepth depth s := by
  induction s with
  | nil => rfl
  | cons c rest ih =>
    by_cases hc : p c = true
    · rw [List.dropWhile_cons_of_pos hc, ih, checkDepth_cons hc hopen hclose]
    · rw [List.dropWhile_cons_of_neg hc]

/-- Tokens have the parentheses of their text. -/
theorem CutInto.balanced_iff {position : Nat} {s : List Char} {ts : List Token}
    (h : CutInto position s ts) (depth : Nat) :
    balanced depth ts = true ↔ checkDepth depth s = .ok () := by
  induction h generalizing depth with
  | nil => cases depth <;> simp [balanced, checkDepth]
  | blank hblank hrest ih =>
    rw [checkDepth_cons hblank (by decide) (by decide)]
    exact ih depth
  | @number _ _ rest _ hblank hdigit hrest ih =>
    have hrun := checkDepth_dropWhile (p := Token.isNumeric) (by decide) (by decide) depth rest
    rw [checkDepth_cons hdigit (by decide) (by decide), ← hrun]
    simpa [balanced] using ih depth
  | @symbol _ _ rest _ _ hblank hc hrest ih =>
    cases hc with
    | sign =>
      rw [checkDepth_other depth rest (by decide) (by decide)]
      simpa [balanced] using ih depth
    | operator hop =>
      let known (c : Char) : Bool := (Operator.ofChar? c).isSome
      rw [checkDepth_cons (p := known) hop rfl rfl]
      simpa [balanced] using ih depth
    | opening =>
      rw [checkDepth_open]
      simpa [balanced, opens] using ih (depth + 1)
    | closing =>
      cases depth with
      | zero => simp [balanced, opens, checkDepth_close_zero]
      | succ depth =>
        rw [checkDepth_close]
        simpa [balanced, opens] using ih depth

theorem balanced_scan_iff {operand : Bool} {depth position : Nat} {s : List Char} {ts : List Token}
    (h : Token.scan operand position s = .ok ts) :
    balanced depth ts = true ↔ checkDepth depth s = .ok () :=
  (cutInto_of_scan h).balanced_iff depth

/-- A token that waits on the stack, and where it comes from. -/
structure Waiting (source : List Token) (t : Token) : Prop where
  mem : t ∈ source
  stacked : Stacked t

/-- A token of a post-order, and where it comes from. -/
structure Ordered (source : List Token) (t : Token) : Prop where
  mem : t ∈ source
  not_parenthesis : t.kind ≠ .parenthesis

section

variable {source stack : List Token} (hstack : ∀ t ∈ stack, Waiting source t)

include hstack

/-- With balanced parentheses every token of the conversion moves some tokens, and the rest is still
balanced with those that wait after it. -/
theorem exists_moved {t : Token} {rest : List Token} (hsource : t ∈ source) (ht : Scanned t)
    (hbalanced : balanced (stack.countP opens) (t :: rest) = true) :
    ∃ taken stack', convert stack (t :: rest) = (taken ++ ·) <$> convert stack' rest ∧
      (∀ u ∈ taken, Ordered source u) ∧ (∀ u ∈ stack', Waiting source u) ∧
      balanced (stack'.countP opens) rest = true := by
  have hstacked : ∀ u ∈ stack, Stacked u := fun u hu => (hstack u hu).stacked
  have hmem : ∀ u ∈ t :: stack, u ∈ source :=
    List.forall_mem_cons.2 ⟨hsource, fun u hu => (hstack u hu).mem⟩
  rcases convert_cons hstacked ht rest with ⟨taken, stack', hmoves, hconvert⟩ | ⟨hclosing, hnone, -⟩
  · refine ⟨taken, stack', hconvert, fun u hu => ?_, fun u hu => ?_, ?_⟩
    · obtain ⟨hu, hkind⟩ := hmoves.mem_taken u hu
      exact ⟨hmem u hu, hkind⟩
    · obtain ⟨hu, hwaits⟩ := hmoves.mem_stack hstacked ht u hu
      exact ⟨hmem u hu, hwaits⟩
    · rwa [← hmoves.balanced_cons hstacked ht]
  · -- without an opening parenthesis on the stack the tokens are not balanced
    simp [balanced, hclosing.kind_eq, hclosing.opens_eq, hnone] at hbalanced

/-- **Tokens with balanced parentheses have a post-order**, in which no parentheses are left. -/
theorem exists_convert {ts : List Token} (hts : ∀ t ∈ ts, t ∈ source ∧ Scanned t)
    (hbalanced : balanced (stack.countP opens) ts = true) :
    ∃ out, convert stack ts = .ok out ∧ ∀ t ∈ out, Ordered source t := by
  induction ts generalizing stack with
  | nil =>
    have hnone : ∀ t ∈ stack, t.kind ≠ .parenthesis := by
      intro t ht hkind
      have hcount : stack.countP opens = 0 := by simpa [balanced] using hbalanced
      exact List.countP_eq_zero.1 hcount t ht ((hstack t ht).stacked.1 hkind)
    have hany : stack.any (·.kind = .parenthesis) = false := by simpa using hnone
    refine ⟨stack, ?_, fun t ht => ⟨(hstack t ht).mem, hnone t ht⟩⟩
    rw [convert, hany]
    rfl
  | cons t rest ih =>
    obtain ⟨⟨hsource, ht⟩, hrest⟩ := List.forall_mem_cons.1 hts
    obtain ⟨taken, stack', hstep, htaken, hstack', hbalanced'⟩ :=
      exists_moved hstack hsource ht hbalanced
    obtain ⟨out, hout, hordered⟩ := ih hstack' hrest hbalanced'
    refine ⟨taken ++ out, ?_, List.forall_mem_append.2 ⟨htaken, hordered⟩⟩
    rw [hstep, hout]
    rfl

end

/-- After the look at the parentheses the conversion never fails. -/
theorem exists_ofTokens {s : List Char} {ts : List Token} (hparentheses : checkParentheses s = .ok ())
    (hscan : Token.ofText s = .ok ts) :
    ∃ post, PostOrder.ofTokens ts = .ok post ∧ ∀ t ∈ post, Ordered ts t := by
  have hts : ∀ t ∈ ts, t ∈ ts ∧ Scanned t := fun t ht => ⟨ht, scanned_of_scan hscan t ht⟩
  exact exists_convert (by simp) hts ((balanced_scan_iff hscan).2 hparentheses)

theorem ordered_of_ofTokens {s : List Char} {ts post : List Token}
    (hparentheses : checkParentheses s = .ok ()) (hscan : Token.ofText s = .ok ts)
    (h : PostOrder.ofTokens ts = .ok post) : ∀ t ∈ post, Ordered ts t := by
  obtain ⟨out, hout, hordered⟩ := exists_ofTokens hparentheses hscan
  obtain rfl : out = post := Except.ok.inj (hout.symm.trans h)
  exact hordered

/-! ## Evaluation -/

/-- What can be wrong with a token of a post-order. -/
inductive Faulty (t : Token) : ExpressionFault → Prop
  | invalidNumber (hkind : t.kind = .number) (hread : Double.read? t.value.toList = none) :
      Faulty t (.invalidNumber t.value t.position)
  | insufficientOperands (hoperation : t.operation?.isSome = true) :
      Faulty t (.insufficientOperands t.position)
  | divisionByZero (hdivision : t.operation? = some (.binary .division)) :
      Faulty t .divisionByZero

theorem combine_eq_error {op : Operator} {left right : Float} {f : ExpressionFault}
    (h : combine op left right = .error f) : op = .division ∧ f = .divisionByZero := by
  unfold combine at h
  cases op with
  | division =>
    simp only at h
    split at h
    · exact ⟨rfl, (Except.error.inj h).symm⟩
    · cases h
  | _ => cases h

theorem faulty_of_push {operands : List Float} {t : Token} {f : ExpressionFault} (ht : Scanned t)
    (hne : t.kind ≠ .parenthesis) (h : push operands t = .error f) : Faulty t f := by
  cases hkind : t.kind with
  | number =>
    cases hread : Double.read? t.value.toList with
    | none =>
      simp only [push, hkind, hread] at h
      obtain rfl := Except.error.inj h
      exact .invalidNumber hkind hread
    | some x => simp [push, hkind, hread] at h
  | unaryMinus =>
    have hoperation : t.operation?.isSome = true := by simp [Token.operation?, hkind]
    rcases operands with _ | ⟨x, operands⟩
    · simp only [push, hkind] at h
      obtain rfl := Except.error.inj h
      exact .insufficientOperands hoperation
    · simp [push, hkind] at h
  | operator =>
    obtain ⟨op, hop⟩ := Option.isSome_iff_exists.1 (ht.known hkind)
    have hoperation : t.operation? = some (.binary op) := by simp [Token.operation?, hkind, hop]
    rcases operands with _ | ⟨right, _ | ⟨left, operands⟩⟩
    · simp only [push, hkind] at h
      obtain rfl := Except.error.inj h
      exact .insufficientOperands (by simp [hoperation])
    · simp only [push, hkind] at h
      obtain rfl := Except.error.inj h
      exact .insufficientOperands (by simp [hoperation])
    · simp only [push, hkind, hop] at h
      obtain ⟨rfl, rfl⟩ := combine_eq_error (eq_error_of_map h)
      exact .divisionByZero hoperation
  | parenthesis => exact absurd hkind hne

section

variable {source ts : List Token} {f : ExpressionFault} (hts : ∀ t ∈ ts, Ordered source t)
  (hsource : ∀ t ∈ source, Scanned t)

include hts hsource

theorem faulty_of_foldlM {operands : List Float} (h : ts.foldlM push operands = .error f) :
    ∃ t ∈ source, Faulty t f := by
  induction ts generalizing operands with
  | nil => cases h
  | cons t rest ih =>
    obtain ⟨ht, hrest⟩ := List.forall_mem_cons.1 hts
    rw [List.foldlM_cons] at h
    cases hpush : push operands t with
    | error g =>
      rw [hpush] at h
      obtain rfl := Except.error.inj h
      exact ⟨t, ht.mem, faulty_of_push (hsource t ht.mem) ht.not_parenthesis hpush⟩
    | ok operands' =>
      rw [hpush] at h
      exact ih hrest h

/-- What the evaluation finds, it finds in a token, or only at the end. -/
theorem faulty_of_value (h : PostOrder.value ts = .error f) :
    f = .incomplete ∨ ∃ t ∈ source, Faulty t f := by
  unfold PostOrder.value at h
  cases hfold : ts.foldlM push [] with
  | error g =>
    rw [hfold] at h
    obtain rfl := Except.error.inj h
    right
    exact faulty_of_foldlM hts hsource hfold
  | ok operands =>
    rw [hfold] at h
    left
    rcases operands with _ | ⟨x, _ | ⟨y, operands⟩⟩
    · exact (Except.error.inj h).symm
    · cases h
    · exact (Except.error.inj h).symm

end

/-! ## The first stage that fails -/

/-- The stages that an expression goes through, in their order. -/
inductive Stage where
  | blank
  | length
  | parentheses
  | tokens
  | postOrder
  | value
  | range
deriving DecidableEq, Repr

/-- The text has something in it and is not too long. -/
structure Admitted (maxLength : Int) (s : List Char) : Prop where
  not_blank : s.all Text.isBlank = false
  length_le : (Text.trim s).length ≤ maxLength

/-- The text has been split into tokens. -/
structure Tokenized (maxLength : Int) (s : List Char) (ts : List Token) : Prop
    extends Admitted maxLength s where
  parentheses : checkParentheses s = .ok ()
  tokens : Token.ofText s = .ok ts

/-- The tokens have been evaluated. -/
structure Evaluated (maxLength : Int) (s : List Char) (ts : List Token) (x : Float) : Prop
    extends Tokenized maxLength s ts where
  value : ∃ post, PostOrder.ofTokens ts = .ok post ∧ PostOrder.value post = .ok x

/-- A stage fails after all the stages before it have passed. -/
inductive FirstFault (maxLength : Int) (s : List Char) : Stage → ExpressionFault → Prop
  | blank (h : s.all Text.isBlank = true) : FirstFault maxLength s .blank .empty
  | length (hblank : s.all Text.isBlank = false) (h : maxLength < (Text.trim s).length) :
      FirstFault maxLength s .length (.tooLong maxLength)
  | parentheses {f : ExpressionFault} (ha : Admitted maxLength s)
      (h : checkParentheses s = .error f) : FirstFault maxLength s .parentheses f
  | tokens {f : ExpressionFault} (ha : Admitted maxLength s) (hp : checkParentheses s = .ok ())
      (h : Token.ofText s = .error f) : FirstFault maxLength s .tokens f
  | postOrder {ts : List Token} {f : ExpressionFault} (ht : Tokenized maxLength s ts)
      (h : PostOrder.ofTokens ts = .error f) : FirstFault maxLength s .postOrder f
  | value {ts post : List Token} {f : ExpressionFault} (ht : Tokenized maxLength s ts)
      (ho : PostOrder.ofTokens ts = .ok post) (h : PostOrder.value post = .error f) :
      FirstFault maxLength s .value f
  | range {ts : List Token} {x : Float} (hv : Evaluated maxLength s ts x)
      (h : x.isFinite = false) : FirstFault maxLength s .range .outOfRange

/-- What a stage can find, and what is true of the text when it does. Nothing is found in bringing the
tokens into post-order. -/
inductive FoundAt (s : List Char) : Stage → ExpressionFault → Prop
  | blank (h : s.all Text.isBlank = true) : FoundAt s .blank .empty
  | length {limit : Int} (h : limit < (Text.trim s).length) : FoundAt s .length (.tooLong limit)
  | parentheses {f : ExpressionFault} (h : Unbalanced 0 s f) : FoundAt s .parentheses f
  | tokens {c : Char} {position : Nat} (hat : s[position]? = some c) (hc : Foreign c) :
      FoundAt s .tokens (.invalidCharacter c position)
  | value {ts : List Token} {t : Token} {f : ExpressionFault} (hscan : Token.ofText s = .ok ts)
      (ht : t ∈ ts) (h : Faulty t f) : FoundAt s .value f
  | incomplete : FoundAt s .value .incomplete
  | range : FoundAt s .range .outOfRange

/-- The stage that finds a fault. -/
def stageOf : ExpressionFault → Stage
  | .empty => .blank
  | .tooLong _ => .length
  | .mismatched | .unclosed _ => .parentheses
  | .invalidCharacter _ _ => .tokens
  | .unknownOperator _ => .postOrder
  | .invalidNumber _ _ | .insufficientOperands _ | .strayParenthesis _ | .incomplete
  | .divisionByZero => .value
  | .outOfRange => .range

theorem FoundAt.stage_eq {s : List Char} {stage : Stage} {f : ExpressionFault}
    (h : FoundAt s stage f) : stage = stageOf f := by
  cases h with
  | parentheses h => cases h <;> rfl
  | value hscan ht h => cases h <;> rfl
  | _ => rfl

section

variable {maxLength : Int} {s : List Char} {stage : Stage} {f : ExpressionFault}

theorem FirstFault.foundAt (h : FirstFault maxLength s stage f) : FoundAt s stage f := by
  cases h with
  | blank h => exact .blank h
  | length hblank h => exact .length h
  | parentheses ha h => exact .parentheses (unbalanced_of_checkDepth h)
  | tokens ha hp h =>
    obtain ⟨position, c, hat, hc, rfl⟩ := foreignAt_of_scan h
    rw [Nat.zero_add]
    exact .tokens hat hc
  | postOrder ht h =>
    obtain ⟨post, hpost, -⟩ := exists_ofTokens ht.parentheses ht.tokens
    rw [hpost] at h
    cases h
  | value ht ho h =>
    have hordered := ordered_of_ofTokens ht.parentheses ht.tokens ho
    have hscanned := scanned_of_scan ht.tokens
    rcases faulty_of_value hordered hscanned h with rfl | ⟨t, hmem, hfaulty⟩
    · exact .incomplete
    · exact .value ht.tokens hmem hfaulty
  | range hv h => exact .range

/-- Every stage passes, or one of them is the first that fails. -/
theorem evaluated_or_firstFault (maxLength : Int) (s : List Char) :
    (∃ ts x, Evaluated maxLength s ts x ∧ x.isFinite = true) ∨
      ∃ stage f, FirstFault maxLength s stage f := by
  by_cases hblank : s.all Text.isBlank = true
  · exact .inr ⟨_, _, .blank hblank⟩
  rw [Bool.not_eq_true] at hblank
  by_cases hlength : maxLength < (Text.trim s).length
  · exact .inr ⟨_, _, .length hblank hlength⟩
  have ha : Admitted maxLength s := ⟨hblank, not_lt.1 hlength⟩
  rcases hp : checkParentheses s with f | ⟨⟩
  · exact .inr ⟨_, _, .parentheses ha hp⟩
  rcases hscan : Token.ofText s with f | ts
  · exact .inr ⟨_, _, .tokens ha hp hscan⟩
  have ht : Tokenized maxLength s ts := ⟨ha, hp, hscan⟩
  rcases ho : PostOrder.ofTokens ts with f | post
  · exact .inr ⟨_, _, .postOrder ht ho⟩
  rcases hv : PostOrder.value post with f | x
  · exact .inr ⟨_, _, .value ht ho hv⟩
  have he : Evaluated maxLength s ts x := ⟨ht, post, ho, hv⟩
  by_cases hfinite : x.isFinite = true
  · exact .inl ⟨ts, x, he, hfinite⟩
  rw [Bool.not_eq_true] at hfinite
  exact .inr ⟨_, _, .range he hfinite⟩

theorem Admitted.checkLength_eq (h : Admitted maxLength s) : checkLength maxLength s = .ok () := by
  unfold checkLength
  rw [if_neg (by simp [h.not_blank]), if_neg (not_lt.2 h.length_le)]

theorem Evaluated.evaluate_eq {ts : List Token} {x : Float}
    (h : Evaluated maxLength (normalize s) ts x) (hx : x.isFinite = true) :
    evaluate maxLength s = .ok (ts, x) := by
  obtain ⟨post, hpost, hvalue⟩ := h.value
  have hlength := h.checkLength_eq
  have hrange : checkRange x = .ok () := if_pos hx
  unfold evaluate evaluateTokens
  simp only [hlength, h.parentheses, h.tokens, hpost, hvalue, hrange, bind, Except.bind]

/-- The fault of the first stage that fails is the outcome of the evaluation. -/
theorem FirstFault.evaluate_eq (h : FirstFault maxLength (normalize s) stage f) :
    evaluate maxLength s = .error f := by
  unfold evaluate evaluateTokens
  cases h with
  | blank h =>
    have hlength : checkLength maxLength (normalize s) = .error .empty := if_pos h
    simp only [hlength, bind, Except.bind]
  | length hblank h =>
    have hlength : checkLength maxLength (normalize s) = .error (.tooLong maxLength) := by
      unfold checkLength
      rw [if_neg (by simp [hblank]), if_pos h]
    simp only [hlength, bind, Except.bind]
  | parentheses ha h => simp only [ha.checkLength_eq, h, bind, Except.bind]
  | tokens ha hp h => simp only [ha.checkLength_eq, hp, h, bind, Except.bind]
  | postOrder ht h =>
    simp only [ht.checkLength_eq, ht.parentheses, ht.tokens, h, bind, Except.bind]
  | value ht ho h =>
    simp only [ht.checkLength_eq, ht.parentheses, ht.tokens, ho, h, bind, Except.bind]
  | range hv h =>
    obtain ⟨post, hpost, hvalue⟩ := hv.value
    have hrange : ∀ x : Float, x.isFinite = false → checkRange x = .error .outOfRange := by
      intro x hx
      exact if_neg (by simp [hx])
    simp only [hv.checkLength_eq, hv.parentheses, hv.tokens, hpost, hvalue, hrange _ h, bind,
      Except.bind]

/-- Only one stage is the first that fails, and it finds one fault. -/
theorem FirstFault.unique {stage' : Stage} {f' : ExpressionFault}
    (h : FirstFault maxLength (normalize s) stage f)
    (h' : FirstFault maxLength (normalize s) stage' f') : stage' = stage ∧ f' = f := by
  obtain rfl : f' = f := Except.error.inj (h'.evaluate_eq.symm.trans h.evaluate_eq)
  exact ⟨h'.foundAt.stage_eq.trans h.foundAt.stage_eq.symm, rfl⟩

end

/-! ## Main result -/

theorem parse_of_evaluated {limits : ParseLimits} {s : List Char} {ts : List Token} {x : Float}
    (h : Evaluated limits.maxLength (normalize s) ts x) (hx : x.isFinite = true) :
    parse limits s = .valid ts <$> (Double.exact x).roundHalfUp limits.places := by
  unfold parse
  simp only [h.evaluate_eq hx]

theorem parse_of_firstFault {limits : ParseLimits} {s : List Char} {stage : Stage}
    {f : ExpressionFault} (h : FirstFault limits.maxLength (normalize s) stage f) :
    parse limits s =
      if f.isTold then .ok (.invalid [] f.message (some f.code)) else .error .unwritableInteger := by
  unfold parse
  simp only [h.evaluate_eq, ParseResult.ofFault]

/-- Why a text has no parse result: it exceeds a limit that has too many digits to be told, or its value
is to be rounded with more digits than a calculation keeps. -/
inductive NoOutcome (limits : ParseLimits) (s : List Char) : ArithmeticError → Prop
  | limit (hblank : (normalize s).all Text.isBlank = false)
      (h : limits.maxLength < (Text.trim (normalize s)).length)
      (hlong : Digits.maxLength < (Digits.ofNat limits.maxLength.natAbs).length) :
      NoOutcome limits s .unwritableInteger
  | places {ts : List Token} {x : Float} (he : Evaluated limits.maxLength (normalize s) ts x)
      (hx : x.isFinite = true)
      (h : maxPrecision < (Double.exact x).workingPrecision limits.places) :
      NoOutcome limits s (.precisionTooLarge ((Double.exact x).workingPrecision limits.places))

/-- Only the limit on the length may not be told. -/
theorem FoundAt.isTold {s : List Char} {stage : Stage} {f : ExpressionFault} (h : FoundAt s stage f)
    (hstage : stage ≠ .length) : f.isTold = true := by
  cases h with
  | length h => exact absurd rfl hstage
  | parentheses h => cases h <;> rfl
  | value hscan ht h => cases h <;> rfl
  | _ => rfl

theorem FirstFault.noOutcome {limits : ParseLimits} {s : List Char} {stage : Stage}
    {f : ExpressionFault} (h : FirstFault limits.maxLength (normalize s) stage f)
    (htold : ¬f.isTold = true) : NoOutcome limits s .unwritableInteger := by
  by_cases hstage : stage = .length
  · subst hstage
    cases h with
    | length hblank h => exact .limit hblank h (by simpa [ExpressionFault.isTold] using htold)
  · exact absurd (h.foundAt.isTold hstage) htold

theorem NoOutcome.parse_eq {limits : ParseLimits} (hplaces : -limits.places ≤ maxAdjusted)
    {s : List Char} {e : ArithmeticError} (h : NoOutcome limits s e) : parse limits s = .error e := by
  cases h with
  | limit hblank h hlong =>
    rw [parse_of_firstFault (.length hblank h), if_neg]
    simpa [ExpressionFault.isTold] using hlong
  | @places ts x he hx h =>
    obtain ⟨d, hexact, hd⟩ := Double.moderate_exact hx
    have hround := hd.roundHalfUp_eq hplaces
    rw [← hexact, if_pos h] at hround
    rw [parse_of_evaluated he hx, hround]
    rfl

/-- **The outcome of parsing**, for every text, every length limit and every number of places that a
decimal has an exponent for. Either every stage passes, and the outcome holds the tokens and the
rounded value, which is finite, provided that so many digits can be kept as the places ask for. Or the
outcome holds the message and the code of what the first stage that fails has found, and there is only
one such stage; only a limit on the length that has too many digits cannot be told. -/
theorem parse_reports_first_fault (limits : ParseLimits) (hplaces : -limits.places ≤ maxAdjusted)
    (s : List Char) :
    (∃ ts x, Evaluated limits.maxLength (normalize s) ts x ∧ x.isFinite = true ∧
      if maxPrecision < (Double.exact x).workingPrecision limits.places then
        parse limits s =
          .error (.precisionTooLarge ((Double.exact x).workingPrecision limits.places))
      else ∃ r, (Double.exact x).roundHalfUp limits.places = .ok r ∧ r.IsFinite ∧
        parse limits s = .ok (.valid ts r)) ∨
    ∃ stage f, FirstFault limits.maxLength (normalize s) stage f ∧
      (∀ stage' f', FirstFault limits.maxLength (normalize s) stage' f' →
        stage' = stage ∧ f' = f) ∧
      FoundAt (normalize s) stage f ∧ f.message ≠ "" ∧
      parse limits s =
        if f.isTold then .ok (.invalid [] f.message (some f.code))
        else .error .unwritableInteger := by
  rcases evaluated_or_firstFault limits.maxLength (normalize s) with
    ⟨ts, x, he, hx⟩ | ⟨stage, f, hf⟩
  · left
    obtain ⟨d, hexact, hd⟩ := Double.moderate_exact hx
    have hround := hd.roundHalfUp_eq hplaces
    rw [← hexact] at hround
    refine ⟨ts, x, he, hx, ?_⟩
    rw [parse_of_evaluated he hx]
    split at hround
    · rename_i hprecision
      rw [if_pos hprecision, hround]
      rfl
    · rename_i hprecision
      rw [if_neg hprecision, hround]
      exact ⟨_, rfl, hd.isFinite_atExponent _, rfl⟩
  · right
    exact ⟨stage, f, hf, fun _ _ => hf.unique, hf.foundAt, f.message_ne_empty,
      parse_of_firstFault hf⟩

set_option maxRecDepth 10000 in
/-- Rounding to hundreds. -/
theorem parse_reports_first_fault_hundreds :
    ∃ ts x r, Evaluated 200 (normalize "149 + 1".toList) ts x ∧ Number.IsFinite r ∧
      parse ⟨200, -2⟩ "149 + 1".toList = .ok (.valid ts r) ∧ r = .int 200 := by
  have h : (parse ⟨200, -2⟩ "149 + 1".toList).toOption.map ParseResult.answer =
      some (.inl (.int 200)) := by
    decide +kernel
  rcases parse_reports_first_fault ⟨200, -2⟩ (by decide) "149 + 1".toList with
    ⟨ts, x, he, -, houtcome⟩ | ⟨stage, f, -, -, -, -, hparse⟩
  · split at houtcome
    · rw [houtcome] at h
      cases h
    · obtain ⟨r, -, hr, hparse⟩ := houtcome
      rw [hparse] at h
      exact ⟨ts, x, r, he, hr, hparse, Sum.inl.inj (Option.some.inj h)⟩
  · rw [hparse] at h
    split at h <;> cases h

/-- A limit below zero with a digit too many is exceeded by every text, but cannot be told; and no
calculation keeps as many digits as so many places ask for. -/
theorem outcome_not_given :
    parse ⟨-pow10 Digits.maxLength, 2⟩ "1".toList = .error .unwritableInteger ∧
      parse ⟨200, 999999999999999999⟩ "1".toList =
        .error (.precisionTooLarge 1000000000000000001) := by
  constructor
  · have hpos := pow10_pos Digits.maxLength
    have hlong := mt (Digits.length_ofNat_le_iff (by decide)).1 (lt_irrefl (pow10 Digits.maxLength))
    refine NoOutcome.parse_eq (by decide) (.limit (by decide) ?_ ?_)
    · exact (Int.neg_neg_of_pos (Int.natCast_pos.2 hpos)).trans_le (Int.natCast_nonneg _)
    · rw [Int.natAbs_neg, Int.natAbs_natCast]
      exact not_le.1 hlong
  · decide +kernel

end Expression

end Longhand
