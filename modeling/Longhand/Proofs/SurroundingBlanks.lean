import Longhand.Problem.Expression
import Longhand.Proofs.Interchange
import Longhand.Proofs.JoinedTexts
/-!
# Blanks around an expression

Positions are counted from the start of the text, so blanks before an expression move the positions
of its tokens and faults on (`Token.shift`, `ExpressionFault.shift`). Nothing else changes: a token
and the one further on stand for each other (`interchange_shift`), so the value or the fault is the
same (`evaluate_blanks`). What is asked to be worked does not depend on positions at all
(`taskOfTokens_shift`).
-/

namespace Longhand

open Expression (Blanks)

/-! ## Moved positions -/

def Token.shift (k : Nat) (t : Token) : Token :=
  { t with position := t.position + k }

/-- The fault `k` characters further on. -/
def ExpressionFault.shift (k : Nat) : ExpressionFault → ExpressionFault
  | .invalidCharacter c position => .invalidCharacter c (position + k)
  | .invalidNumber numeral position => .invalidNumber numeral (position + k)
  | .insufficientOperands position => .insufficientOperands (position + k)
  | .strayParenthesis position => .strayParenthesis (position + k)
  | f => f

/-- Tokens, or the fault that was found instead, `k` characters further on. -/
def shiftTokens (k : Nat) (x : Except ExpressionFault (List Token)) :
    Except ExpressionFault (List Token) :=
  (x.map (List.map (Token.shift k))).mapError (ExpressionFault.shift k)

section

variable (k : Nat)

@[simp]
theorem Token.kind_shift (t : Token) : (t.shift k).kind = t.kind :=
  rfl

@[simp]
theorem Token.value_shift (t : Token) : (t.shift k).value = t.value :=
  rfl

theorem shiftTokens_cons (t : Token) (x : Except ExpressionFault (List Token)) :
    shiftTokens k ((t :: ·) <$> x) = (t.shift k :: ·) <$> shiftTokens k x := by
  cases x <;> rfl

theorem ExpressionFault.shift_zero (f : ExpressionFault) : f.shift 0 = f := by
  cases f <;> rfl

theorem ExpressionFault.code_shift (f : ExpressionFault) : (f.shift k).code = f.code := by
  cases f <;> rfl

theorem ExpressionFault.isTold_shift (f : ExpressionFault) : (f.shift k).isTold = f.isTold := by
  cases f <;> rfl

/-- Only the message about a character tells the position. -/
theorem ExpressionFault.message_shift {f : ExpressionFault}
    (h : ∀ c position, f ≠ .invalidCharacter c position) : (f.shift k).message = f.message := by
  cases f with
  | invalidCharacter c position => exact absurd rfl (h c position)
  | _ => rfl

end

/-! ## Blanks at the ends of a text -/

namespace Text

theorem dropWhile_append_blanks (s : List Char) (b : Blanks) :
    (s ++ b.chars).dropWhile isBlank =
      if (s.dropWhile isBlank).isEmpty then [] else s.dropWhile isBlank ++ b.chars := by
  have hb : b.chars.dropWhile isBlank = [] := List.dropWhile_eq_nil_iff.2 b.blank
  rw [List.dropWhile_append, hb]

theorem trimEnd_append_blanks (s : List Char) (b : Blanks) :
    trimEndWhile isBlank (s ++ b.chars) = trimEndWhile isBlank s := by
  have hb : ∀ c ∈ b.chars.reverse, isBlank c = true := fun c hc => b.blank c (List.mem_reverse.1 hc)
  rw [trimEndWhile, List.reverse_append, List.dropWhile_append_of_pos hb, trimEndWhile]

/-- Blanks around a text are trimmed. -/
theorem trim_blanks (lead trail : Blanks) (s : List Char) :
    trim (lead.chars ++ (s ++ trail.chars)) = trim s := by
  rw [trim, trimWhile, List.dropWhile_append_of_pos lead.blank, dropWhile_append_blanks, trim,
    trimWhile]
  split
  · rename_i hempty
    rw [List.isEmpty_iff.1 hempty]
  · exact trimEnd_append_blanks _ trail

/-- A text is its trimmed form with blanks around it. -/
theorem exists_trim (s : List Char) :
    ∃ lead trail : Blanks, s = lead.chars ++ (trim s ++ trail.chars) ∧
      lead.chars = s.takeWhile isBlank := by
  have hsplit : s.dropWhile isBlank =
      trim s ++ ((s.dropWhile isBlank).reverse.takeWhile isBlank).reverse := by
    rw [trim, trimWhile, trimEndWhile, ← List.reverse_append, List.takeWhile_append_dropWhile,
      List.reverse_reverse]
  refine ⟨⟨s.takeWhile isBlank, fun c hc => List.mem_takeWhile_imp hc⟩,
    ⟨((s.dropWhile isBlank).reverse.takeWhile isBlank).reverse, fun c hc => ?_⟩, ?_, rfl⟩
  · exact List.mem_takeWhile_imp (List.mem_reverse.1 hc)
  · simp only
    rw [← hsplit, List.takeWhile_append_dropWhile]

/-- There are no blanks around the text. -/
structure Trimmed (s : List Char) : Prop where
  head : ∀ c, s.head? = some c → isBlank c = false
  last : ∀ c, s.getLast? = some c → isBlank c = false

theorem dropWhile_isBlank_eq_self {s : List Char} (h : ∀ c, s.head? = some c → isBlank c = false) :
    s.dropWhile isBlank = s := by
  cases s with
  | nil => rfl
  | cons c s => rw [List.dropWhile_cons_of_neg (by simp [h c rfl])]

theorem Trimmed.trim_eq {s : List Char} (h : Trimmed s) : trim s = s := by
  have hlast : s.reverse.dropWhile isBlank = s.reverse := by
    apply dropWhile_isBlank_eq_self
    rw [List.head?_reverse]
    exact h.last
  rw [trim, trimWhile, dropWhile_isBlank_eq_self h.head, trimEndWhile, hlast, List.reverse_reverse]

theorem isBlank_of_head?_dropWhile (s : List Char) :
    ∀ c, (s.dropWhile isBlank).head? = some c → isBlank c = false := by
  intro c hc
  have hhead := List.head?_dropWhile_not isBlank s
  rw [hc] at hhead
  simpa using hhead

theorem trimmed_trim (s : List Char) : Trimmed (trim s) := by
  constructor
  · -- the trimmed text is a first part of the text without the blanks before it
    intro c hc
    have hfirst : trim s <+: s.dropWhile isBlank := by
      rw [← List.reverse_suffix, trim, trimWhile, trimEndWhile, List.reverse_reverse]
      exact List.dropWhile_suffix _
    obtain ⟨rest, hrest⟩ := hfirst
    apply isBlank_of_head?_dropWhile s c
    rw [← hrest, List.head?_append, hc]
    rfl
  · intro c hc
    rw [trim, trimWhile, trimEndWhile, List.getLast?_reverse] at hc
    exact isBlank_of_head?_dropWhile _ c hc

end Text

namespace Expression

/-! ## Stages before the tokens -/

theorem normalize_append (s t : List Char) : normalize (s ++ t) = normalize s ++ normalize t :=
  List.map_append

theorem normalize_eq_self {s : List Char} (h : '÷' ∉ s) : normalize s = s := by
  refine (List.map_congr_left fun c hc => if_neg ?_).trans (List.map_id _)
  rintro rfl
  exact h hc

theorem normalize_blanks (b : Blanks) : normalize b.chars = b.chars :=
  normalize_eq_self fun hmem => absurd (b.blank '÷' hmem) (by decide)

section

variable (lead trail : Blanks) (s : List Char)

theorem checkLength_blanks (maxLength : Int) :
    checkLength maxLength (lead.chars ++ (s ++ trail.chars)) = checkLength maxLength s := by
  have hlead : lead.chars.all Text.isBlank = true := List.all_eq_true.2 lead.blank
  have htrail : trail.chars.all Text.isBlank = true := List.all_eq_true.2 trail.blank
  rw [checkLength, checkLength, Text.trim_blanks, List.all_append, List.all_append, hlead, htrail,
    Bool.true_and, Bool.and_true]

theorem checkDepth_blanks (depth : Nat) (b : Blanks) (rest : List Char) :
    checkDepth depth (b.chars ++ rest) = checkDepth depth rest := by
  obtain ⟨chars, hblank⟩ := b
  induction chars with
  | nil => rfl
  | cons c chars ih =>
    simp only [List.cons_append] at ih ⊢
    rw [checkDepth_cons (hblank c List.mem_cons_self) (by decide) (by decide)]
    exact ih fun d hd => hblank d (List.mem_cons_of_mem c hd)

theorem checkDepth_append_blanks (depth : Nat) :
    checkDepth depth (s ++ trail.chars) = checkDepth depth s := by
  induction s generalizing depth with
  | nil =>
    have h := checkDepth_blanks depth trail []
    rwa [List.append_nil] at h
  | cons c s ih =>
    rw [List.cons_append]
    by_cases hopen : c = '('
    · rw [hopen, checkDepth_open, checkDepth_open, ih]
    by_cases hclose : c = ')'
    · cases depth with
      | zero => rw [hclose, checkDepth_close_zero, checkDepth_close_zero]
      | succ depth => rw [hclose, checkDepth_close, checkDepth_close, ih]
    · rw [checkDepth_other _ _ hopen hclose, checkDepth_other _ _ hopen hclose, ih]

theorem checkParentheses_blanks :
    checkParentheses (lead.chars ++ (s ++ trail.chars)) = checkParentheses s := by
  rw [checkParentheses, checkDepth_blanks, checkDepth_append_blanks, checkParentheses]

end

/-! ## Tokens -/

/-- Blanks at the end hold no tokens. -/
theorem scan_append_blanks (operand : Bool) (position : Nat) (s : List Char) (b : Blanks) :
    Token.scan operand position (s ++ b.chars) = Token.scan operand position s := by
  have hnone (due : Bool) (position : Nat) : Token.scan due position b.chars = .ok [] := by
    have h := scan_blanks due position b []
    rwa [List.append_nil, scan_nil] at h
  rw [scan_append operand position s (b.endsNumber.apart s)]
  cases Token.scan operand position s with
  | error f => rfl
  | ok us =>
    change (us ++ ·) <$> Token.scan (dueAfter operand us) (position + s.length) b.chars = .ok us
    rw [hnone]
    exact congrArg Except.ok (List.append_nil us)

/-- A text that starts `k` characters further on has its tokens there. -/
theorem scan_add (k : Nat) (operand : Bool) (position : Nat) (s : List Char) :
    Token.scan operand (position + k) s =
      shiftTokens k (Token.scan operand position s) := by
  induction operand, position, s using Token.scan.induct with
  | case1 operand position => rw [scan_nil, scan_nil]; rfl
  | case2 operand position c rest hblank ih =>
    rw [scan_of_blank hblank, scan_of_blank hblank, ← ih, Nat.add_right_comm]
  | case3 operand position c rest hblank hdigit run ih =>
    rw [scan_of_digit hblank hdigit, scan_of_digit hblank hdigit, Nat.add_right_comm, ih,
      shiftTokens_cons]
    rfl
  | case4 operand position c rest hblank hdigit hminus ih =>
    rw [scan_of_sign hminus, scan_of_sign hminus, Nat.add_right_comm, ih,
      shiftTokens_cons]
    rfl
  | case5 operand position c rest hblank hdigit hminus hop ih =>
    rw [scan_of_operator hblank hdigit hminus hop, scan_of_operator hblank hdigit hminus hop,
      Nat.add_right_comm, ih,
      shiftTokens_cons]
    rfl
  | case6 operand position c rest hblank hdigit hminus hop hparen ih =>
    rw [scan_of_parenthesis hparen, scan_of_parenthesis hparen, Nat.add_right_comm, ih,
      shiftTokens_cons]
    rfl
  | case7 operand position c rest hblank hdigit hminus hop hparen =>
    have hforeign : Foreign c := foreign_of_not hblank hdigit hop hparen
    rw [scan_of_foreign hforeign, scan_of_foreign hforeign]
    rfl

theorem ofText_blanks (lead trail : Blanks) (s : List Char) :
    Token.ofText (lead.chars ++ (s ++ trail.chars)) =
      shiftTokens lead.chars.length (Token.ofText s) := by
  rw [Token.ofText, scan_blanks, scan_append_blanks, scan_add, Token.ofText]

end Expression

/-! ## Evaluation -/

namespace Expression

theorem interchange_shift (k : Nat) :
    Interchange (fun f f' => f.shift k = f') (fun t t' => t.shift k = t') where
  kind_eq := by rintro t _ rfl; rfl
  opens_eq := by rintro t _ rfl; rfl
  symbol_eq := by rintro t _ rfl; rfl
  read_eq := by rintro t _ rfl -; rfl
  invalidNumber := by rintro t _ rfl -; rfl
  unknownOperator := by rintro t _ rfl - -; rfl
  insufficientOperands := by rintro t _ rfl; rfl
  strayParenthesis := by rintro t _ rfl; rfl
  mismatched := rfl
  incomplete := rfl
  divisionByZero := rfl

theorem evaluateTokens_shift (k : Nat) (ts : List Token) :
    evaluateTokens (ts.map (Token.shift k)) =
      (evaluateTokens ts).mapError (ExpressionFault.shift k) := by
  have hts : List.Forall₂ (fun t t' => t.shift k = t') ts (ts.map (Token.shift k)) :=
    List.forall₂_map_right_iff.2 (List.forall₂_same.2 fun _ _ => rfl)
  have hmatching := (interchange_shift k).evaluateTokens hts
  generalize evaluateTokens ts = x at hmatching ⊢
  generalize evaluateTokens (ts.map (Token.shift k)) = y at hmatching ⊢
  cases hmatching with
  | ok h => exact congrArg Except.ok h.symm
  | error h => exact congrArg Except.error h.symm

/-- The stages before the tokens tell no positions. -/
theorem shift_of_checkLength {maxLength : Int} {s : List Char} {f : ExpressionFault} (k : Nat)
    (h : checkLength maxLength s = .error f) : f.shift k = f := by
  unfold checkLength at h
  split at h
  · cases h
    rfl
  · split at h <;> cases h
    rfl

theorem shift_of_checkParentheses {s : List Char} {f : ExpressionFault} (k : Nat)
    (h : checkParentheses s = .error f) : f.shift k = f := by
  cases unbalanced_of_checkDepth h <;> rfl

/-- The tokens and the value of an expression, or the fault that was found instead, `k` characters
further on. -/
def shiftEvaluated (k : Nat) :
    Except ExpressionFault (List Token × Float) → Except ExpressionFault (List Token × Float)
  | .ok (ts, x) => .ok (ts.map (Token.shift k), x)
  | .error f => .error (f.shift k)

/-- **Blanks around an expression only move its positions.** -/
theorem evaluate_blanks (maxLength : Int) (lead trail : Blanks) (s : List Char) :
    evaluate maxLength (lead.chars ++ (s ++ trail.chars)) =
      shiftEvaluated lead.chars.length (evaluate maxLength s) := by
  have hnormal : normalize (lead.chars ++ (s ++ trail.chars)) =
      lead.chars ++ (normalize s ++ trail.chars) := by
    rw [normalize_append, normalize_append, normalize_blanks, normalize_blanks]
  rw [evaluate, evaluate]
  simp only [hnormal, checkLength_blanks, checkParentheses_blanks, ofText_blanks]
  cases hlength : checkLength maxLength (normalize s) with
  | error f => exact congrArg Except.error (shift_of_checkLength _ hlength).symm
  | ok _ =>
    cases hparentheses : checkParentheses (normalize s) with
    | error f => exact congrArg Except.error (shift_of_checkParentheses _ hparentheses).symm
    | ok _ =>
      cases Token.ofText (normalize s) with
      | error f => rfl
      | ok ts =>
        have hvalue := evaluateTokens_shift lead.chars.length ts
        simp only [shiftTokens, Except.map, Except.mapError, bind, Except.bind] at hvalue ⊢
        rw [hvalue]
        cases evaluateTokens ts with
        | error f => rfl
        | ok x =>
          by_cases hx : x.isFinite = true
          · simp only [checkRange, if_pos hx]
            rfl
          · simp only [checkRange, if_neg hx]
            rfl

end Expression

/-! ## What is asked to be worked -/

namespace ParseResult

variable (k : Nat)

theorem splitAtOperator_shift (before : Option Token) (ts : List Token) :
    splitAtOperator (before.map (Token.shift k)) (ts.map (Token.shift k)) =
      (splitAtOperator before ts).map fun (before, op, after) =>
        (before.map (Token.shift k), op.shift k, after.map (Token.shift k)) := by
  induction ts generalizing before with
  | nil => rfl
  | cons t ts ih =>
    rw [List.map_cons, splitAtOperator, splitAtOperator, Token.kind_shift]
    split
    · rfl
    · exact ih (some t)

theorem number?_shift (t : Option Token) :
    number? (t.map (Token.shift k)) = (number? t).map (Token.shift k) := by
  cases t with
  | none => rfl
  | some t =>
    by_cases h : t.kind = .number <;> simp [number?, Option.filter, h]

/-- **What tokens ask to be worked does not depend on where they stand.** -/
theorem taskOfTokens_shift (ts : List Token) :
    taskOfTokens (ts.map (Token.shift k)) = taskOfTokens ts := by
  have hsplit := splitAtOperator_shift k none ts
  rw [Option.map_none] at hsplit
  rw [taskOfTokens, taskOfTokens, hsplit]
  cases splitAtOperator none ts with
  | some parts =>
    obtain ⟨before, op, after⟩ := parts
    simp only [Option.map_some, List.head?_map, number?_shift]
    cases number? before <;> cases number? after.head? <;> rfl
  | none =>
    have hfind : (ts.map (Token.shift k)).find? (·.kind = .number) =
        (ts.find? (·.kind = .number)).map (Token.shift k) := List.find?_map ..
    have hany : (ts.map (Token.shift k)).any (·.kind = .unaryMinus) =
        ts.any (·.kind = .unaryMinus) := List.any_map
    simp only [Option.map_none, hfind, hany]
    cases ts.find? (·.kind = .number) <;> rfl

end ParseResult

end Longhand
