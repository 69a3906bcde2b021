import Longhand.Proofs.ParseOutcome
/-!
# Texts one after the other

The tokens of two texts one after the other are the tokens of the first and then those of the second,
unless a run of digits and points goes on from one into the other (`Apart`). Of the first text the
second one has to know no more than its length and whether an operand is due after it (`scan_append`).
-/

namespace Longhand

/-- Whether an operand is due right after a token, so that a minus there is a sign. -/
def Token.asksOperand (t : Token) : Bool :=
  match t.kind with
  | .number | .unaryMinus => false
  | .operator => true
  | .parenthesis => PostOrder.opens t

namespace Expression

/-- Whether an operand is due after some tokens; without any it is due as it was before them. -/
def dueAfter (operand : Bool) (ts : List Token) : Bool :=
  ts.foldl (fun _ t => t.asksOperand) operand

/-- No run of digits and points goes on from the first text into the second. -/
def Apart (before after : List Char) : Prop :=
  ∀ b ∈ before.getLast?, Token.isNumeric b = true → EndsNumber after

section

variable {before after rest : List Char} {c : Char}

theorem EndsNumber.apart (h : EndsNumber after) (before : List Char) : Apart before after :=
  fun _ _ _ => h

theorem Blanks.endsNumber (b : Blanks) : EndsNumber b.chars := by
  have h := b.endsNumber_append (s := []) (by simp [EndsNumber])
  rwa [List.append_nil] at h

theorem apart_nil_left (after : List Char) : Apart [] after := by
  simp [Apart]

/-- Only the end of the first text matters. -/
theorem Apart.of_suffix (h : Apart before after) (hrest : rest <:+ before) : Apart rest after := by
  obtain ⟨first, rfl⟩ := hrest
  intro b hb
  refine h b ?_
  rw [Option.mem_def] at hb ⊢
  rw [List.getLast?_append, hb, Option.some_or]

theorem Apart.of_cons (h : Apart (c :: before) after) : Apart before after :=
  h.of_suffix (List.suffix_cons c before)

theorem apart_concat_of_not_numeric (hc : Token.isNumeric c = false) (before after : List Char) :
    Apart (before ++ [c]) after := by
  intro b hb hnumeric
  obtain rfl : c = b := by simpa using hb
  rw [hc] at hnumeric
  cases hnumeric

/-- A run of digits and points at the end of the first text ends there. -/
theorem Apart.endsNumber (h : Apart before after) (hne : before ≠ [])
    (hnumeric : ∀ b ∈ before, Token.isNumeric b = true) : EndsNumber after :=
  h _ (List.getLast?_eq_some_getLast hne) (hnumeric _ (List.getLast_mem hne))

theorem endsNumber_dropWhile (s : List Char) : EndsNumber (s.dropWhile Token.isNumeric) := by
  intro c hc
  have hhead := List.head?_dropWhile_not Token.isNumeric s
  rw [Option.mem_def.1 hc] at hhead
  simpa using hhead

end

/-! ## Runs -/

/-- A number takes the digits and points up to the first other character. -/
theorem scan_run (operand : Bool) (position : Nat) {c : Char} {run rest : List Char}
    (hc : Token.isDigit c = true) (hrun : ∀ b ∈ run, Token.isNumeric b = true)
    (hrest : EndsNumber rest) :
    Token.scan operand position (c :: run ++ rest) =
      (⟨.number, String.ofList (c :: run), position⟩ :: ·) <$>
        Token.scan false (position + (c :: run).length) rest := by
  have hblank : ¬Text.isBlank c = true := by
    intro hblank
    have hnumeric := Token.isNumeric_of_isBlank hblank
    simp [Token.isNumeric, hc] at hnumeric
  rw [List.cons_append, scan_of_digit hblank hc, takeWhile_append_of_head hrun hrest,
    dropWhile_append_of_head hrun hrest]

/-! ## Main result -/

theorem asksOperand_parenthesis (c : Char) (position : Nat) :
    (⟨.parenthesis, String.singleton c, position⟩ : Token).asksOperand = decide (c = '(') :=
  decide_eq_decide.2 ⟨fun h => by simpa using congrArg String.toList h, fun h => by rw [h]; rfl⟩

/-- One token more before both parts. -/
theorem cons_map_bind (t : Token) (operand : Bool) (x : Except ExpressionFault (List Token))
    (f : Bool → Except ExpressionFault (List Token)) :
    (t :: ·) <$> (x >>= fun us => (us ++ ·) <$> f (dueAfter t.asksOperand us)) =
      ((t :: ·) <$> x) >>= fun us => (us ++ ·) <$> f (dueAfter operand us) := by
  cases x with
  | error e => rfl
  | ok us => exact Functor.map_map (us ++ ·) (t :: ·) (f (dueAfter t.asksOperand us))

/-- **The tokens of two texts one after the other.** -/
theorem scan_append (operand : Bool) (position : Nat) (first : List Char) {second : List Char}
    (h : Apart first second) :
    Token.scan operand position (first ++ second) =
      Token.scan operand position first >>= fun us =>
        (us ++ ·) <$> Token.scan (dueAfter operand us) (position + first.length) second := by
  induction operand, position, first using Token.scan.induct with
  | case1 operand position =>
    rw [List.nil_append, scan_nil]
    exact (id_map _).symm
  | case2 operand position c rest hblank ih =>
    rw [List.cons_append, scan_of_blank hblank, scan_of_blank hblank, ih h.of_cons,
      List.length_cons, Nat.add_right_comm, Nat.add_assoc]
  | case3 operand position c rest hblank hdigit run ih =>
    have hsplit : run ++ rest.dropWhile Token.isNumeric = c :: rest :=
      congrArg (c :: ·) List.takeWhile_append_dropWhile
    have hrun : ∀ b ∈ rest.takeWhile Token.isNumeric, Token.isNumeric b = true :=
      fun b hb => List.mem_takeWhile_imp hb
    have hapart : Apart (rest.dropWhile Token.isNumeric) second :=
      h.of_suffix ⟨run, hsplit⟩
    have hend : EndsNumber (rest.dropWhile Token.isNumeric ++ second) := by
      cases hdrop : rest.dropWhile Token.isNumeric with
      | nil =>
        refine h.endsNumber (List.cons_ne_nil c rest) (List.forall_mem_cons.2 ⟨?_, ?_⟩)
        · simp [Token.isNumeric, hdigit]
        · exact List.dropWhile_eq_nil_iff.1 hdrop
      | cons d ds =>
        have hd := endsNumber_dropWhile rest
        rw [hdrop] at hd
        exact hd
    rw [scan_of_digit hblank hdigit, ← hsplit, List.append_assoc, List.length_append, ← Nat.add_assoc]
    change Token.scan operand position (c :: rest.takeWhile Token.isNumeric ++ _) = _
    rw [scan_run operand position hdigit hrun hend, ih hapart]
    exact cons_map_bind ⟨.number, String.ofList run, position⟩ operand _
      fun due => Token.scan due (position + run.length + (rest.dropWhile Token.isNumeric).length) second
  | case4 operand position c rest hblank hdigit hminus ih =>
    rw [List.cons_append, scan_of_sign hminus, scan_of_sign hminus, ih h.of_cons, List.length_cons,
      Nat.add_right_comm, Nat.add_assoc]
    exact cons_map_bind ⟨.unaryMinus, "-", position⟩ operand _ fun due => Token.scan due _ second
  | case5 operand position c rest hblank hdigit hminus hop ih =>
    rw [List.cons_append, scan_of_operator hblank hdigit hminus hop,
      scan_of_operator hblank hdigit hminus hop, ih h.of_cons, List.length_cons, Nat.add_right_comm,
      Nat.add_assoc]
    exact cons_map_bind ⟨.operator, String.singleton c, position⟩ operand _
      fun due => Token.scan due _ second
  | case6 operand position c rest hblank hdigit hminus hop hparen ih =>
    rw [List.cons_append, scan_of_parenthesis hparen, scan_of_parenthesis hparen, ih h.of_cons,
      List.length_cons, Nat.add_right_comm, Nat.add_assoc, ← asksOperand_parenthesis c position]
    exact cons_map_bind ⟨.parenthesis, String.singleton c, position⟩ operand _
      fun due => Token.scan due _ second
  | case7 operand position c rest hblank hdigit hminus hop hparen =>
    have hforeign : Foreign c := foreign_of_not hblank hdigit hop hparen
    rw [List.cons_append, scan_of_foreign hforeign, scan_of_foreign hforeign]
    rfl

end Expression

end Longhand
