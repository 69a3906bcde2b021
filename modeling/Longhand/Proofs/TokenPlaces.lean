import Longhand.Proofs.JoinedTexts
/-!
# Where tokens stand

The tokens of a text tell all of it but the blanks. Each stands in the text at its position, the next
one comes after it ends, and no number is a part of a longer run of digits and points (`StandsIn`);
what no token covers is blank. A minus is a sign where an operand is due, which depends on the token
before it and not on the characters there (`Signed`).

Main result: `tokens_recover_text`.
-/

namespace Longhand

namespace Token

def chars (t : Token) : List Char :=
  t.value.toList

def stop (t : Token) : Nat :=
  t.position + t.chars.length

/-- The text of a number token: a digit, and digits and points after it. -/
def IsRun (s : List Char) : Prop :=
  ∃ c rest, s = c :: rest ∧ isDigit c = true ∧ ∀ b ∈ rest, isNumeric b = true

theorem IsRun.isNumeric {s : List Char} (h : IsRun s) : ∀ c ∈ s, isNumeric c = true := by
  obtain ⟨c, rest, rfl, hc, hrest⟩ := h
  exact List.forall_mem_cons.2 ⟨by simp [Token.isNumeric, hc], hrest⟩

theorem IsRun.ne_nil {s : List Char} (h : IsRun s) : s ≠ [] := by
  obtain ⟨c, rest, rfl, -⟩ := h
  exact List.cons_ne_nil c rest

theorem isRun_takeWhile {c : Char} (hc : isDigit c = true) (rest : List Char) :
    IsRun (c :: rest.takeWhile isNumeric) :=
  ⟨c, _, rfl, hc, fun _ hb => List.mem_takeWhile_imp hb⟩

end Token

namespace Expression

/-! ## Characters -/

theorem not_isBlank_of_isNumeric {c : Char} (h : Token.isNumeric c = true) :
    Text.isBlank c = false := by
  rw [Bool.eq_false_iff]
  intro hblank
  rw [Token.isNumeric_of_isBlank hblank] at h
  cases h

theorem filter_takeWhile_numeric (s : List Char) :
    (s.takeWhile Token.isNumeric).filter (!Text.isBlank ·) = s.takeWhile Token.isNumeric := by
  rw [List.filter_eq_self]
  intro c hc
  simp [not_isBlank_of_isNumeric (List.mem_takeWhile_imp hc)]

theorem StandsAlone.ne_number {c : Char} {kind : TokenKind} (h : StandsAlone c kind) :
    kind ≠ .number := by
  cases h <;> simp

theorem StandsAlone.isNumeric_eq {c : Char} {kind : TokenKind} (h : StandsAlone c kind) :
    Token.isNumeric c = false := by
  cases h with
  | sign => decide
  | operator hop =>
    obtain ⟨op, hop⟩ := Option.isSome_iff_exists.1 hop
    exact Symbol.isNumeric_char ⟨c, op, hop⟩
  | opening => decide
  | closing => decide

/-! ## Places -/

/-- A token stands in a text at its position, and a number takes the whole of its run. -/
inductive StandsIn (s : List Char) : Token → Prop
  | number {before run after : List Char} (hs : s = before ++ (run ++ after))
      (hrun : Token.IsRun run) (hbefore : Apart before run) (hafter : EndsNumber after) :
      StandsIn s ⟨.number, String.ofList run, before.length⟩
  | symbol {before after : List Char} {c : Char} {kind : TokenKind} (hs : s = before ++ c :: after)
      (hc : StandsAlone c kind) : StandsIn s ⟨kind, String.singleton c, before.length⟩

/-- **Every token stands in the text.** The text read so far must not end in a run that goes on. -/
theorem CutInto.standsIn {position : Nat} {before rest : List Char} {ts : List Token}
    (h : CutInto position rest ts) (hposition : position = before.length)
    (hbefore : Apart before rest) : ∀ t ∈ ts, StandsIn (before ++ rest) t := by
  induction h generalizing before with
  | nil => simp
  | @blank _ c _ _ hblank hrest ih =>
    rw [List.append_cons]
    refine ih (by simp [hposition]) ?_
    exact apart_concat_of_not_numeric (Token.isNumeric_of_isBlank hblank) _ _
  | @number _ c rest _ hblank hdigit hrest ih =>
    have hsplit : c :: rest = c :: rest.takeWhile Token.isNumeric ++ rest.dropWhile Token.isNumeric :=
      congrArg (c :: ·) List.takeWhile_append_dropWhile.symm
    have hend := endsNumber_dropWhile rest
    subst hposition
    refine List.forall_mem_cons.2 ⟨?_, ?_⟩
    · refine .number (congrArg (before ++ ·) hsplit) (Token.isRun_takeWhile hdigit rest) ?_ hend
      exact fun b hb hnumeric c' hc' => hbefore b hb hnumeric c' hc'
    · rw [hsplit, ← List.append_assoc]
      exact ih (by simp) (hend.apart _)
  | @symbol _ c rest _ kind hblank hc hrest ih =>
    subst hposition
    refine List.forall_mem_cons.2 ⟨.symbol rfl hc, ?_⟩
    rw [List.append_cons]
    exact ih (by simp) (apart_concat_of_not_numeric hc.isNumeric_eq _ _)

theorem standsIn_of_ofText {s : List Char} {ts : List Token} (h : Token.ofText s = .ok ts) :
    ∀ t ∈ ts, StandsIn s t :=
  (cutInto_of_scan h).standsIn rfl (apart_nil_left s)

/-- Tokens come one after the other. -/
theorem CutInto.pairwise_stop {position : Nat} {s : List Char} {ts : List Token}
    (h : CutInto position s ts) :
    (∀ t ∈ ts, position ≤ t.position) ∧ ts.Pairwise fun t u => t.stop ≤ u.position := by
  induction h with
  | nil => simp
  | blank hblank hrest ih => exact ⟨fun t ht => (Nat.le_succ _).trans (ih.1 t ht), ih.2⟩
  | @number position c rest _ hblank hdigit hrest ih =>
    have hstop : (⟨.number, String.ofList (c :: rest.takeWhile Token.isNumeric), position⟩ :
        Token).stop = position + (c :: rest.takeWhile Token.isNumeric).length := by
      rw [Token.stop, Token.chars, String.toList_ofList]
    refine ⟨List.forall_mem_cons.2 ⟨le_rfl, fun t ht => ?_⟩, List.pairwise_cons.2 ⟨?_, ih.2⟩⟩
    · exact (Nat.le_add_right _ _).trans (ih.1 t ht)
    · rw [hstop]
      exact ih.1
  | @symbol position c rest _ kind hblank hc hrest ih =>
    have hstop : (⟨kind, String.singleton c, position⟩ : Token).stop = position + 1 := by
      rw [Token.stop, Token.chars, String.toList_singleton, List.length_singleton]
    refine ⟨List.forall_mem_cons.2 ⟨le_rfl, fun t ht => ?_⟩, List.pairwise_cons.2 ⟨?_, ih.2⟩⟩
    · exact (Nat.le_succ _).trans (ih.1 t ht)
    · rw [hstop]
      exact ih.1

/-- What no token covers is blank. -/
theorem CutInto.covered {position : Nat} {s : List Char} {ts : List Token} (h : CutInto position s ts)
    {i : Nat} {c : Char} (hc : s[i]? = some c) :
    (∃ t ∈ ts, t.position ≤ position + i ∧ position + i < t.stop) ∨ Text.isBlank c = true := by
  induction h generalizing i with
  | nil => simp at hc
  | @blank position d rest ts hblank hrest ih =>
    cases i with
    | zero =>
      obtain rfl : d = c := by simpa using hc
      exact .inr hblank
    | succ i =>
      have hplace : position + 1 + i = position + (i + 1) := by omega
      rw [← hplace]
      exact ih (by simpa using hc)
  | @number position d rest ts hblank hdigit hrest ih =>
    have hsplit : d :: rest.takeWhile Token.isNumeric ++ rest.dropWhile Token.isNumeric = d :: rest :=
      congrArg (d :: ·) List.takeWhile_append_dropWhile
    generalize hrun : d :: rest.takeWhile Token.isNumeric = run at *
    by_cases hi : i < run.length
    · refine .inl ⟨_, List.mem_cons_self, Nat.le_add_right _ _, ?_⟩
      simp only [Token.stop, Token.chars, String.toList_ofList]
      omega
    · rw [← hsplit, List.getElem?_append_right (Nat.le_of_not_lt hi)] at hc
      have hplace : position + run.length + (i - run.length) = position + i := by omega
      have hrest := ih hc
      rw [hplace] at hrest
      exact hrest.imp_left fun ⟨t, ht, hin⟩ => ⟨t, List.mem_cons_of_mem _ ht, hin⟩
  | @symbol position d rest ts kind hblank hd hrest ih =>
    cases i with
    | zero =>
      refine .inl ⟨_, List.mem_cons_self, Nat.le_add_right _ _, ?_⟩
      simp [Token.stop, Token.chars]
    | succ i =>
      have hplace : position + 1 + i = position + (i + 1) := by omega
      have hrest := ih (by simpa using hc)
      rw [hplace] at hrest
      exact hrest.imp_left fun ⟨t, ht, hin⟩ => ⟨t, List.mem_cons_of_mem _ ht, hin⟩

/-- **Tokens spell the text** without the blanks in it. -/
theorem CutInto.flatMap_chars {position : Nat} {s : List Char} {ts : List Token}
    (h : CutInto position s ts) : ts.flatMap Token.chars = s.filter (!Text.isBlank ·) := by
  induction h with
  | nil => rfl
  | blank hblank hrest ih => rw [ih, List.filter_cons_of_neg (by simpa using hblank)]
  | @number _ _ rest _ hblank hdigit hrest ih =>
    have hsplit : rest.filter (!Text.isBlank ·) = rest.takeWhile Token.isNumeric ++
        (rest.dropWhile Token.isNumeric).filter (!Text.isBlank ·) := by
      rw [← filter_takeWhile_numeric, ← List.filter_append, List.takeWhile_append_dropWhile]
    rw [List.flatMap_cons, ih, Token.chars, String.toList_ofList,
      List.filter_cons_of_pos (by simpa using hblank), hsplit]
    rfl
  | symbol hblank hc hrest ih =>
    rw [List.flatMap_cons, ih, Token.chars, String.toList_singleton,
      List.filter_cons_of_pos (by simpa using hblank)]
    rfl

section

variable {s : List Char} {t : Token}

/-- Number tokens are runs. -/
theorem StandsIn.isRun (h : StandsIn s t) (hkind : t.kind = .number) : Token.IsRun t.chars := by
  cases h with
  | number hs hrun hbefore hafter =>
    rw [Token.chars, String.toList_ofList]
    exact hrun
  | symbol hs hc => exact absurd hkind hc.ne_number

/-- The text of a token is found at its position. -/
theorem StandsIn.found (h : StandsIn s t) : t.chars ≠ [] ∧ t.chars <+: s.drop t.position := by
  cases h with
  | @number before run after hs hrun hbefore hafter =>
    rw [Token.chars, String.toList_ofList, hs, List.drop_left]
    exact ⟨hrun.ne_nil, List.prefix_append run after⟩
  | @symbol before after c kind hs hc =>
    rw [Token.chars, String.toList_singleton, hs, List.drop_left]
    exact ⟨List.cons_ne_nil c [], List.prefix_append [c] after⟩

/-- The text has the characters of a token where the token stands. -/
theorem StandsIn.getElem?_eq (h : StandsIn s t) {i : Nat} (hle : t.position ≤ i) (hlt : i < t.stop) :
    s[i]? = t.chars[i - t.position]? := by
  obtain ⟨rest, hrest⟩ := h.found.2
  have hdrop : s[i]? = (s.drop t.position)[i - t.position]? := by
    rw [List.getElem?_drop, Nat.add_sub_cancel' hle]
  rw [Token.stop] at hlt
  rw [hdrop, ← hrest, List.getElem?_append_left (by omega)]

theorem StandsIn.isNumeric_of_number (h : StandsIn s t) (hkind : t.kind = .number) {i : Nat} {c : Char}
    (hle : t.position ≤ i) (hlt : i < t.stop) (hc : s[i]? = some c) : Token.isNumeric c = true := by
  rw [h.getElem?_eq hle hlt] at hc
  exact (h.isRun hkind).isNumeric c (List.mem_of_getElem? hc)

/-- Digits and points stand in numbers only. -/
theorem StandsIn.kind_eq_number (h : StandsIn s t) {i : Nat} {c : Char} (hle : t.position ≤ i)
    (hlt : i < t.stop) (hc : s[i]? = some c) (hnumeric : Token.isNumeric c = true) :
    t.kind = .number := by
  have hc := h.getElem?_eq hle hlt ▸ hc
  cases h with
  | number hs hrun hbefore hafter => rfl
  | @symbol before after d kind hs hd =>
    rw [Token.chars, String.toList_singleton] at hc
    obtain rfl := List.mem_singleton.1 (List.mem_of_getElem? hc)
    rw [hd.isNumeric_eq] at hnumeric
    cases hnumeric

/-- No digit and no point stands right after a number, and none right before it. -/
theorem StandsIn.maximal (h : StandsIn s t) (hkind : t.kind = .number) :
    (∀ c ∈ s[t.stop]?, Token.isNumeric c = false) ∧
      ∀ i c, i + 1 = t.position → s[i]? = some c → Token.isNumeric c = false := by
  cases h with
  | symbol hs hc => exact absurd hkind hc.ne_number
  | @number before run after hs hrun hbefore hafter =>
    have hstop : (⟨.number, String.ofList run, before.length⟩ : Token).stop =
        (before ++ run).length := by
      rw [Token.stop, Token.chars, String.toList_ofList, List.length_append]
    rw [hstop]
    subst hs
    refine ⟨fun c hc => ?_, fun i c hi hc => ?_⟩
    · rw [← List.append_assoc, List.getElem?_append_right le_rfl, Nat.sub_self,
        ← List.head?_eq_getElem?] at hc
      exact hafter c hc
    · have hi : i + 1 = before.length := hi
      have hlast : before.getLast? = some c := by
        rw [List.getElem?_append_left (by omega)] at hc
        rw [List.getLast?_eq_getElem?, ← hc, ← hi, Nat.add_sub_cancel]
      rw [Bool.eq_false_iff]
      intro hnumeric
      obtain ⟨d, rest, rfl, hd, -⟩ := hrun
      have hnone := hbefore c hlast hnumeric d rfl
      simp [Token.isNumeric, hd] at hnone

end

/-! ## Signs -/

/-- An operand is due after some tokens: at the start, after an operator and after an opening
parenthesis. -/
def OperandDue (before : List Token) : Prop :=
  ∀ u ∈ before.getLast?, u.kind = .operator ∨ Opening u

/-- Among tokens before which an operand is due or not, a minus is a sign where an operand is due, and
an operator elsewhere. -/
def Signed (operand : Bool) (ts : List Token) : Prop :=
  ∀ before t after, ts = before ++ t :: after → t.value = "-" →
    t.kind = if dueAfter operand before then .unaryMinus else .operator

theorem asksOperand_iff {t : Token} :
    t.asksOperand = true ↔ t.kind = .operator ∨ Opening t := by
  obtain ⟨kind, value, position⟩ := t
  cases kind with
  | parenthesis =>
    refine ⟨fun h => .inr ⟨rfl, of_decide_eq_true h⟩, ?_⟩
    rintro (h | h)
    · cases h
    · exact h.opens_eq
  | operator => exact ⟨fun _ => .inl rfl, fun _ => rfl⟩
  | _ =>
    refine ⟨fun h => absurd h (by simp [Token.asksOperand]), ?_⟩
    rintro (h | h)
    · cases h
    · cases h.kind_eq

theorem dueAfter_iff {before : List Token} : dueAfter true before = true ↔ OperandDue before := by
  induction before using List.reverseRecOn with
  | nil => simp [dueAfter, OperandDue]
  | append_singleton before t ih => simp [dueAfter, OperandDue, asksOperand_iff]

theorem Signed.cons {operand : Bool} {t : Token} {ts : List Token}
    (ht : t.value = "-" → t.kind = if operand then .unaryMinus else .operator)
    (hts : Signed t.asksOperand ts) : Signed operand (t :: ts) := by
  intro before u after h hu
  cases before with
  | nil =>
    obtain ⟨rfl, -⟩ := List.cons.inj h
    exact ht hu
  | cons b before =>
    obtain ⟨rfl, hsplit⟩ := List.cons.inj h
    exact hts before u after hsplit hu

theorem signed_of_scan {operand : Bool} {position : Nat} {s : List Char} {ts : List Token}
    (h : Token.scan operand position s = .ok ts) : Signed operand ts := by
  induction operand, position, s using Token.scan.induct generalizing ts with
  | case1 operand position =>
    rw [scan_nil] at h
    obtain rfl := Except.ok.inj h
    intro before t after hsplit
    simp at hsplit
  | case2 operand position c rest hblank ih =>
    rw [scan_of_blank hblank] at h
    exact ih h
  | case3 operand position c rest hblank hdigit run =>
    rename_i ih
    rw [scan_of_digit hblank hdigit] at h
    obtain ⟨us, hus, rfl⟩ := exists_of_map_eq_ok h
    refine (ih hus).cons fun hvalue => ?_
    have hc := congrArg String.toList hvalue
    rw [String.toList_ofList] at hc
    obtain rfl : c = '-' := (List.cons.inj hc).1
    exact absurd hdigit (by decide)
  | case4 operand position c rest hblank hdigit hminus ih =>
    rw [scan_of_sign hminus] at h
    obtain ⟨us, hus, rfl⟩ := exists_of_map_eq_ok h
    exact (ih hus).cons fun _ => (if_pos hminus.2).symm
  | case5 operand position c rest hblank hdigit hminus hop ih =>
    rw [scan_of_operator hblank hdigit hminus hop] at h
    obtain ⟨us, hus, rfl⟩ := exists_of_map_eq_ok h
    refine (ih hus).cons fun hvalue => ?_
    obtain rfl : c = '-' := by simpa using congrArg String.toList hvalue
    exact (if_neg fun hoperand => hminus ⟨rfl, hoperand⟩).symm
  | case6 operand position c rest hblank hdigit hminus hop hparen ih =>
    rw [scan_of_parenthesis hparen] at h
    obtain ⟨us, hus, rfl⟩ := exists_of_map_eq_ok h
    rw [← asksOperand_parenthesis c position] at hus ih
    refine (ih hus).cons fun hvalue => ?_
    obtain rfl : c = '-' := by simpa using congrArg String.toList hvalue
    exact absurd hparen (by decide)
  | case7 operand position c rest hblank hdigit hminus hop hparen =>
    rw [scan_of_foreign (foreign_of_not hblank hdigit hop hparen)] at h
    cases h

/-! ## Main result -/

/-- What tokens tell of the text that they come from. -/
structure Recovers (s : List Char) (ts : List Token) : Prop where
  found : ∀ t ∈ ts, t.chars ≠ [] ∧ t.chars <+: s.drop t.position
  ordered : ts.Pairwise fun t u => t.position < u.position ∧ t.stop ≤ u.position
  covered : ∀ i c, s[i]? = some c →
    (∃ t ∈ ts, t.position ≤ i ∧ i < t.stop) ∨ Text.isBlank c = true
  spelled : ts.flatMap Token.chars = s.filter (!Text.isBlank ·)
  maximal : ∀ t ∈ ts, t.kind = .number →
    (∀ c ∈ s[t.stop]?, Token.isNumeric c = false) ∧
      ∀ i c, i + 1 = t.position → s[i]? = some c → Token.isNumeric c = false
  signs : ∀ before t after, ts = before ++ t :: after → t.value = "-" →
    (t.kind = .unaryMinus ↔ OperandDue before) ∧ (t.kind = .operator ↔ ¬OperandDue before)

theorem Signed.signs {ts : List Token} (h : Signed true ts) {before after : List Token} {t : Token}
    (hts : ts = before ++ t :: after) (ht : t.value = "-") :
    (t.kind = .unaryMinus ↔ OperandDue before) ∧ (t.kind = .operator ↔ ¬OperandDue before) := by
  have hkind := h before t after hts ht
  by_cases hdue : dueAfter true before = true
  · simp [hkind, if_pos hdue, dueAfter_iff.1 hdue]
  · simp [hkind, if_neg hdue, mt dueAfter_iff.2 hdue]

/-- Tokens of a text rise, and none reaches into the next one. -/
theorem ordered_of_ofText {s : List Char} {ts : List Token} (h : Token.ofText s = .ok ts) :
    ts.Pairwise fun t u => t.position < u.position ∧ t.stop ≤ u.position := by
  refine (cutInto_of_scan h).pairwise_stop.2.imp_of_mem fun {t u} ht _ hstop => ⟨?_, hstop⟩
  have hlength := List.length_pos_of_ne_nil (standsIn_of_ofText h t ht).found.1
  rw [Token.stop] at hstop
  omega

/-- **Nothing of a text is lost in its tokens** but blanks: each token's text is found at its
position, the tokens do not overlap, what is outside of them is blank, numbers go as far as they can,
and a minus is a sign at the start, after an operator and after an opening parenthesis only. -/
theorem tokens_recover_text {s : List Char} {ts : List Token} (h : Token.ofText s = .ok ts) :
    Recovers s ts where
  found t ht := (standsIn_of_ofText h t ht).found
  ordered := ordered_of_ofText h
  covered i c hc := by simpa using (cutInto_of_scan h).covered hc
  spelled := (cutInto_of_scan h).flatMap_chars
  maximal t ht := (standsIn_of_ofText h t ht).maximal
  signs _ _ _ hts ht := (signed_of_scan h).signs hts ht

set_option maxRecDepth 10000 in
theorem tokens_recover_text_threeMinuses :
    ∃ ts, Token.ofText "8 - --1.5(-2)".toList = .ok ts ∧
      ts.map (fun t => (t.kind.name, t.value, t.position)) =
        [("NUMBER", "8", 0), ("OPERATOR", "-", 2), ("UNARY_MINUS", "-", 4), ("OPERATOR", "-", 5),
          ("NUMBER", "1.5", 6), ("PARENTHESIS", "(", 9), ("UNARY_MINUS", "-", 10),
          ("NUMBER", "2", 11), ("PARENTHESIS", ")", 12)] ∧
      Recovers "8 - --1.5(-2)".toList ts := by
  have h : Token.ofText "8 - --1.5(-2)".toList =
      .ok [⟨.number, "8", 0⟩, ⟨.operator, "-", 2⟩, ⟨.unaryMinus, "-", 4⟩, ⟨.operator, "-", 5⟩,
        ⟨.number, "1.5", 6⟩, ⟨.parenthesis, "(", 9⟩, ⟨.unaryMinus, "-", 10⟩, ⟨.number, "2", 11⟩,
        ⟨.parenthesis, ")", 12⟩] := by
    decide +kernel
  exact ⟨_, h, rfl, tokens_recover_text h⟩

end Expression

end Longhand
