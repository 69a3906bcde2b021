import Longhand.Proofs.LeftmostExpressions
import Longhand.Proofs.LexicalLanguage
import Longhand.Proofs.TextLayout
/-!
# The expression found in a text

What is found in a text is found again in itself (`extraction_idempotent`): with single spaces two
numerals and an operator have the same form, and what a text does not contain is in no part of it.

It need not be an expression that can be parsed. A numeral may have digits of other scripts, and a group
anything but a closing parenthesis inside, another opening one as well. Nothing else can be wrong with
it (`extracted_text_lexical`): it has two operands, and it is balanced and has tokens exactly if these
are and have.
-/

namespace Longhand.Expression

open Text

/-! ## Found again -/

section

variable {s t x : List Char} {e : SimpleExpression}

theorem SimpleExpression.text_eq (e : SimpleExpression) :
    e.text = e.left ++ ([' '] ++ e.symbol :: ([' '] ++ e.right)) := by
  simp [text]

/-- With single spaces an expression has its form. -/
theorem IsSimple.text (h : IsSimple e x) : IsSimple e e.text := by
  obtain ⟨hleft, -, hsymbol, -, hright⟩ := h
  rw [e.text_eq]
  exact .mk hleft (.one ' ' (by decide)) hsymbol (.one ' ' (by decide)) hright

theorem IsSimple.not_mem_equals (h : IsSimple e x) : '=' ∉ x := by
  obtain ⟨hleft, gap, hsymbol, gap', hright⟩ := h
  have hnumeral {n : List Char} (hn : IsNumeral n) : '=' ∉ n :=
    hn.not_mem (by decide) (by decide)
  have hgap (b : Blanks) : '=' ∉ b.chars := fun hmem => absurd (b.blank '=' hmem) (by decide)
  have hsign : '=' ≠ e.symbol := by
    rintro heq
    rw [← heq] at hsymbol
    exact absurd hsymbol (by decide)
  simp [hnumeral hleft, hnumeral hright, hgap gap, hgap gap', hsign]

theorem Contains.mono {Form : List Char → Prop} (h : Contains Form x) (hpart : x <:+: s) :
    Contains Form s := by
  obtain ⟨y, hy, hin⟩ := h
  exact ⟨y, hy, hin.trans hpart⟩

/-- A text of the form stands leftmost in itself. -/
theorem leftmost_self {Form : List Char → Prop} (h : Form x) : Leftmost Form x [] x :=
  ⟨h, List.prefix_rfl, fun _ _ _ _ => Nat.zero_le _⟩

theorem IsSimple.not_contains_equation (h : IsSimple e x) : ¬Contains Equation x := by
  rintro ⟨y, ⟨e', he⟩, hpart⟩
  obtain @⟨z, n, -, gap, gap', -⟩ := he
  have hequals : '=' ∈ x := hpart.subset (by simp)
  exact h.not_mem_equals hequals

theorem IsSimple.firstSimple_text (h : IsSimple e x) : FirstSimple e.text [] e where
  first := ⟨e.text, h.text, leftmost_self ⟨e, h.text⟩⟩
  longest e' x' hx' hstarts := by
    have hends : EndsNumeral [] := by simp [EndsNumeral]
    have hself := takeSimple?_append_of_ends h.text hends
    rw [List.append_nil] at hself
    exact length_right_le_of_takeSimple? hself hx' hstarts

theorem IsSimple.found_text (h : IsSimple e x) : Found e.text e.text :=
  .simple h.text.not_contains_equation h.firstSimple_text

/-- What is found is an expression with single spaces, or a part of the text that is a grouped
expression. -/
theorem Found.cases_form (h : Found s t) : (∃ e x, IsSimple e x ∧ t = e.text) ∨
    ¬Contains Equation s ∧ ¬Contains Simple s ∧ IsGrouped t ∧ t <:+: s := by
  cases h with
  | equation h =>
    obtain ⟨x, ⟨hx, -, -, -⟩, -⟩ := h
    exact .inl ⟨_, _, hx, rfl⟩
  | simple hequation h =>
    obtain ⟨x, hx, -⟩ := h.first
    exact .inl ⟨_, _, hx, rfl⟩
  | grouped hequation hsimple h =>
    obtain ⟨hgrouped, ⟨after, hs⟩, -⟩ := h.first
    exact .inr ⟨hequation, hsimple, hgrouped, _, after, hs⟩

/-- **What is found in a text is found again in itself.** -/
theorem extraction_idempotent (h : extract? s = some t) : extract? t = some t := by
  rw [extract?_eq_some_iff] at h ⊢
  rcases h.cases_form with ⟨e, x, hx, rfl⟩ | ⟨hequation, hsimple, hgrouped, hpart⟩
  · exact hx.found_text
  · refine .grouped (mt (·.mono hpart) hequation) (mt (·.mono hpart) hsimple)
      ⟨leftmost_self hgrouped, fun x' _ hstarts => ?_⟩
    exact hstarts.length_le

end

/-- A group with another one open inside, the operator on the next line, cut off before the point of the
number. -/
theorem extraction_idempotent_open_group :
    extract? "Try ((a)\n÷ 12.5 now".toList = some "((a)\n÷ 12".toList ∧
      extract? "((a)\n÷ 12".toList = some "((a)\n÷ 12".toList := by
  have h : extract? "Try ((a)\n÷ 12.5 now".toList = some "((a)\n÷ 12".toList := by
    decide +kernel
  exact ⟨h, extraction_idempotent h⟩

/-! ## Texts with tokens -/

/-- A text has tokens. -/
def HasTokens (s : List Char) : Prop :=
  ∃ ts, Token.ofText s = .ok ts

/-- Whether a text has tokens does not depend on where it stands: only whether a minus is a sign
does. -/
theorem exists_scan_of_scan {operand operand' : Bool} {position position' : Nat} {s : List Char}
    {ts : List Token} (h : Token.scan operand position s = .ok ts) :
    ∃ ts', Token.scan operand' position' s = .ok ts' := by
  generalize hn : s.length = n
  induction n using Nat.strong_induction_on generalizing operand operand' position position' s ts with
  | _ n ih =>
    cases s with
    | nil => exact ⟨[], scan_nil _ _⟩
    | cons c rest =>
      rcases foreign_or_piece c rest with hc | ⟨piece, rest', hsplit, hne, hapart, hscan⟩
      · rw [scan_of_foreign hc] at h
        cases h
      · -- a piece has tokens in either place, and the rest does by induction
        have hlength : rest'.length < n := by
          have hpos := List.length_pos_of_ne_nil hne
          rw [← hn, hsplit, List.length_append]
          omega
        obtain ⟨us, hus⟩ := hscan operand position
        obtain ⟨us', hus'⟩ := hscan operand' position'
        rw [hsplit, scan_append operand position piece hapart, hus] at h
        obtain ⟨vs, hvs, -⟩ := exists_of_map_eq_ok h
        obtain ⟨vs', hvs'⟩ := ih _ hlength hvs rfl
        refine ⟨us' ++ vs', ?_⟩
        rw [hsplit, scan_append operand' position' piece hapart, hus']
        exact congrArg ((us' ++ ·) <$> ·) hvs'

section

variable {first second rest inner n x : List Char} {c : Char}

/-- Texts that are apart have tokens if each of them has. -/
theorem hasTokens_append (h : Apart first second) :
    HasTokens (first ++ second) ↔ HasTokens first ∧ HasTokens second := by
  unfold HasTokens Token.ofText
  rw [scan_append true 0 first h]
  constructor
  · rintro ⟨ts, hts⟩
    cases hfirst : Token.scan true 0 first with
    | error f =>
      rw [hfirst] at hts
      cases hts
    | ok us =>
      rw [hfirst] at hts
      obtain ⟨vs, hvs, -⟩ := exists_of_map_eq_ok hts
      exact ⟨⟨us, rfl⟩, exists_scan_of_scan hvs⟩
  · rintro ⟨⟨us, hus⟩, vs, hvs⟩
    obtain ⟨vs', hvs'⟩ := exists_scan_of_scan hvs
    rw [hus]
    exact ⟨us ++ vs', congrArg ((us ++ ·) <$> ·) hvs'⟩

theorem hasTokens_cons (hc : Token.isNumeric c = false) (htokens : HasTokens [c]) :
    HasTokens (c :: rest) ↔ HasTokens rest := by
  have happend := hasTokens_append (apart_concat_of_not_numeric hc [] rest)
  exact happend.trans (and_iff_right htokens)

theorem hasTokens_blanks (gap : Blanks) : HasTokens (gap.chars ++ rest) ↔ HasTokens rest := by
  unfold HasTokens Token.ofText
  rw [scan_blanks]
  exact ⟨fun ⟨_, h⟩ => exists_scan_of_scan h, fun ⟨_, h⟩ => exists_scan_of_scan h⟩

theorem hasTokens_normalize : HasTokens (normalize x) ↔ HasTokens x := by
  unfold HasTokens
  rw [ofText_normalize]
  constructor
  · rintro ⟨ts, hts⟩
    obtain ⟨us, hus, -⟩ := exists_of_map_eq_ok hts
    exact ⟨us, hus⟩
  · rintro ⟨ts, hts⟩
    exact ⟨ts.map Token.plain, by rw [hts]; rfl⟩

/-- A numeral has tokens if its digits are those that numbers are scanned from. -/
theorem IsNumeral.hasTokens_iff (h : IsNumeral n) :
    HasTokens n ↔ ∀ c ∈ n, Token.isNumeric c = true := by
  constructor
  · rintro ⟨ts, hts⟩ c hc
    obtain ⟨i, hi⟩ := List.mem_iff_getElem?.1 hc
    rcases h.digit_or_point c hc with hdigit | rfl
    · cases admits_of_ofText hts hi with
      | blank hblank => simp [isBlank_of_isDecimalDigit hdigit] at hblank
      | digit hascii => simp [Token.isNumeric, hascii]
      | symbol hsymbol =>
        fin_cases hsymbol <;> exact absurd hdigit (by decide)
      | point => decide
    · decide
  · intro hnumeric
    obtain ⟨c, cs, rfl, hc⟩ := h.exists_cons
    obtain ⟨hfirst, hrest⟩ := List.forall_mem_cons.1 hnumeric
    have hdigit : Token.isDigit c = true := by
      simp only [Token.isNumeric, Bool.or_eq_true, decide_eq_true_eq] at hfirst
      rcases hfirst with hdigit | rfl
      · exact hdigit
      · exact absurd hc (by decide)
    have hend : EndsNumber [] := by simp [EndsNumber]
    have hscan := scan_run true 0 hdigit hrest hend
    rw [List.append_nil, scan_nil] at hscan
    exact ⟨_, hscan⟩

theorem hasTokens_symbol (symbol : Symbol) : HasTokens [symbol.char] := by
  have hscan := scan_operator 0 symbol []
  rw [scan_nil] at hscan
  exact exists_scan_of_scan hscan

theorem exists_symbol_of_mem (hc : c ∈ operatorSigns) : ∃ symbol : Symbol, symbol.char = c := by
  have hextractable := isExtractable_iff.2 hc
  cases hop : Operator.ofChar? c with
  | none => simp [isExtractable, hop] at hextractable
  | some op => exact ⟨⟨c, op, hop⟩, rfl⟩

theorem hasTokens_group : HasTokens ('(' :: (inner ++ [')'])) ↔ HasTokens inner := by
  have hopen : HasTokens ['('] := ⟨[⟨.parenthesis, "(", 0⟩], by decide +kernel⟩
  have hclose : HasTokens [')'] := ⟨[⟨.parenthesis, ")", 0⟩], by decide +kernel⟩
  have hend : EndsNumber [')'] := by simpa [EndsNumber] using (by decide : Token.isNumeric ')' = false)
  rw [hasTokens_cons (by decide) hopen, hasTokens_append (hend.apart inner)]
  exact and_iff_left hclose

end

/-! ## Parentheses -/

section

variable {first x : List Char}

/-- A text that closes nothing leaves open what it opens. -/
theorem checkDepth_append_of_not_mem (hclose : ')' ∉ first) (depth : Nat) (rest : List Char) :
    checkDepth depth (first ++ rest) = checkDepth (depth + first.count '(') rest := by
  induction first generalizing depth with
  | nil => rfl
  | cons c first ih =>
    obtain ⟨hc, hfirst⟩ := not_or.1 (mt List.mem_cons.2 hclose)
    rw [List.cons_append]
    by_cases hopen : c = '('
    · rw [hopen, checkDepth_open, ih hfirst, List.count_cons_self, Nat.add_right_comm, Nat.add_assoc]
    · rw [checkDepth_other depth _ hopen (Ne.symm hc), ih hfirst, List.count_cons_of_ne hopen]

theorem checkDepth_normalize (depth : Nat) (s : List Char) :
    checkDepth depth (normalize s) = checkDepth depth s := by
  induction s generalizing depth with
  | nil => rfl
  | cons c s ih =>
    have hopen : (plainSign c = '(') = (c = '(') := eq_of_plainSign (p := (· = '(')) (by simp) c
    have hclose : (plainSign c = ')') = (c = ')') := eq_of_plainSign (p := (· = ')')) (by simp) c
    rw [normalize_cons]
    cases depth <;> simp only [checkDepth, hopen, hclose, ih]

theorem checkDepth_nil (depth : Nat) :
    checkDepth depth [] = if depth = 0 then .ok () else .error (.unclosed depth) := by
  cases depth <;> rfl

end

/-! ## Operands -/

/-- A numeral or a group. -/
inductive IsSide : List Char → Prop
  | numeral {x : List Char} (h : IsNumeral x) : IsSide x
  | group {x : List Char} (h : IsGroup x) : IsSide x

/-- Two operands with an operator between them. -/
inductive IsOperation (left right : List Char) : List Char → Prop
  | mk {c : Char} (hleft : IsSide left) (before : Blanks) (hc : c ∈ operatorSigns) (after : Blanks)
      (hright : IsSide right) :
      IsOperation left right (left ++ (before.chars ++ c :: (after.chars ++ right)))

/-- How many parentheses stay open in an operand: those after the first character. -/
def openInside (x : List Char) : Nat :=
  x.tail.count '('

/-- An operand that the scanner reads: a numeral with its digits, or a group with tokens inside. -/
inductive IsReadable : List Char → Prop
  | numeral {n : List Char} (h : IsNumeral n) (hnumeric : ∀ c ∈ n, Token.isNumeric c = true) :
      IsReadable n
  | group {inner : List Char} (h : HasTokens inner) : IsReadable ('(' :: (inner ++ [')']))

section

variable {x left right t : List Char} {e : SimpleExpression}

theorem IsSide.hasTokens_iff (h : IsSide x) : HasTokens x ↔ IsReadable x := by
  constructor
  · intro htokens
    cases h with
    | numeral h => exact .numeral h (h.hasTokens_iff.1 htokens)
    | group h =>
      obtain @⟨inner, -, -⟩ := h
      exact .group (hasTokens_group.1 htokens)
  · intro hreadable
    cases hreadable with
    | numeral h hnumeric => exact h.hasTokens_iff.2 hnumeric
    | group hinner => exact hasTokens_group.2 hinner

theorem IsSide.checkDepth_append (h : IsSide x) (depth : Nat) (rest : List Char) :
    checkDepth depth (x ++ rest) = checkDepth (depth + openInside x) rest := by
  cases h with
  | numeral h =>
    have hopen : '(' ∉ x := h.not_mem (by decide +kernel) (by decide)
    have hclose : ')' ∉ x := h.not_mem (by decide +kernel) (by decide)
    have htail : openInside x = 0 := List.count_eq_zero.2 fun hmem => hopen (List.mem_of_mem_tail hmem)
    rw [checkDepth_append_of_not_mem hclose, List.count_eq_zero.2 hopen, htail]
  | group h =>
    obtain @⟨inner, -, hclose⟩ := h
    have hopen : openInside ('(' :: (inner ++ [')'])) = inner.count '(' := by
      rw [openInside, List.tail_cons, List.count_append]
      rfl
    rw [List.cons_append, List.append_assoc, checkDepth_open, checkDepth_append_of_not_mem hclose,
      hopen, Nat.add_right_comm, List.singleton_append, checkDepth_close]

theorem IsOperation.hasTokens_iff (h : IsOperation left right t) :
    HasTokens t ↔ IsReadable left ∧ IsReadable right := by
  obtain @⟨c, hleft, before, hc, after, hright⟩ := h
  obtain ⟨symbol, rfl⟩ := exists_symbol_of_mem hc
  have hnumeric := symbol.isNumeric_char
  have hend : EndsNumber (before.chars ++ symbol.char :: (after.chars ++ right)) :=
    before.endsNumber_append (by simpa [EndsNumber] using hnumeric)
  rw [hasTokens_append (hend.apart left), hasTokens_blanks,
    hasTokens_cons hnumeric (hasTokens_symbol symbol), hasTokens_blanks, hleft.hasTokens_iff,
    hright.hasTokens_iff]

theorem IsOperation.checkParentheses_eq (h : IsOperation left right t) :
    checkParentheses t = if openInside left + openInside right = 0 then .ok ()
      else .error (.unclosed (openInside left + openInside right)) := by
  obtain @⟨c, hleft, before, hc, after, hright⟩ := h
  have hopen : c ≠ '(' := by rintro rfl; exact absurd hc (by decide)
  have hclose : c ≠ ')' := by rintro rfl; exact absurd hc (by decide)
  have hlast := hright.checkDepth_append (0 + openInside left) []
  rw [List.append_nil] at hlast
  rw [checkParentheses, hleft.checkDepth_append, checkDepth_blanks, checkDepth_other _ _ hopen hclose,
    checkDepth_blanks, hlast, checkDepth_nil, Nat.zero_add]

theorem IsSimple.isOperation (h : IsSimple e x) : IsOperation e.left e.right x := by
  obtain ⟨hleft, before, hsymbol, after, hright⟩ := h
  exact .mk (.numeral hleft) before hsymbol after (.numeral hright)

theorem IsGrouped.exists_isOperation (h : IsGrouped x) : ∃ left right, IsOperation left right x := by
  obtain @⟨group, operand, c, hgroup, before, hc, after, hoperand⟩ := h
  have hright : IsSide operand := by
    cases hoperand with
    | digits h => exact .numeral (.whole h)
    | group h => exact .group h
  exact ⟨group, operand, .mk (.group hgroup) before hc after hright⟩

end

/-! ## Parsing what is found -/

section

variable {s t left right : List Char}

theorem Found.exists_isOperation (h : Found s t) : ∃ left right, IsOperation left right t := by
  rcases h.cases_form with ⟨e, x, hx, rfl⟩ | ⟨-, -, hgrouped, -⟩
  · exact ⟨_, _, hx.text.isOperation⟩
  · exact hgrouped.exists_isOperation

/-- The operator is there. -/
theorem IsOperation.not_blank (h : IsOperation left right t) :
    ¬(normalize t).all Text.isBlank = true := by
  obtain @⟨c, -, before, hc, after, -⟩ := h
  intro hall
  have hmem : plainSign c ∈ normalize (left ++ (before.chars ++ c :: (after.chars ++ right))) :=
    List.mem_map_of_mem (by simp)
  have hblank := List.all_eq_true.1 hall _ hmem
  rw [eq_of_plainSign (p := Text.isBlank) (by decide), (not_of_mem_operatorSigns hc).1] at hblank
  cases hblank

/-- **What is found in a text is an operation on two numerals or groups.** The parentheses that stay
open are those that groups open inside, and it has tokens if its operands have: so parsing it can
stop at the parentheses or at a character only for what is inside an operand, and otherwise finds no
fault but that it is too long, in the evaluation and in the range. -/
theorem extracted_text_lexical (h : extract? s = some t) :
    ∃ left right, IsOperation left right t ∧
      (checkParentheses t = if openInside left + openInside right = 0 then .ok ()
        else .error (.unclosed (openInside left + openInside right))) ∧
      (HasTokens t ↔ IsReadable left ∧ IsReadable right) ∧
      ∀ maxLength stage f, FirstFault maxLength (normalize t) stage f →
        stage = .parentheses ∧ 0 < openInside left + openInside right ∨
        stage = .tokens ∧ ¬(IsReadable left ∧ IsReadable right) ∨
        stage = .length ∨ stage = .value ∨ stage = .range := by
  obtain ⟨left, right, hoperation⟩ := (extract?_eq_some_iff.1 h).exists_isOperation
  have hparentheses := hoperation.checkParentheses_eq
  have htokens := hoperation.hasTokens_iff
  refine ⟨left, right, hoperation, hparentheses, htokens, fun maxLength stage f hfault => ?_⟩
  cases hfault with
  | blank hblank => exact absurd hblank hoperation.not_blank
  | length => exact .inr (.inr (.inl rfl))
  | parentheses ha hcheck =>
    rw [checkParentheses, checkDepth_normalize, ← checkParentheses, hparentheses] at hcheck
    refine .inl ⟨rfl, Nat.pos_of_ne_zero fun hzero => ?_⟩
    rw [if_pos hzero] at hcheck
    cases hcheck
  | tokens ha hp hscan =>
    refine .inr (.inl ⟨rfl, fun hreadable => ?_⟩)
    obtain ⟨ts, hts⟩ := hasTokens_normalize.2 (htokens.2 hreadable)
    rw [hts] at hscan
    cases hscan
  | postOrder ht hconvert => cases (FirstFault.postOrder ht hconvert).foundAt
  | value => exact .inr (.inr (.inr (.inl rfl)))
  | range => exact .inr (.inr (.inr (.inr rfl)))

end

set_option maxRecDepth 10000 in
/-- An operator without a second operand in a group: only the evaluation can find that. -/
theorem extracted_text_lexical_missing_operand :
    extract? "Is (1+) × (2) one?".toList = some "(1+) × (2)".toList ∧
      ∃ left right, IsOperation left right "(1+) × (2)".toList ∧
        IsReadable left ∧ IsReadable right ∧ openInside left + openInside right = 0 := by
  have h : extract? "Is (1+) × (2) one?".toList = some "(1+) × (2)".toList := by decide +kernel
  have hcheck : checkParentheses "(1+) × (2)".toList = .ok () := by decide
  have htokens : HasTokens "(1+) × (2)".toList := by
    refine ⟨[⟨.parenthesis, "(", 0⟩, ⟨.number, "1", 1⟩, ⟨.operator, "+", 2⟩, ⟨.parenthesis, ")", 3⟩,
      ⟨.operator, "×", 5⟩, ⟨.parenthesis, "(", 7⟩, ⟨.number, "2", 8⟩, ⟨.parenthesis, ")", 9⟩], ?_⟩
    decide +kernel
  obtain ⟨left, right, hoperation, hparentheses, hreadable, -⟩ := extracted_text_lexical h
  obtain ⟨hleft, hright⟩ := hreadable.1 htokens
  refine ⟨h, left, right, hoperation, hleft, hright, ?_⟩
  by_contra hopen
  rw [hcheck, if_neg hopen] at hparentheses
  cases hparentheses

set_option maxRecDepth 10000 in
/-- A group that opens another one is cut off at the first closing parenthesis, and a numeral may have
digits that the scanner does not know. -/
theorem extracted_group_unclosed :
    extract? "((2) + 3) × 4".toList = some "((2) + 3".toList ∧
      checkParentheses "((2) + 3".toList = .error (.unclosed 1) ∧
      extract? "٣ + ٤".toList = some "٣ + ٤".toList ∧
      Token.ofText "٣ + ٤".toList = .error (.invalidCharacter '٣' 0) := by
  decide +kernel

end Longhand.Expression
