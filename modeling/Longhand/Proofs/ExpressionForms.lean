import Longhand.Expression.Extract
import Longhand.Proofs.Parsing
import Mathlib.Tactic.FinCases
/-!
# The forms of expressions in a text

An expression in a text has one of three forms: an equation (`IsEquation`), two numerals with an
operator (`IsSimple`), or a group with an operator and digits or another group (`IsGrouped`). The
forms are stated without the readers that look for them at the start of a text. A reader takes a text
of its form and what of the rest goes on with it, and takes nothing else: each has a lemma for either
direction.
-/

namespace Longhand.Expression

open Text

/-! ## Forms -/

/-- Decimal digits of any script, at least one. -/
structure IsDigits (s : List Char) : Prop where
  ne_nil : s ≠ []
  digit : ∀ c ∈ s, isDecimalDigit c = true

/-- Digits, and a point and more digits if it has a fraction. -/
inductive IsNumeral : List Char → Prop
  | whole {w : List Char} (h : IsDigits w) : IsNumeral w
  | fraction {w f : List Char} (hw : IsDigits w) (hf : IsDigits f) : IsNumeral (w ++ '.' :: f)

/-- The operators of expressions in a text. -/
def operatorSigns : List Char :=
  ['+', '-', '×', '÷', '*', '/']

/-- Two numerals with an operator between them. -/
inductive IsSimple (e : SimpleExpression) : List Char → Prop
  | mk (hleft : IsNumeral e.left) (before : Blanks) (hsymbol : e.symbol ∈ operatorSigns)
      (after : Blanks) (hright : IsNumeral e.right) :
      IsSimple e (e.left ++ (before.chars ++ e.symbol :: (after.chars ++ e.right)))

/-- Two numerals with an operator between them, an equals sign and a numeral. -/
inductive IsEquation (e : SimpleExpression) : List Char → Prop
  | mk {x n : List Char} (hx : IsSimple e x) (before after : Blanks) (hn : IsNumeral n) :
      IsEquation e (x ++ (before.chars ++ '=' :: (after.chars ++ n)))

/-- An opening parenthesis, other characters than a closing one, and a closing parenthesis. -/
inductive IsGroup : List Char → Prop
  | mk {inner : List Char} (hne : inner ≠ []) (hclose : ')' ∉ inner) :
      IsGroup ('(' :: (inner ++ [')']))

/-- What may follow a group and an operator. -/
inductive IsOperand : List Char → Prop
  | digits {s : List Char} (h : IsDigits s) : IsOperand s
  | group {s : List Char} (h : IsGroup s) : IsOperand s

/-- A group, an operator, and digits or another group. -/
inductive IsGrouped : List Char → Prop
  | mk {group operand : List Char} {c : Char} (hgroup : IsGroup group) (before : Blanks)
      (hc : c ∈ operatorSigns) (after : Blanks) (hoperand : IsOperand operand) :
      IsGrouped (group ++ (before.chars ++ c :: (after.chars ++ operand)))

/-! ## Characters -/

section

variable {c : Char}

/-- What holds of the ten digits of every script holds of all digits. -/
theorem forall_of_isDecimalDigit {p : Char → Bool}
    (hp : ∀ z ∈ decimalZeros, ∀ i < 10, p (Char.ofNat (z + i)) = true)
    (h : isDecimalDigit c = true) : p c = true := by
  obtain ⟨d, hd⟩ := Option.isSome_iff_exists.1 h
  obtain ⟨z, hz, -⟩ := Option.map_eq_some_iff.1 hd
  have hrange := List.find?_some hz
  simp only [Bool.and_eq_true, decide_eq_true_eq] at hrange
  have hc := hp z (List.mem_of_find?_eq_some hz) (c.toNat - z) (by omega)
  rwa [Nat.add_sub_cancel' hrange.1, Char.ofNat_toNat] at hc

theorem isBlank_of_isDecimalDigit (h : isDecimalDigit c = true) : isBlank c = false := by
  have hblank : (!isBlank c) = true :=
    forall_of_isDecimalDigit (p := (!isBlank ·)) (by decide +kernel) h
  simpa using hblank

theorem isDecimalDigit_of_isBlank (h : isBlank c = true) : isDecimalDigit c = false := by
  rw [Bool.eq_false_iff]
  intro hdigit
  rw [isBlank_of_isDecimalDigit hdigit] at h
  cases h

theorem isExtractable_iff : isExtractable c = true ↔ c ∈ operatorSigns := by
  constructor
  · intro h
    cases hop : Operator.ofChar? c with
    | none => simp [isExtractable, hop] at h
    | some op =>
      have hmem := Symbol.mem_chars ⟨c, op, hop⟩
      unfold Symbol.chars at hmem
      fin_cases hmem <;> revert h <;> decide
  · intro h
    unfold operatorSigns at h
    fin_cases h <;> rfl

/-- An operator is no blank, no digit and no point. -/
theorem not_of_mem_operatorSigns (h : c ∈ operatorSigns) :
    isBlank c = false ∧ isDecimalDigit c = false ∧ c ≠ '.' := by
  unfold operatorSigns at h
  fin_cases h <;> decide

end

/-! ## Numerals -/

def EndsDigits (s : List Char) : Prop :=
  ∀ c ∈ s.head?, isDecimalDigit c = false

/-- The text goes on with neither a digit nor a point. -/
def EndsNumeral (s : List Char) : Prop :=
  ∀ c ∈ s.head?, isDecimalDigit c = false ∧ c ≠ '.'

theorem endsDigits_dropWhile (s : List Char) : EndsDigits (s.dropWhile isDecimalDigit) := by
  intro c hc
  have hhead := List.head?_dropWhile_not isDecimalDigit s
  rw [Option.mem_def.1 hc] at hhead
  simpa using hhead

theorem isDigits_takeWhile {s : List Char} (h : s.takeWhile isDecimalDigit ≠ []) :
    IsDigits (s.takeWhile isDecimalDigit) :=
  ⟨h, fun _ hc => List.mem_takeWhile_imp hc⟩

section

variable {s n rest : List Char} {c : Char}

theorem IsDigits.cons (hc : isDecimalDigit c = true) (h : IsDigits s) : IsDigits (c :: s) :=
  ⟨List.cons_ne_nil c s, List.forall_mem_cons.2 ⟨hc, h.digit⟩⟩

theorem IsDigits.takeWhile_append (h : IsDigits s) (rest : List Char) :
    (s ++ rest).takeWhile isDecimalDigit = s ++ rest.takeWhile isDecimalDigit :=
  List.takeWhile_append_of_pos h.digit

theorem IsDigits.dropWhile_append (h : IsDigits s) (rest : List Char) :
    (s ++ rest).dropWhile isDecimalDigit = rest.dropWhile isDecimalDigit :=
  List.dropWhile_append_of_pos h.digit

/-- A digit comes first. -/
theorem IsDigits.exists_cons (h : IsDigits s) : ∃ c cs, s = c :: cs ∧ isDecimalDigit c = true := by
  obtain ⟨c, cs, rfl⟩ := List.exists_cons_of_ne_nil h.ne_nil
  exact ⟨c, cs, rfl, h.digit c List.mem_cons_self⟩

theorem IsNumeral.cons (hc : isDecimalDigit c = true) (h : IsNumeral n) : IsNumeral (c :: n) := by
  cases h with
  | whole h => exact .whole (h.cons hc)
  | fraction hw hf => exact .fraction (hw.cons hc) hf

theorem IsNumeral.exists_cons (h : IsNumeral n) :
    ∃ c cs, n = c :: cs ∧ isDecimalDigit c = true := by
  cases h with
  | whole h => exact h.exists_cons
  | fraction hw hf =>
    obtain ⟨c, cs, rfl, hc⟩ := hw.exists_cons
    exact ⟨c, _, List.cons_append, hc⟩

theorem IsNumeral.digit_or_point (h : IsNumeral n) :
    ∀ c ∈ n, isDecimalDigit c = true ∨ c = '.' := by
  cases h with
  | whole h => exact fun c hc => .inl (h.digit c hc)
  | fraction hw hf =>
    intro c hc
    rcases List.mem_append.1 hc with hc | hc
    · exact .inl (hw.digit c hc)
    · rcases List.mem_cons.1 hc with rfl | hc
      · exact .inr rfl
      · exact .inl (hf.digit c hc)

theorem IsNumeral.not_mem (h : IsNumeral n) (hdigit : isDecimalDigit c = false) (hpoint : c ≠ '.') :
    c ∉ n := by
  intro hmem
  rcases h.digit_or_point c hmem with hc | hc
  · rw [hdigit] at hc
    cases hc
  · exact hpoint hc

/-- A numeral is taken to the end of its digits. -/
theorem isNumeral_of_takeNumeral? (h : takeNumeral? s = some (n, rest)) :
    s = n ++ rest ∧ IsNumeral n ∧ EndsDigits rest := by
  have hsplit := (s.takeWhile_append_dropWhile (p := isDecimalDigit)).symm
  have hends := endsDigits_dropWhile s
  unfold takeNumeral? at h
  simp only [List.isEmpty_iff] at h
  split at h
  · cases h
  · rename_i hwhole
    have hdigits := isDigits_takeWhile hwhole
    split at h
    · rename_i c more hdrop
      split at h
      · rename_i hc
        obtain ⟨rfl, rfl⟩ := Prod.mk.inj (Option.some.inj h)
        have hfraction : (c :: more).takeWhile isDecimalDigit ≠ [] := by
          simp [hc]
        refine ⟨?_, .fraction hdigits (isDigits_takeWhile hfraction), endsDigits_dropWhile _⟩
        rw [List.append_assoc, List.cons_append, List.takeWhile_append_dropWhile, ← hdrop, ← hsplit]
      · obtain ⟨rfl, rfl⟩ := Prod.mk.inj (Option.some.inj h)
        exact ⟨hsplit, .whole hdigits, hends⟩
    · obtain ⟨rfl, rfl⟩ := Prod.mk.inj (Option.some.inj h)
      exact ⟨hsplit, .whole hdigits, hends⟩

/-- A numeral is taken, with what of the rest goes on with it. -/
theorem takeNumeral?_append (h : IsNumeral n) (after : List Char) :
    ∃ more rest, after = more ++ rest ∧ takeNumeral? (n ++ after) = some (n ++ more, rest) := by
  have hafter := (after.takeWhile_append_dropWhile (p := isDecimalDigit)).symm
  cases h with
  | whole h =>
    have hne : n ++ after.takeWhile isDecimalDigit ≠ [] := by simp [h.ne_nil]
    unfold takeNumeral?
    simp only [h.takeWhile_append, h.dropWhile_append, List.isEmpty_iff, if_neg hne]
    split
    · rename_i c more hdrop
      split
      · refine ⟨after.takeWhile isDecimalDigit ++ '.' :: (c :: more).takeWhile isDecimalDigit, _, ?_,
          by rw [List.append_assoc]⟩
        rw [List.append_assoc, List.cons_append, List.takeWhile_append_dropWhile, ← hdrop, ← hafter]
      · exact ⟨_, _, hafter, rfl⟩
    · exact ⟨_, _, hafter, rfl⟩
  | @fraction w f hw hf =>
    obtain ⟨c, cs, rfl, hc⟩ := hf.exists_cons
    have hwhole : (w ++ '.' :: (c :: cs) ++ after).takeWhile isDecimalDigit = w := by
      rw [List.append_assoc, hw.takeWhile_append, List.cons_append,
        List.takeWhile_cons_of_neg (by decide), List.append_nil]
    have hdrop : (w ++ '.' :: (c :: cs) ++ after).dropWhile isDecimalDigit =
        '.' :: c :: (cs ++ after) := by
      rw [List.append_assoc, hw.dropWhile_append, List.cons_append,
        List.dropWhile_cons_of_neg (by decide), List.cons_append]
    have hfraction := hf.takeWhile_append after
    have hrest := hf.dropWhile_append after
    refine ⟨after.takeWhile isDecimalDigit, after.dropWhile isDecimalDigit, hafter, ?_⟩
    unfold takeNumeral?
    rw [List.cons_append] at hfraction hrest
    simp only [hwhole, hdrop, List.isEmpty_iff, if_neg hw.ne_nil, if_pos hc, hfraction, hrest]
    rw [List.append_assoc, List.cons_append, List.cons_append, List.cons_append]

/-- Nothing more belongs to a numeral that has ended. -/
theorem IsNumeral.eq_nil_of_ends {more : List Char} (h : IsNumeral (n ++ more))
    (hends : EndsNumeral (more ++ rest)) : more = [] := by
  cases more with
  | nil => rfl
  | cons c more =>
    obtain ⟨hdigit, hpoint⟩ := hends c rfl
    exact absurd (by simp) (h.not_mem hdigit hpoint)

/-- A numeral that has ended is taken and nothing more. -/
theorem takeNumeral?_append_of_ends (h : IsNumeral n) (hends : EndsNumeral rest) :
    takeNumeral? (n ++ rest) = some (n, rest) := by
  obtain ⟨more, after, rfl, htake⟩ := takeNumeral?_append h rest
  obtain ⟨-, hn, -⟩ := isNumeral_of_takeNumeral? htake
  obtain rfl := hn.eq_nil_of_ends hends
  simpa using htake

end

/-! ## Blanks and operators -/

/-- The blanks that a text starts with. -/
def Blanks.atStart (s : List Char) : Blanks :=
  ⟨s.takeWhile isBlank, fun _ h => List.mem_takeWhile_imp h⟩

theorem Blanks.atStart_append (s : List Char) : (Blanks.atStart s).chars ++ skipBlanks s = s :=
  List.takeWhile_append_dropWhile

section

variable {s rest : List Char} {c : Char}

theorem skipBlanks_append (gap : Blanks) (h : ∀ c ∈ rest.head?, isBlank c = false) :
    skipBlanks (gap.chars ++ rest) = rest :=
  dropWhile_append_of_head gap.blank h

/-- A text goes on with a character that is no blank, after blanks or without any. -/
theorem exists_of_skipBlanks (h : skipBlanks s = c :: rest) :
    ∃ gap : Blanks, s = gap.chars ++ c :: rest :=
  ⟨.atStart s, by rw [← h, Blanks.atStart_append]⟩

theorem exists_of_takeOperator? (h : takeOperator? s = some (c, rest)) :
    ∃ before after : Blanks, s = before.chars ++ c :: (after.chars ++ rest) ∧ c ∈ operatorSigns := by
  unfold takeOperator? at h
  split at h
  · rename_i d more hskip
    split at h
    · rename_i hd
      obtain ⟨rfl, rfl⟩ := Prod.mk.inj (Option.some.inj h)
      obtain ⟨before, rfl⟩ := exists_of_skipBlanks hskip
      exact ⟨before, .atStart more, by rw [Blanks.atStart_append], isExtractable_iff.1 hd⟩
    · cases h
  · cases h

theorem takeOperator?_append (hc : c ∈ operatorSigns) (before after : Blanks)
    (hrest : ∀ d ∈ rest.head?, isBlank d = false) :
    takeOperator? (before.chars ++ c :: (after.chars ++ rest)) = some (c, rest) := by
  obtain ⟨hblank, -⟩ := not_of_mem_operatorSigns hc
  have hskip : skipBlanks (before.chars ++ c :: (after.chars ++ rest)) =
      c :: (after.chars ++ rest) :=
    skipBlanks_append before (by simpa using hblank)
  unfold takeOperator?
  simp only [hskip, if_pos (isExtractable_iff.2 hc), skipBlanks_append after hrest]

/-- A numeral has ended before blanks and a sign. -/
theorem Blanks.endsNumeral (gap : Blanks) (hdigit : isDecimalDigit c = false) (hpoint : c ≠ '.') :
    EndsNumeral (gap.chars ++ c :: rest) := by
  intro d hd
  cases hgap : gap.chars with
  | nil =>
    rw [hgap] at hd
    obtain rfl : c = d := by simpa using hd
    exact ⟨hdigit, hpoint⟩
  | cons b bs =>
    rw [hgap] at hd
    obtain rfl : b = d := by simpa using hd
    have hblank := gap.blank b (hgap ▸ List.mem_cons_self)
    refine ⟨isDecimalDigit_of_isBlank hblank, ?_⟩
    rintro rfl
    exact absurd hblank (by decide)

theorem IsNumeral.head_not_blank {n : List Char} (h : IsNumeral n) :
    ∀ c ∈ (n ++ rest).head?, isBlank c = false := by
  obtain ⟨c, cs, rfl, hc⟩ := h.exists_cons
  intro d hd
  obtain rfl : c = d := by simpa using hd
  exact isBlank_of_isDecimalDigit hc

end

/-! ## Equations and simple expressions -/

section

variable {e : SimpleExpression} {s x rest : List Char}

theorem exists_of_takeSimple? (h : takeSimple? s = some (e, rest)) :
    ∃ x, s = x ++ rest ∧ IsSimple e x ∧ EndsDigits rest := by
  simp only [takeSimple?, Option.bind_eq_bind, Option.bind_eq_some_iff, Prod.exists] at h
  obtain ⟨left, afterLeft, hleft, symbol, afterSymbol, hsymbol, right, afterRight, hright, he⟩ := h
  obtain ⟨rfl, rfl⟩ := Prod.mk.inj (Option.some.inj he)
  obtain ⟨rfl, hl, -⟩ := isNumeral_of_takeNumeral? hleft
  obtain ⟨before, after, rfl, hc⟩ := exists_of_takeOperator? hsymbol
  obtain ⟨rfl, hr, hends⟩ := isNumeral_of_takeNumeral? hright
  exact ⟨_, by simp, .mk hl before hc after hr, hends⟩

theorem IsSimple.right (h : IsSimple e x) : IsNumeral e.right := by
  obtain ⟨-, -, -, -, hright⟩ := h
  exact hright

/-- A simple expression is taken, with what of the rest goes on with its right numeral. -/
theorem takeSimple?_append (h : IsSimple e x) (after : List Char) :
    ∃ more rest, after = more ++ rest ∧
      takeSimple? (x ++ after) = some (⟨e.left, e.symbol, e.right ++ more⟩, rest) := by
  obtain ⟨hleft, before, hsymbol, between, hright⟩ := h
  obtain ⟨-, hdigit, hpoint⟩ := not_of_mem_operatorSigns hsymbol
  obtain ⟨more, rest, hafter, htake⟩ := takeNumeral?_append hright after
  have hends : EndsNumeral (before.chars ++ e.symbol :: (between.chars ++ (e.right ++ after))) :=
    before.endsNumeral hdigit hpoint
  have hl := takeNumeral?_append_of_ends hleft hends
  have hc : takeOperator? (before.chars ++ e.symbol :: (between.chars ++ (e.right ++ after))) =
      some (e.symbol, e.right ++ after) :=
    takeOperator?_append hsymbol before between hright.head_not_blank
  have hx : e.left ++ (before.chars ++ e.symbol :: (between.chars ++ e.right)) ++ after =
      e.left ++ (before.chars ++ e.symbol :: (between.chars ++ (e.right ++ after))) := by
    simp
  refine ⟨more, rest, hafter, ?_⟩
  rw [hx]
  simp only [takeSimple?, hl, hc, htake, Option.bind_eq_bind, Option.bind_some]

/-- A simple expression that has ended is taken and nothing more. -/
theorem takeSimple?_append_of_ends (h : IsSimple e x) (hends : EndsNumeral rest) :
    takeSimple? (x ++ rest) = some (e, rest) := by
  obtain ⟨more, after, rfl, htake⟩ := takeSimple?_append h rest
  obtain ⟨y, -, hsimple, -⟩ := exists_of_takeSimple? htake
  obtain rfl := hsimple.right.eq_nil_of_ends hends
  simpa using htake

theorem exists_of_equalsNumber (h : equalsNumber s = true) :
    ∃ (before after : Blanks) (n rest : List Char),
      s = before.chars ++ '=' :: (after.chars ++ n) ++ rest ∧ IsNumeral n := by
  unfold equalsNumber at h
  split at h
  · rename_i more hskip
    obtain ⟨before, rfl⟩ := exists_of_skipBlanks hskip
    cases hdigit : skipBlanks more with
    | nil => simp [hdigit] at h
    | cons c rest =>
      have hc : isDecimalDigit c = true := by simpa [hdigit] using h
      obtain ⟨after, rfl⟩ := exists_of_skipBlanks hdigit
      exact ⟨before, after, [c], rest, by simp, .whole ⟨List.cons_ne_nil c [], by simpa using hc⟩⟩
  · cases h

theorem equalsNumber_append {n : List Char} (before after : Blanks) (hn : IsNumeral n)
    (rest : List Char) :
    equalsNumber (before.chars ++ '=' :: (after.chars ++ (n ++ rest))) = true := by
  have hequals : skipBlanks (before.chars ++ '=' :: (after.chars ++ (n ++ rest))) =
      '=' :: (after.chars ++ (n ++ rest)) :=
    skipBlanks_append before (by simpa using (by decide : isBlank '=' = false))
  have hskip : skipBlanks (after.chars ++ (n ++ rest)) = n ++ rest :=
    skipBlanks_append after hn.head_not_blank
  obtain ⟨c, cs, rfl, hc⟩ := hn.exists_cons
  unfold equalsNumber
  simp only [hequals]
  rw [hskip]
  simpa using hc

theorem exists_of_takeEquation? (h : takeEquation? s = some e) :
    ∃ x rest, s = x ++ rest ∧ IsEquation e x := by
  unfold takeEquation? at h
  split at h
  · rename_i e' rest hsimple
    split at h
    · rename_i hequals
      obtain rfl := Option.some.inj h
      obtain ⟨x, rfl, hx, -⟩ := exists_of_takeSimple? hsimple
      obtain ⟨before, after, n, rest, rfl, hn⟩ := exists_of_equalsNumber hequals
      exact ⟨_, rest, by simp, .mk hx before after hn⟩
    · cases h
  · cases h

theorem takeEquation?_append (h : IsEquation e x) (rest : List Char) :
    takeEquation? (x ++ rest) = some e := by
  obtain @⟨y, n, hy, before, after, hn⟩ := h
  have hx : y ++ (before.chars ++ '=' :: (after.chars ++ n)) ++ rest =
      y ++ (before.chars ++ '=' :: (after.chars ++ (n ++ rest))) := by
    simp
  have hends : EndsNumeral (before.chars ++ '=' :: (after.chars ++ (n ++ rest))) :=
    before.endsNumeral (by decide) (by decide)
  rw [hx, takeEquation?, takeSimple?_append_of_ends hy hends]
  simp only [equalsNumber_append before after hn rest, if_true]

end

/-! ## Groups -/

section

variable {s x rest : List Char}

/-- A group is taken as far as its first closing parenthesis. -/
theorem takeGroup?_eq_some_iff : takeGroup? s = some (x, rest) ↔ s = x ++ rest ∧ IsGroup x := by
  constructor
  · intro h
    unfold takeGroup? at h
    split at h
    · rename_i more
      split at h
      · rename_i c inner after hinner hafter
        obtain ⟨rfl, rfl⟩ := Prod.mk.inj (Option.some.inj h)
        have hsplit := more.takeWhile_append_dropWhile (p := (· ≠ ')'))
        have hclose : ')' ∉ c :: inner := by
          rw [← hinner]
          intro hmem
          simpa using List.mem_takeWhile_imp hmem
        rw [hinner, hafter] at hsplit
        refine ⟨?_, .mk (List.cons_ne_nil c inner) hclose⟩
        rw [← hsplit]
        simp
      · cases h
    · cases h
  · rintro ⟨rfl, @⟨inner, hne, hclose⟩⟩
    obtain ⟨c, inner, rfl⟩ := List.exists_cons_of_ne_nil hne
    have hrun : ∀ d ∈ c :: inner, decide (d ≠ ')') = true := by
      rintro d hd
      rw [decide_eq_true_eq]
      rintro rfl
      exact hclose hd
    have hend : ∀ d ∈ (')' :: rest).head?, decide (d ≠ ')') = false := by simp
    have htake := takeWhile_append_of_head hrun hend
    have hdrop := dropWhile_append_of_head hrun hend
    have hx : '(' :: (c :: inner ++ [')']) ++ rest = '(' :: (c :: inner ++ ')' :: rest) := by simp
    rw [hx]
    unfold takeGroup?
    simp only [htake, hdrop]
    simp

theorem exists_of_takeOperand? (h : takeOperand? s = some (x, rest)) :
    s = x ++ rest ∧ IsOperand x := by
  unfold takeOperand? at h
  simp only [List.isEmpty_iff] at h
  split at h
  · obtain ⟨hs, hgroup⟩ := takeGroup?_eq_some_iff.1 h
    exact ⟨hs, .group hgroup⟩
  · rename_i hwhole
    obtain ⟨rfl, rfl⟩ := Prod.mk.inj (Option.some.inj h)
    exact ⟨List.takeWhile_append_dropWhile.symm, .digits (isDigits_takeWhile hwhole)⟩

/-- An operand is taken, with what of the rest goes on with its digits. -/
theorem takeOperand?_append (h : IsOperand x) (after : List Char) :
    ∃ more rest, after = more ++ rest ∧ takeOperand? (x ++ after) = some (x ++ more, rest) := by
  unfold takeOperand?
  cases h with
  | digits h =>
    have hne : x ++ after.takeWhile isDecimalDigit ≠ [] := by simp [h.ne_nil]
    simp only [h.takeWhile_append, h.dropWhile_append, List.isEmpty_iff, if_neg hne]
    exact ⟨_, _, List.takeWhile_append_dropWhile.symm, rfl⟩
  | group h =>
    have hgroup : takeGroup? (x ++ after) = some (x, after) := takeGroup?_eq_some_iff.2 ⟨rfl, h⟩
    have hempty : (x ++ after).takeWhile isDecimalDigit = [] := by
      obtain @⟨inner, -, -⟩ := h
      rw [List.cons_append, List.takeWhile_cons_of_neg (by decide)]
    simp only [hempty, List.isEmpty_nil, if_true, hgroup]
    exact ⟨[], after, rfl, by rw [List.append_nil]⟩

theorem IsOperand.head_not_blank (h : IsOperand x) : ∀ c ∈ (x ++ rest).head?, isBlank c = false := by
  cases h with
  | digits h =>
    exact (IsNumeral.whole h).head_not_blank
  | group h =>
    obtain @⟨inner, -, -⟩ := h
    simpa using (by decide : isBlank '(' = false)

theorem exists_of_takeGrouped? (h : takeGrouped? s = some x) :
    ∃ rest, s = x ++ rest ∧ IsGrouped x := by
  simp only [takeGrouped?, Option.bind_eq_bind, Option.bind_eq_some_iff, Prod.exists] at h
  obtain ⟨group, afterGroup, hgroup, c, afterSign, hsign, operand, rest, hoperand, hx⟩ := h
  obtain ⟨rfl, hg⟩ := takeGroup?_eq_some_iff.1 hgroup
  obtain ⟨before, after, rfl, hc⟩ := exists_of_takeOperator? hsign
  obtain ⟨rfl, ho⟩ := exists_of_takeOperand? hoperand
  have hs : group ++ (before.chars ++ c :: (after.chars ++ (operand ++ rest))) =
      group ++ (before.chars ++ c :: (after.chars ++ operand)) ++ rest := by
    simp
  rw [hs, List.length_append, Nat.add_sub_cancel, List.take_left, Option.some.injEq] at hx
  exact ⟨rest, hx ▸ hs, hx ▸ .mk hg before hc after ho⟩

/-- A grouped expression is taken, with what of the rest goes on with its operand. -/
theorem takeGrouped?_append (h : IsGrouped x) (after : List Char) :
    ∃ more rest, after = more ++ rest ∧ takeGrouped? (x ++ after) = some (x ++ more) := by
  obtain @⟨group, operand, c, hgroup, before, hc, between, hoperand⟩ := h
  obtain ⟨more, rest, rfl, htake⟩ := takeOperand?_append hoperand after
  have hg : takeGroup? (group ++ (before.chars ++ c :: (between.chars ++ (operand ++ (more ++ rest)))))
      = some (group, _) :=
    takeGroup?_eq_some_iff.2 ⟨rfl, hgroup⟩
  have hsign : takeOperator? (before.chars ++ c :: (between.chars ++ (operand ++ (more ++ rest)))) =
      some (c, operand ++ (more ++ rest)) :=
    takeOperator?_append hc before between hoperand.head_not_blank
  have hx : group ++ (before.chars ++ c :: (between.chars ++ operand)) ++ (more ++ rest) =
      group ++ (before.chars ++ c :: (between.chars ++ (operand ++ (more ++ rest)))) := by
    simp
  have hs : group ++ (before.chars ++ c :: (between.chars ++ (operand ++ (more ++ rest)))) =
      group ++ (before.chars ++ c :: (between.chars ++ operand)) ++ more ++ rest := by
    simp
  refine ⟨more, rest, rfl, ?_⟩
  rw [hx]
  simp only [takeGrouped?, hg, hsign, htake, Option.bind_eq_bind, Option.bind_some]
  rw [hs, List.length_append, Nat.add_sub_cancel, List.take_left]

end

end Longhand.Expression
