import Longhand.Proofs.ExtractedExpressions
/-!
# The last number of what is found

An equation or a simple expression is found with all of its right numeral: it is taken as far as it
goes, and in an equation the equals sign comes after it. A group takes digits only as its second
operand, so of a number with a fraction it leaves the fraction behind.

The place in the text where the last operand stands is told by `LastOperand`; the main result is
`last_number_of_answer`, and `last_number_cut_short` the text in which a fraction is lost.
-/

namespace Longhand.Expression

open Text

/-- What is found in `s` is `t`, which ends in the operand `right`, and after that operand the text
goes on with `after`. -/
inductive LastOperand (s : List Char) : (t right after : List Char) → Prop
  | simple {before after : List Char} {e : SimpleExpression} (gap gap' : Blanks)
      (h : FirstEquation s before e ∨ ¬Contains Equation s ∧ FirstSimple s before e)
      (hs : s = before ++
        (e.left ++ (gap.chars ++ e.symbol :: (gap'.chars ++ (e.right ++ after))))) :
      LastOperand s e.text e.right after
  | grouped {before group right after : List Char} {c : Char} (gap gap' : Blanks)
      (hnone : ¬Contains Equation s ∧ ¬Contains Simple s) (hgroup : IsGroup group)
      (hc : c ∈ operatorSigns) (hright : IsOperand right)
      (h : FirstGrouped s before (group ++ (gap.chars ++ c :: (gap'.chars ++ right))))
      (hs : s = before ++ (group ++ (gap.chars ++ c :: (gap'.chars ++ (right ++ after))))) :
      LastOperand s (group ++ (gap.chars ++ c :: (gap'.chars ++ right))) right after

/-! ## There is a last operand -/

section

variable {s t before right after : List Char} {e : SimpleExpression}

theorem KeepsRuns.exists_lastOperand (hruns : KeepsRuns s before e)
    (h : FirstEquation s before e ∨ ¬Contains Equation s ∧ FirstSimple s before e) :
    ∃ right after, LastOperand s e.text right after := by
  obtain ⟨gap, gap', after, hs, -⟩ := hruns
  exact ⟨e.right, after, .simple gap gap' h hs⟩

theorem Found.exists_lastOperand (h : Found s t) : ∃ right after, LastOperand s t right after := by
  cases h with
  | equation h => exact h.keepsRuns.exists_lastOperand (.inl h)
  | simple hnone h => exact h.keepsRuns.exists_lastOperand (.inr ⟨hnone, h⟩)
  | grouped hequation hsimple h =>
    obtain ⟨hform, ⟨after, hs⟩, -⟩ := h.first
    obtain @⟨group, operand, c, hgroup, gap, hc, gap', hoperand⟩ := hform
    refine ⟨operand, after, .grouped gap gap' ⟨hequation, hsimple⟩ hgroup hc hoperand h ?_⟩
    rw [← hs]
    simp

theorem LastOperand.found (h : LastOperand s t right after) : Found s t := by
  cases h with
  | simple gap gap' h hs =>
    rcases h with h | ⟨hnone, h⟩
    · exact .equation h
    · exact .simple hnone h
  | grouped gap gap' hnone hgroup hc hright h hs => exact .grouped hnone.1 hnone.2 h

/-- What is found ends in its last operand. -/
theorem LastOperand.suffix (h : LastOperand s t right after) : right <:+ t := by
  cases h with
  | @simple before after e gap gap' h hs =>
    exact List.suffix_append (e.left ++ [' ', e.symbol, ' ']) _
  | @grouped before group right after c gap gap' hnone hgroup hc hright h hs =>
    refine ⟨group ++ (gap.chars ++ c :: gap'.chars), ?_⟩
    simp

end

/-! ## The numeral that stands there -/

section

variable {s t before right after n rest : List Char} {e : SimpleExpression}

/-- An equation begins with a simple expression. -/
theorem FirstEquation.takeSimple?_eq (h : FirstEquation s before e) :
    ∃ r rest, s = before ++ r ∧ takeSimple? r = some (e, rest) := by
  obtain ⟨x, @⟨y, n, hy, gap, gap', hn⟩, -, ⟨after, rfl⟩, -⟩ := h
  have hends : EndsNumeral (gap.chars ++ '=' :: (gap'.chars ++ (n ++ after))) :=
    gap.endsNumeral (by decide) (by decide)
  exact ⟨_, _, by simp, takeSimple?_append_of_ends hy hends⟩

/-- A numeral that has ended is the right one of the expression found before it. -/
theorem right_eq_of_ends
    (h : FirstEquation s before e ∨ ¬Contains Equation s ∧ FirstSimple s before e)
    (gap gap' : Blanks) (hs : s = before ++ (e.left ++ (gap.chars ++ e.symbol :: (gap'.chars ++ (n ++ rest)))))
    (hn : IsNumeral n) (hends : EndsNumeral rest) : e.right = n := by
  obtain ⟨r, rest', hr, htake⟩ : ∃ r rest', s = before ++ r ∧ takeSimple? r = some (e, rest') := by
    rcases h with h | ⟨-, h⟩
    · exact h.takeSimple?_eq
    · exact h.takeSimple?_eq
  obtain ⟨x, -, hx, -⟩ := exists_of_takeSimple? htake
  obtain ⟨hleft, -, hsymbol, -, -⟩ := hx
  have hsimple : IsSimple { e with right := n }
      (e.left ++ (gap.chars ++ e.symbol :: (gap'.chars ++ n))) :=
    .mk (e := { e with right := n }) hleft gap hsymbol gap' hn
  have htaken := takeSimple?_append_of_ends hsimple hends
  have hsame : r = e.left ++ (gap.chars ++ e.symbol :: (gap'.chars ++ n)) ++ rest := by
    rw [hr] at hs
    rw [List.append_cancel_left hs]
    simp
  rw [hsame, htaken] at htake
  have he := congrArg SimpleExpression.right (Prod.mk.inj (Option.some.inj htake)).1
  exact he.symm

/-- The digits that a numeral starts with, and what follows them. -/
theorem IsNumeral.exists_whole (h : IsNumeral n) (hends : EndsNumeral rest) :
    ∃ fraction, n = n.takeWhile isDecimalDigit ++ fraction ∧ IsDigits (n.takeWhile isDecimalDigit) ∧
      EndsDigits (fraction ++ rest) ∧ ('.' ∉ n ↔ fraction = []) := by
  cases h with
  | whole h =>
    have hwhole : n.takeWhile isDecimalDigit = n := List.takeWhile_eq_self_iff.2 h.digit
    have hpoint : '.' ∉ n := fun hmem => absurd (h.digit '.' hmem) (by decide)
    rw [hwhole]
    exact ⟨[], (List.append_nil n).symm, h, hends.endsDigits, by simpa using hpoint⟩
  | @fraction w f hw hf =>
    have hwhole : (w ++ '.' :: f).takeWhile isDecimalDigit = w := by
      rw [hw.takeWhile_append, List.takeWhile_cons_of_neg (by decide), List.append_nil]
    rw [hwhole]
    refine ⟨'.' :: f, rfl, hw, ?_, by simp⟩
    intro c hc
    obtain rfl : '.' = c := by simpa using hc
    decide

/-- A second operand that stands where a numeral does is the digits the numeral starts with. -/
theorem FirstGrouped.right_eq {group : List Char} {c : Char} {gap gap' : Blanks}
    (hgroup : IsGroup group) (hc : c ∈ operatorSigns) (hright : IsOperand right)
    (h : FirstGrouped s before (group ++ (gap.chars ++ c :: (gap'.chars ++ right))))
    (hs : s = before ++ (group ++ (gap.chars ++ c :: (gap'.chars ++ (n ++ rest)))))
    (hn : IsNumeral n) (hends : EndsNumeral rest) (hsame : right ++ after = n ++ rest) :
    right = n.takeWhile isDecimalDigit := by
  obtain ⟨fraction, hsplit, hwhole, hfraction, -⟩ := hn.exists_whole hends
  generalize n.takeWhile isDecimalDigit = w at *
  obtain rfl := hsplit
  have hdigits : IsDigits right := by
    cases hright with
    | digits h => exact h
    | group hopen =>
      -- a group does not start with a digit
      obtain @⟨inner, -, -⟩ := hopen
      obtain ⟨d, ds, rfl, hd⟩ := hwhole.exists_cons
      rw [List.cons_append, List.cons_append, List.cons_append] at hsame
      obtain rfl : '(' = d := (List.cons.inj hsame).1
      exact absurd hd (by decide)
  have hprefix : right <+: w := by
    have hrun : (w ++ (fraction ++ rest)).takeWhile isDecimalDigit = w :=
      takeWhile_append_of_head hwhole.digit hfraction
    rw [List.append_assoc] at hsame
    rw [← hrun, ← hsame, hdigits.takeWhile_append]
    exact List.prefix_append _ _
  have hlength : w.length ≤ right.length := by
    have hgrouped : IsGrouped (group ++ (gap.chars ++ c :: (gap'.chars ++ w))) :=
      .mk hgroup gap hc gap' (.digits hwhole)
    have hle := h.longest _ hgrouped ⟨fraction ++ rest, by rw [hs]; simp⟩
    simp only [List.length_append, List.length_cons] at hle
    omega
  exact hprefix.eq_of_length_le hlength

end

/-! ## Main result -/

section

variable {s t right after n rest : List Char}

/-- A simple expression starts with a digit. -/
theorem IsSimple.head?_text_ne {e : SimpleExpression} {x : List Char} (h : IsSimple e x) :
    e.text.head? ≠ some '(' := by
  obtain ⟨hleft, -, -, -, -⟩ := h
  obtain ⟨c, cs, hcs, hc⟩ := hleft.exists_cons
  rw [SimpleExpression.text, hcs]
  rintro hhead
  obtain rfl : c = '(' := by simpa using hhead
  exact absurd hc (by decide)

/-- What of a numeral is found, if the answer ends in it. -/
theorem LastOperand.right_eq (h : LastOperand s t right after) (hn : IsNumeral n)
    (hends : EndsNumeral rest) (hsame : right ++ after = n ++ rest) :
    right = if t.head? = some '(' then n.takeWhile isDecimalDigit else n := by
  cases h with
  | @simple before after e gap gap' h hs =>
    have hsimple : ∃ x, IsSimple e x := by
      rcases h with ⟨x, ⟨hx, -, -, -⟩, -⟩ | ⟨-, ⟨x, hx, -⟩, -⟩
      · exact ⟨_, hx⟩
      · exact ⟨_, hx⟩
    obtain ⟨x, hx⟩ := hsimple
    rw [hsame] at hs
    rw [if_neg hx.head?_text_ne]
    exact right_eq_of_ends h gap gap' hs hn hends
  | @grouped before group right after c gap gap' hnone hgroup hc hright h hs =>
    have hhead : (group ++ (gap.chars ++ c :: (gap'.chars ++ right))).head? = some '(' := by
      obtain @⟨inner, -, -⟩ := hgroup
      rfl
    rw [if_pos hhead]
    exact h.right_eq hgroup hc hright (hsame ▸ hs) hn hends hsame

/-- **The last number of what is found.** What is found ends in an operand that stands in the text.
Where a numeral stands there, that operand is the whole numeral, if the answer is two numerals with
an operator, and the digits before its point, if it is a group with an operator: so it is the whole
numeral unless this has a fraction and comes after a group. -/
theorem last_number_of_answer (s t : List Char) :
    (extract? s = some t ↔ ∃ right after, LastOperand s t right after) ∧
      ∀ right after, LastOperand s t right after → right <:+ t ∧
        ∀ n rest, IsNumeral n → EndsNumeral rest → right ++ after = n ++ rest →
          right = (if t.head? = some '(' then n.takeWhile isDecimalDigit else n) ∧
            (right = n ↔ (t.head? = some '(' → '.' ∉ n)) := by
  refine ⟨?_, fun right after h => ⟨h.suffix, fun n rest hn hends hsame => ?_⟩⟩
  · rw [extract?_eq_some_iff]
    exact ⟨Found.exists_lastOperand, fun ⟨_, _, h⟩ => h.found⟩
  · have hright := h.right_eq hn hends hsame
    refine ⟨hright, ?_⟩
    rw [hright]
    by_cases hgroup : t.head? = some '('
    · obtain ⟨fraction, hsplit, -, -, hpoint⟩ := hn.exists_whole hends
      rw [if_pos hgroup, imp_iff_right hgroup, hpoint]
      constructor
      · intro hwhole
        rw [hwhole] at hsplit
        exact List.self_eq_append_right.1 hsplit
      · rintro rfl
        rw [List.append_nil] at hsplit
        exact hsplit.symm
    · rw [if_neg hgroup]
      exact iff_of_true rfl fun h => absurd h hgroup

end

set_option maxRecDepth 10000 in
/-- An equation with a fraction before the equals sign. -/
theorem last_number_of_answer_equation :
    LastOperand "12×3.75 = 45".toList "12 × 3.75".toList "3.75".toList " = 45".toList ∧
      IsNumeral "3.75".toList ∧ EndsNumeral " = 45".toList ∧
      "3.75".toList <:+ "12 × 3.75".toList ∧
      ("3.75".toList = "3.75".toList ↔
        ("12 × 3.75".toList.head? = some '(' → '.' ∉ "3.75".toList)) := by
  have htake : takeEquation? "12×3.75 = 45".toList = some ⟨"12".toList, '×', "3.75".toList⟩ := by
    decide +kernel
  have hfirst : FirstEquation "12×3.75 = 45".toList [] ⟨"12".toList, '×', "3.75".toList⟩ := by
    obtain ⟨x, rest, hx, hform⟩ := exists_of_takeEquation? htake
    exact ⟨x, hform, ⟨_, hform⟩, ⟨rest, hx.symm⟩, fun _ _ _ _ => Nat.zero_le _⟩
  have hlast : LastOperand "12×3.75 = 45".toList "12 × 3.75".toList "3.75".toList " = 45".toList :=
    .simple .none .none (.inl hfirst) rfl
  have hwhole : IsDigits ['3'] := ⟨by decide, List.all_eq_true.1 (by decide)⟩
  have hfraction : IsDigits ['7', '5'] := ⟨by decide, List.all_eq_true.1 (by decide)⟩
  have hnumeral : IsNumeral "3.75".toList := .fraction hwhole hfraction
  have hends : EndsNumeral " = 45".toList := by
    intro c hc
    obtain rfl : ' ' = c := by simpa using hc
    decide
  obtain ⟨hsuffix, hnumber⟩ := (last_number_of_answer _ _).2 _ _ hlast
  exact ⟨hlast, hnumeral, hends, hsuffix, (hnumber _ _ hnumeral hends rfl).2⟩

set_option maxRecDepth 10000 in
/-- The fraction of a number after a group is lost. -/
theorem last_number_cut_short :
    extract? "(7) + 5.5".toList = some "(7) + 5".toList ∧
      LastOperand "(7) + 5.5".toList "(7) + 5".toList "5".toList ".5".toList ∧
      "5".toList ++ ".5".toList = "5.5".toList ++ [] ∧ IsNumeral "5.5".toList ∧ EndsNumeral [] ∧
      ¬"5.5".toList <:+: "(7) + 5".toList := by
  have htake : takeGrouped? "(7) + 5.5".toList = some "(7) + 5".toList := by decide +kernel
  have hfirst : FirstGrouped "(7) + 5.5".toList [] "(7) + 5".toList := by
    obtain ⟨rest, hrest, hform⟩ := exists_of_takeGrouped? htake
    exact ⟨⟨hform, ⟨rest, hrest.symm⟩, fun _ _ _ _ => Nat.zero_le _⟩,
      fun _ hx hstarts => length_le_of_takeGrouped? htake hx hstarts⟩
  have hnone : ¬Contains Equation "(7) + 5.5".toList ∧ ¬Contains Simple "(7) + 5.5".toList :=
    ⟨takes_equation.leftmost?_eq_none_iff.1 (by decide +kernel),
      takes_simple.leftmost?_eq_none_iff.1 (by decide +kernel)⟩
  have hgroup : IsGroup ('(' :: (['7'] ++ [')'])) := .mk (by decide) (by decide)
  have hfive : IsDigits ['5'] := ⟨by decide, List.all_eq_true.1 (by decide)⟩
  have hgap : isBlank ' ' = true := by decide
  exact ⟨by decide +kernel,
    .grouped (.one ' ' hgap) (.one ' ' hgap) hnone hgroup (by decide) (.digits hfive) hfirst rfl,
    rfl, .fraction hfive hfive, by simp [EndsNumeral], by decide⟩

end Longhand.Expression
