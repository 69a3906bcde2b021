import Longhand.Proofs.ExpressionForms
/-!
# The leftmost expression is found

A search looks for a form at one place of a text after the other, so what it finds starts leftmost
(`leftmost?_eq_some_iff`). The forms come one after the other too: a simple expression is looked for
only in a text without an equation, and a group only in one without either. What is found is stated
on the substrings of the text (`Found`), each a form with no reader in it.

Main result: `extraction_leftmost`.
-/

namespace Longhand.Expression

open Text

/-! ## What there is to find -/

def Contains (Form : List Char → Prop) (s : List Char) : Prop :=
  ∃ x, Form x ∧ x <:+: s

/-- A text of the form stands in `s` after `before`, and none starts further left. -/
structure Leftmost (Form : List Char → Prop) (s before x : List Char) : Prop where
  form : Form x
  stands : before ++ x <+: s
  leftmost : ∀ before' x', Form x' → before' ++ x' <+: s → before.length ≤ before'.length

def Equation (x : List Char) : Prop :=
  ∃ e, IsEquation e x

def Simple (x : List Char) : Prop :=
  ∃ e, IsSimple e x

/-- The equation that starts leftmost, after `before`. -/
def FirstEquation (s before : List Char) (e : SimpleExpression) : Prop :=
  ∃ x, IsEquation e x ∧ Leftmost Equation s before x

/-- The simple expression that starts leftmost, after `before`, with its right numeral as long as
possible. -/
structure FirstSimple (s before : List Char) (e : SimpleExpression) : Prop where
  first : ∃ x, IsSimple e x ∧ Leftmost Simple s before x
  longest : ∀ e' x', IsSimple e' x' → before ++ x' <+: s → e'.right.length ≤ e.right.length

/-- The grouped expression that starts leftmost, after `before`, as long as possible. -/
structure FirstGrouped (s before x : List Char) : Prop where
  first : Leftmost IsGrouped s before x
  longest : ∀ x', IsGrouped x' → before ++ x' <+: s → x'.length ≤ x.length

/-- What is found in a text. -/
inductive Found (s : List Char) : List Char → Prop
  | equation {before : List Char} {e : SimpleExpression} (h : FirstEquation s before e) :
      Found s e.text
  | simple {before : List Char} {e : SimpleExpression} (hequation : ¬Contains Equation s)
      (h : FirstSimple s before e) : Found s e.text
  | grouped {before x : List Char} (hequation : ¬Contains Equation s)
      (hsimple : ¬Contains Simple s) (h : FirstGrouped s before x) : Found s x

/-- Where the one text ends and the other begins a run of digits goes on. -/
def PartsDigits (before after : List Char) : Prop :=
  (∃ b ∈ before.getLast?, isDecimalDigit b = true) ∧ ∃ c ∈ after.head?, isDecimalDigit c = true

/-- The numerals of an expression that stands in `s` after `before` begin and end where runs of digits
do. -/
def KeepsRuns (s before : List Char) (e : SimpleExpression) : Prop :=
  ∃ (gap gap' : Blanks) (after : List Char),
    s = before ++ (e.left ++ (gap.chars ++ e.symbol :: (gap'.chars ++ (e.right ++ after)))) ∧
      ¬PartsDigits before e.left ∧ ¬PartsDigits e.left (gap.chars ++ [e.symbol]) ∧
      ¬PartsDigits (e.symbol :: gap'.chars) e.right ∧ ¬PartsDigits e.right after

/-! ## Searching -/

section

variable {α : Type} {f : List Char → Option α} {s : List Char}

theorem leftmost?_eq_none_iff :
    leftmost? f s = none ↔ ∀ before rest, s = before ++ rest → f rest = none := by
  induction s with
  | nil =>
    constructor
    · intro h before rest hs
      obtain ⟨-, rfl⟩ := List.append_eq_nil_iff.1 hs.symm
      exact h
    · exact fun h => h [] [] rfl
  | cons c s ih =>
    rw [leftmost?]
    constructor
    · intro h before rest hs
      split at h
      · cases h
      · rename_i hnone
        rcases List.cons_eq_append_iff.1 hs with ⟨rfl, rfl⟩ | ⟨before, rfl, hrest⟩
        · exact hnone
        · exact ih.1 h before rest hrest
    · intro h
      rw [h [] (c :: s) rfl]
      exact ih.2 fun before rest hs => h (c :: before) rest (by rw [hs, List.cons_append])

/-- **A search stops at the first place where it finds something.** -/
theorem leftmost?_eq_some_iff {a : α} :
    leftmost? f s = some a ↔ ∃ before rest, s = before ++ rest ∧ f rest = some a ∧
      ∀ before' rest', s = before' ++ rest' → before'.length < before.length → f rest' = none := by
  induction s with
  | nil =>
    constructor
    · exact fun h => ⟨[], [], rfl, h, fun _ _ _ hlt => absurd hlt (Nat.not_lt_zero _)⟩
    · rintro ⟨before, rest, hs, h, -⟩
      obtain ⟨-, rfl⟩ := List.append_eq_nil_iff.1 hs.symm
      exact h
  | cons c s ih =>
    rw [leftmost?]
    cases hf : f (c :: s) with
    | some b =>
      constructor
      · rintro h
        exact ⟨[], c :: s, rfl, hf.trans h, fun _ _ _ hlt => absurd hlt (Nat.not_lt_zero _)⟩
      · rintro ⟨before, rest, hs, h, hleast⟩
        rcases List.cons_eq_append_iff.1 hs with ⟨rfl, rfl⟩ | ⟨before, rfl, -⟩
        · exact hf.symm.trans h
        · have hnone := hleast [] (c :: s) rfl (Nat.succ_pos _)
          rw [hf] at hnone
          cases hnone
    | none =>
      refine ih.trans ⟨?_, ?_⟩
      · rintro ⟨before, rest, rfl, h, hleast⟩
        refine ⟨c :: before, rest, rfl, h, fun before' rest' hs hlt => ?_⟩
        rcases List.cons_eq_append_iff.1 hs with ⟨rfl, rfl⟩ | ⟨before', rfl, hrest⟩
        · exact hf
        · exact hleast before' rest' hrest (Nat.lt_of_succ_lt_succ hlt)
      · rintro ⟨before, rest, hs, h, hleast⟩
        rcases List.cons_eq_append_iff.1 hs with ⟨rfl, rfl⟩ | ⟨before, rfl, rfl⟩
        · rw [hf] at h
          cases h
        · refine ⟨before, rest, rfl, h, fun before' rest' hs hlt => ?_⟩
          exact hleast (c :: before') rest' (by rw [hs, List.cons_append]) (Nat.succ_lt_succ hlt)

/-- Something is taken at the start of a text exactly if the text begins with the form. -/
structure Takes (take : List Char → Option α) (Form : List Char → Prop) : Prop where
  sound : ∀ {r a}, take r = some a → ∃ x rest, r = x ++ rest ∧ Form x
  complete : ∀ {x}, Form x → ∀ rest, ∃ a, take (x ++ rest) = some a

variable {Form : List Char → Prop} (htakes : Takes f Form)

include htakes

theorem Takes.eq_none_iff (r : List Char) : f r = none ↔ ∀ x, Form x → ¬x <+: r := by
  constructor
  · rintro hnone x hx ⟨rest, rfl⟩
    obtain ⟨a, ha⟩ := htakes.complete hx rest
    rw [ha] at hnone
    cases hnone
  · intro h
    by_contra hne
    obtain ⟨a, ha⟩ := Option.ne_none_iff_exists'.1 hne
    obtain ⟨x, rest, rfl, hx⟩ := htakes.sound ha
    exact h x hx (List.prefix_append x rest)

/-- A search finds nothing in a text without the form. -/
theorem Takes.leftmost?_eq_none_iff : leftmost? f s = none ↔ ¬Contains Form s := by
  rw [Expression.leftmost?_eq_none_iff]
  constructor
  · rintro h ⟨x, hx, before, after, hs⟩
    have hnone := h before (x ++ after) (by rw [← hs, List.append_assoc])
    exact (htakes.eq_none_iff _).1 hnone x hx (List.prefix_append x after)
  · rintro h before rest rfl
    refine (htakes.eq_none_iff rest).2 fun x hx hstarts => h ⟨x, hx, ?_⟩
    exact hstarts.isInfix.trans (List.suffix_append before rest).isInfix

/-- What a search finds starts where no text of the form starts further left. -/
theorem Takes.leftmost?_eq_some_iff {a : α} :
    leftmost? f s = some a ↔ ∃ before rest, s = before ++ rest ∧ f rest = some a ∧
      ∀ before' x', Form x' → before' ++ x' <+: s → before.length ≤ before'.length := by
  rw [Expression.leftmost?_eq_some_iff]
  refine exists_congr fun before => exists_congr fun rest => and_congr_right fun _ =>
    and_congr_right fun _ => ⟨fun h before' x' hx' hstands => ?_, fun h before' rest' hs hlt => ?_⟩
  · obtain ⟨after, hs⟩ := hstands
    by_contra hlt
    have hnone := h before' (x' ++ after) (by rw [← hs, List.append_assoc]) (not_le.1 hlt)
    exact (htakes.eq_none_iff _).1 hnone x' hx' (List.prefix_append x' after)
  · refine (htakes.eq_none_iff rest').2 fun x' hx' hstarts => hlt.not_ge (h before' x' hx' ?_)
    rw [hs]
    exact (List.prefix_append_right_inj before').2 hstarts

end

/-! ## Searching for the forms -/

theorem takes_equation : Takes takeEquation? Equation where
  sound h := by
    obtain ⟨x, rest, hr, hx⟩ := exists_of_takeEquation? h
    exact ⟨x, rest, hr, _, hx⟩
  complete := by
    rintro x ⟨e, hx⟩ rest
    exact ⟨e, takeEquation?_append hx rest⟩

theorem takes_simple : Takes takeSimple? Simple where
  sound h := by
    obtain ⟨x, hr, hx, -⟩ := exists_of_takeSimple? h
    exact ⟨x, _, hr, _, hx⟩
  complete := by
    rintro x ⟨e, hx⟩ after
    obtain ⟨more, rest, -, htake⟩ := takeSimple?_append hx after
    exact ⟨_, htake⟩

theorem takes_grouped : Takes takeGrouped? IsGrouped where
  sound h := by
    obtain ⟨rest, hr, hx⟩ := exists_of_takeGrouped? h
    exact ⟨_, rest, hr, hx⟩
  complete := by
    rintro x hx after
    obtain ⟨more, rest, -, htake⟩ := takeGrouped?_append hx after
    exact ⟨_, htake⟩

section

variable {s before x r rest : List Char} {e : SimpleExpression}

/-- The right numeral taken is the longest. -/
theorem length_right_le_of_takeSimple? {e' : SimpleExpression} {x' : List Char}
    (h : takeSimple? r = some (e, rest)) (hx' : IsSimple e' x') (hstarts : x' <+: r) :
    e'.right.length ≤ e.right.length := by
  obtain ⟨after, rfl⟩ := hstarts
  obtain ⟨more, rest', -, htake⟩ := takeSimple?_append hx' after
  rw [h] at htake
  obtain ⟨rfl, -⟩ := Prod.mk.inj (Option.some.inj htake)
  simp

/-- The grouped expression taken is the longest. -/
theorem length_le_of_takeGrouped? {x' : List Char} (h : takeGrouped? r = some x)
    (hx' : IsGrouped x') (hstarts : x' <+: r) : x'.length ≤ x.length := by
  obtain ⟨after, rfl⟩ := hstarts
  obtain ⟨more, rest, -, htake⟩ := takeGrouped?_append hx' after
  rw [h] at htake
  obtain rfl := Option.some.inj htake
  simp

theorem leftmost?_takeEquation?_iff :
    leftmost? takeEquation? s = some e ↔ ∃ before, FirstEquation s before e := by
  rw [takes_equation.leftmost?_eq_some_iff]
  constructor
  · rintro ⟨before, rest, rfl, htake, hleast⟩
    obtain ⟨x, rest, rfl, hx⟩ := exists_of_takeEquation? htake
    have hstands : before ++ x <+: before ++ (x ++ rest) := ⟨rest, List.append_assoc ..⟩
    exact ⟨before, x, hx, ⟨e, hx⟩, hstands, hleast⟩
  · rintro ⟨before, x, hx, -, ⟨rest, rfl⟩, hleast⟩
    exact ⟨before, x ++ rest, List.append_assoc .., takeEquation?_append hx rest, hleast⟩

/-- The expression that starts leftmost is the one taken there: it goes on as long as it can. -/
theorem FirstSimple.takeSimple?_eq (h : FirstSimple s before e) :
    ∃ r rest, s = before ++ r ∧ takeSimple? r = some (e, rest) := by
  obtain ⟨x, hx, -, ⟨after, rfl⟩, -⟩ := h.first
  obtain ⟨more, rest, rfl, htake⟩ := takeSimple?_append hx after
  obtain ⟨y, hy, hsimple, -⟩ := exists_of_takeSimple? htake
  have hle := h.longest _ y hsimple ⟨rest, by rw [List.append_assoc, ← hy, List.append_assoc]⟩
  have hright := (List.prefix_append e.right more).eq_of_length_le hle
  obtain rfl := List.self_eq_append_right.1 hright
  rw [List.append_nil] at htake
  exact ⟨_, rest, List.append_assoc .., htake⟩

theorem leftmost?_takeSimple?_iff :
    (∃ rest, leftmost? takeSimple? s = some (e, rest)) ↔ ∃ before, FirstSimple s before e := by
  simp only [takes_simple.leftmost?_eq_some_iff]
  constructor
  · rintro ⟨rest, before, r, rfl, htake, hleast⟩
    obtain ⟨x, rfl, hx, -⟩ := exists_of_takeSimple? htake
    have hstands : before ++ x <+: before ++ (x ++ rest) := ⟨rest, List.append_assoc ..⟩
    refine ⟨before, ⟨x, hx, ⟨e, hx⟩, hstands, hleast⟩, fun e' x' hx' hstands' => ?_⟩
    exact length_right_le_of_takeSimple? htake hx'
      ((List.prefix_append_right_inj before).1 hstands')
  · rintro ⟨before, h⟩
    obtain ⟨r, rest, hs, htake⟩ := h.takeSimple?_eq
    obtain ⟨x, -, hx⟩ := h.first
    exact ⟨rest, before, r, hs, htake, hx.leftmost⟩

theorem leftmost?_takeGrouped?_iff :
    leftmost? takeGrouped? s = some x ↔ ∃ before, FirstGrouped s before x := by
  rw [takes_grouped.leftmost?_eq_some_iff]
  constructor
  · rintro ⟨before, r, rfl, htake, hleast⟩
    obtain ⟨rest, rfl, hx⟩ := exists_of_takeGrouped? htake
    have hstands : before ++ x <+: before ++ (x ++ rest) := ⟨rest, List.append_assoc ..⟩
    refine ⟨before, ⟨hx, hstands, hleast⟩, fun x' hx' hstands' => ?_⟩
    exact length_le_of_takeGrouped? htake hx' ((List.prefix_append_right_inj before).1 hstands')
  · rintro ⟨before, h⟩
    obtain ⟨hx, ⟨after, hs⟩, hleast⟩ := h.first
    obtain ⟨more, rest, rfl, htake⟩ := takeGrouped?_append hx after
    obtain ⟨rest', hrest, hgrouped⟩ := exists_of_takeGrouped? htake
    have hstands : before ++ (x ++ more) <+: s :=
      ⟨rest', by rw [List.append_assoc, ← hrest, ← hs, List.append_assoc]⟩
    have hle := h.longest _ hgrouped hstands
    have hoperand := (List.prefix_append x more).eq_of_length_le hle
    obtain rfl := List.self_eq_append_right.1 hoperand
    rw [List.append_nil] at htake
    exact ⟨before, _, by rw [← hs, List.append_assoc], htake, hleast⟩

end

/-! ## Runs of digits -/

section

variable {s before x after : List Char} {e : SimpleExpression}

theorem IsSimple.cons {c : Char} (hc : isDecimalDigit c = true) (h : IsSimple e x) :
    IsSimple { e with left := c :: e.left } (c :: x) := by
  obtain ⟨hleft, before, hsymbol, between, hright⟩ := h
  exact .mk (e := { e with left := c :: e.left }) (hleft.cons hc) before hsymbol between hright

theorem IsEquation.cons {c : Char} (hc : isDecimalDigit c = true) (h : IsEquation e x) :
    IsEquation { e with left := c :: e.left } (c :: x) := by
  obtain @⟨y, n, hy, before, after, hn⟩ := h
  exact .mk (hy.cons hc) before after hn

/-- What starts leftmost is not preceded by a digit that it could start with. -/
theorem Leftmost.not_partsDigits {Form : List Char → Prop} (h : Leftmost Form s before x)
    (hcons : ∀ c, isDecimalDigit c = true → Form (c :: x)) (after : List Char) :
    ¬PartsDigits before after := by
  rintro ⟨⟨c, hc, hdigit⟩, -⟩
  obtain ⟨front, rfl⟩ := List.getLast?_eq_some_iff.1 hc
  have hstands : front ++ c :: x <+: s := by
    rw [← List.singleton_append, ← List.append_assoc]
    exact h.stands
  have hle := h.leftmost front (c :: x) (hcons c hdigit) hstands
  rw [List.length_append, List.length_singleton] at hle
  omega

theorem EndsDigits.not_partsDigits (h : EndsDigits after) (before : List Char) :
    ¬PartsDigits before after := by
  rintro ⟨-, c, hc, hdigit⟩
  rw [h c hc] at hdigit
  cases hdigit

theorem EndsNumeral.endsDigits (h : EndsNumeral after) : EndsDigits after :=
  fun c hc => (h c hc).1

/-- After an operator and blanks a run of digits begins. -/
theorem not_partsDigits_gap {c : Char} (hc : isDecimalDigit c = false) (gap : Blanks)
    (after : List Char) : ¬PartsDigits (c :: gap.chars) after := by
  rintro ⟨⟨d, hd, hdigit⟩, -⟩
  rcases List.mem_cons.1 (List.mem_of_getLast? hd) with rfl | hmem
  · rw [hc] at hdigit
    cases hdigit
  · rw [isDecimalDigit_of_isBlank (gap.blank d hmem)] at hdigit
    cases hdigit

theorem IsSimple.keepsRuns (h : IsSimple e x) (hbefore : ¬PartsDigits before e.left)
    (hafter : EndsDigits after) : KeepsRuns (before ++ (x ++ after)) before e := by
  obtain ⟨-, gap, hsymbol, gap', -⟩ := h
  obtain ⟨-, hdigit, hpoint⟩ := not_of_mem_operatorSigns hsymbol
  have hgap : EndsNumeral (gap.chars ++ [e.symbol]) := gap.endsNumeral hdigit hpoint
  exact ⟨gap, gap', after, by simp, hbefore, hgap.endsDigits.not_partsDigits _,
    not_partsDigits_gap hdigit gap' _, hafter.not_partsDigits _⟩

theorem FirstEquation.keepsRuns (h : FirstEquation s before e) : KeepsRuns s before e := by
  obtain ⟨x, hx, hfirst⟩ := h
  have hbefore := hfirst.not_partsDigits (fun c hc => ⟨_, hx.cons hc⟩) e.left
  obtain ⟨after, rfl⟩ := hfirst.stands
  obtain @⟨y, n, hy, gap, gap', hn⟩ := hx
  have hends : EndsNumeral (gap.chars ++ '=' :: (gap'.chars ++ (n ++ after))) :=
    gap.endsNumeral (by decide) (by decide)
  have hruns := hy.keepsRuns hbefore hends.endsDigits
  rw [List.append_assoc]
  simpa using hruns

theorem FirstSimple.keepsRuns (h : FirstSimple s before e) : KeepsRuns s before e := by
  obtain ⟨r, rest, rfl, htake⟩ := h.takeSimple?_eq
  obtain ⟨x, rfl, hx, hends⟩ := exists_of_takeSimple? htake
  obtain ⟨x', hx', hfirst⟩ := h.first
  exact hx.keepsRuns (hfirst.not_partsDigits (fun c hc => ⟨_, hx'.cons hc⟩) e.left) hends

end

/-! ## Main result -/

theorem extract?_eq_none_iff {s : List Char} : extract? s = none ↔
    ¬Contains Equation s ∧ ¬Contains Simple s ∧ ¬Contains IsGrouped s := by
  rw [← takes_equation.leftmost?_eq_none_iff, ← takes_simple.leftmost?_eq_none_iff,
    ← takes_grouped.leftmost?_eq_none_iff, extract?]
  cases leftmost? takeEquation? s with
  | some e => simp
  | none =>
    cases leftmost? takeSimple? s with
    | some e => simp
    | none => simp

theorem extract?_eq_some_iff {s t : List Char} : extract? s = some t ↔ Found s t := by
  have hequation := takes_equation.leftmost?_eq_none_iff (s := s)
  have hsimple := takes_simple.leftmost?_eq_none_iff (s := s)
  constructor
  · intro h
    unfold extract? at h
    split at h
    · rename_i e he
      obtain rfl := Option.some.inj h
      obtain ⟨before, hfirst⟩ := leftmost?_takeEquation?_iff.1 he
      exact .equation hfirst
    · rename_i hnone
      split at h
      · rename_i e rest he
        obtain rfl := Option.some.inj h
        obtain ⟨before, hfirst⟩ := leftmost?_takeSimple?_iff.1 ⟨rest, he⟩
        exact .simple (hequation.1 hnone) hfirst
      · rename_i hnone'
        obtain ⟨before, hfirst⟩ := leftmost?_takeGrouped?_iff.1 h
        exact .grouped (hequation.1 hnone) (hsimple.1 hnone') hfirst
  · intro h
    unfold extract?
    cases h with
    | equation h => rw [leftmost?_takeEquation?_iff.2 ⟨_, h⟩]
    | simple hnone h =>
      obtain ⟨rest, hrest⟩ := leftmost?_takeSimple?_iff.2 ⟨_, h⟩
      rw [hequation.2 hnone, hrest]
    | grouped hnone hnone' h =>
      rw [hequation.2 hnone, hsimple.2 hnone']
      exact leftmost?_takeGrouped?_iff.2 ⟨_, h⟩

/-- **The leftmost expression is found.** Of a text with an equation the leftmost equation, else of a
text with a simple expression the leftmost one, its right numeral as long as possible, and else the
leftmost group with an operator and an operand, as long as possible and as it stands; nothing is found
exactly if the text has none of them. The numerals found are not cut out of longer runs of digits. -/
theorem extraction_leftmost (s : List Char) :
    (∀ t, extract? s = some t ↔ Found s t) ∧
      (extract? s = none ↔
        ¬Contains Equation s ∧ ¬Contains Simple s ∧ ¬Contains IsGrouped s) ∧
      ∀ before e, FirstEquation s before e ∨ FirstSimple s before e → KeepsRuns s before e := by
  refine ⟨fun t => extract?_eq_some_iff, extract?_eq_none_iff, ?_⟩
  rintro before e (h | h)
  · exact h.keepsRuns
  · exact h.keepsRuns

/-- An equation comes before a simple expression further left. -/
example : extract? "3 - 1 and then 2 + 2 = 4".toList = some "2 + 2".toList := by
  decide +kernel

end Longhand.Expression
