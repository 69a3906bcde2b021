import Longhand.Proofs.Interchange
import Longhand.Proofs.SurroundingBlanks
import Longhand.Proofs.TokenPlaces
import Mathlib.Logic.Relation
/-!
# The layout of a text

Blanks between the tokens of a text and the choice between the two signs for division make no
difference to what the text says (`Token.label`), as long as no blank goes that alone keeps two numbers
apart. After such an edit (`Relayout`) the texts before it and after it are still apart, so their
tokens stay as they are but for their positions; and the two signs for division are one operator to
the scanner and to everything that looks at tokens afterwards.

Main result: `layout_keeps_meaning`.
-/

namespace Longhand

open Expression (Blanks normalize)

def Token.plain (t : Token) : Token :=
  { t with value := String.ofList (normalize t.chars) }

/-- What a token says: its kind and its text, whichever sign for division it is written with. -/
def Token.label (t : Token) : TokenKind × List Char :=
  (t.kind, normalize t.chars)

namespace Expression

/-! ## The sign for division -/

/-- One sign for division in place of the other. -/
def plainSign (c : Char) : Char :=
  if c = '÷' then '/' else c

/-- What does not tell the two signs apart does not see the change. -/
theorem eq_of_plainSign {β : Type} {p : Char → β} (h : p '÷' = p '/') (c : Char) :
    p (plainSign c) = p c := by
  unfold plainSign
  split
  · rename_i hc
    rw [hc, h]
  · rfl

theorem normalize_cons (c : Char) (s : List Char) :
    normalize (c :: s) = plainSign c :: normalize s :=
  rfl

theorem normalize_normalize (s : List Char) : normalize (normalize s) = normalize s := by
  refine normalize_eq_self fun hmem => ?_
  obtain ⟨c, -, hc⟩ := List.mem_map.1 hmem
  split at hc
  · cases hc
  · exact absurd hc ‹_›

theorem normalize_of_isNumeric {s : List Char} (h : ∀ c ∈ s, Token.isNumeric c = true) :
    normalize s = s :=
  normalize_eq_self fun hmem => absurd (h '÷' hmem) (by decide)

theorem takeWhile_normalize (s : List Char) :
    (normalize s).takeWhile Token.isNumeric = s.takeWhile Token.isNumeric := by
  have hsame : Token.isNumeric ∘ plainSign = Token.isNumeric :=
    funext (eq_of_plainSign (by decide))
  have hmap : (s.map plainSign).takeWhile Token.isNumeric =
      normalize (s.takeWhile (Token.isNumeric ∘ plainSign)) := List.takeWhile_map ..
  rw [hsame, normalize_of_isNumeric fun c hc => List.mem_takeWhile_imp hc] at hmap
  exact hmap

theorem dropWhile_normalize (s : List Char) :
    (normalize s).dropWhile Token.isNumeric = normalize (s.dropWhile Token.isNumeric) := by
  have hsame : Token.isNumeric ∘ plainSign = Token.isNumeric :=
    funext (eq_of_plainSign (by decide))
  have hmap : (s.map plainSign).dropWhile Token.isNumeric =
      normalize (s.dropWhile (Token.isNumeric ∘ plainSign)) := List.dropWhile_map ..
  rw [hsame] at hmap
  exact hmap

end Expression

namespace Token

theorem plain_singleton (kind : TokenKind) (c : Char) (position : Nat) :
    (⟨kind, String.singleton c, position⟩ : Token).plain =
      ⟨kind, String.singleton (Expression.plainSign c), position⟩ := by
  rw [plain, chars, String.toList_singleton]
  exact congrArg (Token.mk kind · position) String.singleton_eq_ofList.symm

theorem plain_eq_self {t : Token} (h : normalize t.chars = t.chars) : t.plain = t := by
  rw [plain, h, chars, String.ofList_toList]

theorem chars_plain (t : Token) : t.plain.chars = normalize t.chars :=
  String.toList_ofList

theorem label_plain (t : Token) : t.plain.label = t.label := by
  rw [label, label, chars_plain, Expression.normalize_normalize]
  rfl

theorem map_plain_cons (t : Token) (x : Except ExpressionFault (List Token)) :
    List.map plain <$> ((t :: ·) <$> x) = (t.plain :: ·) <$> (List.map plain <$> x) := by
  cases x <;> rfl

end Token

namespace Expression

/-- **The scanner takes one sign for division for the other.** -/
theorem scan_normalize (operand : Bool) (position : Nat) (s : List Char) :
    Token.scan operand position (normalize s) =
      List.map Token.plain <$> Token.scan operand position s := by
  induction operand, position, s using Token.scan.induct with
  | case1 operand position => exact (scan_nil operand position).trans (by rw [scan_nil]; rfl)
  | case2 operand position c rest hblank ih =>
    have hblank' := (eq_of_plainSign (p := Text.isBlank) (by decide) c).trans hblank
    rw [normalize_cons, scan_of_blank hblank', scan_of_blank hblank, ih]
  | case3 operand position c rest hblank hdigit run ih =>
    have hrun : ∀ b ∈ run, Token.isNumeric b = true :=
      (Token.isRun_takeWhile hdigit rest).isNumeric
    have hplain : (⟨.number, String.ofList run, position⟩ : Token).plain =
        ⟨.number, String.ofList run, position⟩ :=
      Token.plain_eq_self (by rw [Token.chars, String.toList_ofList, normalize_of_isNumeric hrun])
    have hc : plainSign c = c := if_neg (by rintro rfl; exact absurd hdigit (by decide))
    rw [normalize_cons, hc, scan_of_digit hblank hdigit, scan_of_digit hblank hdigit,
      takeWhile_normalize, dropWhile_normalize, ih, Token.map_plain_cons, hplain]
  | case4 operand position c rest hblank hdigit hminus ih =>
    have hc : plainSign c = c := if_neg (by rintro rfl; exact absurd hminus.1 (by decide))
    have hplain : (⟨.unaryMinus, "-", position⟩ : Token).plain = ⟨.unaryMinus, "-", position⟩ :=
      Token.plain_eq_self (normalize_eq_self (show '÷' ∉ "-".toList by decide))
    rw [normalize_cons, hc, scan_of_sign hminus, scan_of_sign hminus, ih, Token.map_plain_cons,
      hplain]
  | case5 operand position c rest hblank hdigit hminus hop ih =>
    have hblank' := (eq_of_plainSign (p := Text.isBlank) (by decide) c).trans_ne hblank
    have hdigit' := (eq_of_plainSign (p := Token.isDigit) (by decide) c).trans_ne hdigit
    have hop' : (Operator.ofChar? (plainSign c)).isSome = true := by
      rwa [eq_of_plainSign (p := Operator.ofChar?) rfl]
    have hminus' : ¬(plainSign c = '-' ∧ operand = true) := by
      rwa [eq_of_plainSign (p := (· = '-')) (by simp)]
    rw [normalize_cons, scan_of_operator hblank' hdigit' hminus' hop',
      scan_of_operator hblank hdigit hminus hop, ih, Token.map_plain_cons, Token.plain_singleton]
  | case6 operand position c rest hblank hdigit hminus hop hparen ih =>
    have hc : plainSign c = c := if_neg (by rintro rfl; exact absurd hparen (by decide))
    rw [normalize_cons, hc, scan_of_parenthesis hparen, scan_of_parenthesis hparen, ih,
      Token.map_plain_cons, Token.plain_singleton, hc]
  | case7 operand position c rest hblank hdigit hminus hop hparen =>
    have hforeign : Foreign c := foreign_of_not hblank hdigit hop hparen
    have hc : plainSign c = c := if_neg (by rintro rfl; exact absurd rfl hop)
    rw [normalize_cons, hc, scan_of_foreign hforeign, scan_of_foreign hforeign]
    rfl

theorem ofText_normalize (s : List Char) :
    Token.ofText (normalize s) = List.map Token.plain <$> Token.ofText s :=
  scan_normalize true 0 s

/-! ## Blanks where two texts are apart -/

/-- Tokens that say the same, one after the other. -/
def Alike (ts ts' : List Token) : Prop :=
  ts.map Token.label = ts'.map Token.label

theorem alike_shift (k : Nat) (ts : List Token) : Alike ts (ts.map (Token.shift k)) := by
  rw [Alike, List.map_map]
  rfl

theorem Alike.append {us us' ts ts' : List Token} (hus : Alike us us') (hts : Alike ts ts') :
    Alike (us ++ ts) (us' ++ ts') := by
  rw [Alike, List.map_append, List.map_append, hus, hts]

section

variable {before after : List Char}

theorem Apart.blanks (h : Apart before after) (gap : Blanks) : Apart before (gap.chars ++ after) :=
  fun b hb hnumeric => gap.endsNumber_append (h b hb hnumeric)

/-- **Blanks where two texts are apart** change no token but its position. -/
theorem alike_of_gap (gap : Blanks) (h : Apart before after) :
    Matching (fun _ _ => True) Alike (Token.ofText (before ++ after))
      (Token.ofText (before ++ (gap.chars ++ after))) := by
  rw [Token.ofText, Token.ofText, scan_append true 0 before h,
    scan_append true 0 before (h.blanks gap)]
  cases Token.scan true 0 before with
  | error f => exact .error trivial
  | ok us =>
    have hafter (due : Bool) (position : Nat) : Matching (fun _ _ => True) Alike
        (Token.scan due position after) (Token.scan due position (gap.chars ++ after)) := by
      rw [scan_blanks, scan_add]
      cases Token.scan due position after with
      | error f => exact .error trivial
      | ok ts => exact .ok (alike_shift _ ts)
    exact (hafter _ _).map fun ts ts' => Alike.append rfl

end

/-! ## Edits -/

/-- A place of a text that is not within a token: between two, before the first or after the last. -/
def BetweenTokens (ts : List Token) (place : Nat) : Prop :=
  ∀ t ∈ ts, place ≤ t.position ∨ t.stop ≤ place

/-- All that stands between two numbers is what stands between two places. -/
def SeparatesNumbers (ts : List Token) (place place' : Nat) : Prop :=
  ∃ t ∈ ts, ∃ u ∈ ts, t.kind = .number ∧ u.kind = .number ∧ t.stop = place ∧ u.position = place'

/-- One change to the layout of a text with tokens. -/
inductive Relayout : List Char → List Char → Prop
  | insert {before after : List Char} {ts : List Token} (gap : Blanks)
      (hts : Token.ofText (before ++ after) = .ok ts) (hplace : BetweenTokens ts before.length) :
      Relayout (before ++ after) (before ++ (gap.chars ++ after))
  | remove {before after : List Char} {ts : List Token} (gap : Blanks)
      (hts : Token.ofText (before ++ (gap.chars ++ after)) = .ok ts)
      (hgap : ¬SeparatesNumbers ts before.length (before.length + gap.chars.length)) :
      Relayout (before ++ (gap.chars ++ after)) (before ++ after)
  | slash (before after : List Char) : Relayout (before ++ '÷' :: after) (before ++ '/' :: after)
  | obelus (before after : List Char) : Relayout (before ++ '/' :: after) (before ++ '÷' :: after)

section

variable {s before after : List Char} {ts : List Token}

/-- Digits and points stand in numbers. -/
theorem exists_number (h : Token.ofText s = .ok ts) {i : Nat} {c : Char} (hc : s[i]? = some c)
    (hnumeric : Token.isNumeric c = true) :
    ∃ t ∈ ts, StandsIn s t ∧ t.kind = .number ∧ t.position ≤ i ∧ i < t.stop := by
  rcases (cutInto_of_scan h).covered hc with ⟨t, ht, hle, hlt⟩ | hblank
  · rw [Nat.zero_add] at hle hlt
    have hstands := standsIn_of_ofText h t ht
    exact ⟨t, ht, hstands, hstands.kind_eq_number hle hlt hc hnumeric, hle, hlt⟩
  · rw [not_isBlank_of_isNumeric hnumeric] at hblank
    cases hblank

/-- The number that the text before a place ends with. -/
theorem exists_number_before (h : Token.ofText (before ++ after) = .ok ts) {b : Char}
    (hb : b ∈ before.getLast?) (hnumeric : Token.isNumeric b = true) :
    ∃ t ∈ ts, StandsIn (before ++ after) t ∧ t.kind = .number ∧ t.position < before.length ∧
      before.length ≤ t.stop := by
  have hat : (before ++ after)[before.length - 1]? = some b := by
    rw [Option.mem_def, List.getLast?_eq_getElem?] at hb
    obtain ⟨hlt, -⟩ := List.getElem?_eq_some_iff.1 hb
    rw [List.getElem?_append_left hlt, hb]
  have hpos : 0 < before.length := by
    cases before with
    | nil => simp at hb
    | cons c rest => exact Nat.succ_pos _
  obtain ⟨t, ht, hstands, hkind, hle, hlt⟩ := exists_number h hat hnumeric
  exact ⟨t, ht, hstands, hkind, by omega, by omega⟩

/-- Texts are apart at a place that is not within a token. -/
theorem apart_of_betweenTokens (h : Token.ofText (before ++ after) = .ok ts)
    (hplace : BetweenTokens ts before.length) : Apart before after := by
  intro b hb hnumeric c hc
  obtain ⟨t, ht, hstands, hkind, hlt, hle⟩ := exists_number_before h hb hnumeric
  have hstop : t.stop = before.length := by
    have hcases := hplace t ht
    omega
  refine (hstands.maximal hkind).1 c ?_
  rw [hstop, Option.mem_def, List.getElem?_append_right le_rfl, Nat.sub_self,
    ← List.head?_eq_getElem?]
  exact hc

/-- Texts with blanks between them are apart if the blanks are not all that keeps two numbers
apart. -/
theorem apart_of_not_separatesNumbers {gap : Blanks} (hne : gap.chars ≠ [])
    (h : Token.ofText (before ++ (gap.chars ++ after)) = .ok ts)
    (hgap : ¬SeparatesNumbers ts before.length (before.length + gap.chars.length)) :
    Apart before after := by
  have hlength := List.length_pos_of_ne_nil hne
  -- within the gap there is no character of a number
  have hblank (i : Nat) (hle : before.length ≤ i) (hlt : i < before.length + gap.chars.length) :
      ∃ d, (before ++ (gap.chars ++ after))[i]? = some d ∧ Token.isNumeric d = false := by
    have hi : i - before.length < gap.chars.length := by omega
    refine ⟨gap.chars[i - before.length], ?_, ?_⟩
    · rw [List.getElem?_append_right hle, List.getElem?_append_left hi, List.getElem?_eq_getElem]
    · exact Token.isNumeric_of_isBlank (gap.blank _ (List.getElem_mem hi))
  intro b hb hnumeric c hc
  by_contra hcontinues
  have hcnumeric : Token.isNumeric c = true := by simpa using hcontinues
  obtain ⟨t, ht, hstandst, hkindt, hltt, hlet⟩ := exists_number_before h hb hnumeric
  have hstop : t.stop = before.length := by
    by_contra hstop
    obtain ⟨d, hd, hnone⟩ := hblank before.length le_rfl (by omega)
    rw [hstandst.isNumeric_of_number hkindt hltt.le (by omega) hd] at hnone
    cases hnone
  have hat : (before ++ (gap.chars ++ after))[before.length + gap.chars.length]? = some c := by
    rw [← List.append_assoc, ← List.length_append, List.getElem?_append_right le_rfl, Nat.sub_self,
      ← List.head?_eq_getElem?]
    exact hc
  obtain ⟨u, hu, hstandsu, hkindu, hleu, hltu⟩ := exists_number h hat hcnumeric
  have hposition : u.position = before.length + gap.chars.length := by
    by_contra hposition
    obtain ⟨d, hd, hnone⟩ :=
      hblank (before.length + gap.chars.length - 1) (by omega) (by omega)
    rw [hstandsu.isNumeric_of_number hkindu (by omega) (by omega) hd] at hnone
    cases hnone
  exact hgap ⟨t, ht, u, hu, hkindt, hkindu, hstop, hposition⟩

end

theorem alike_of_normalize_eq {s s' : List Char} {ts : List Token}
    (hs : normalize s = normalize s') (h : Token.ofText s = .ok ts) :
    ∃ ts', Token.ofText s' = .ok ts' ∧ Alike ts ts' := by
  have hplain := ofText_normalize s
  rw [h, hs, ofText_normalize s'] at hplain
  obtain ⟨ts', hts', hmap⟩ := exists_of_map_eq_ok hplain
  refine ⟨ts', hts', ?_⟩
  have hlabel := congrArg (List.map Token.label) hmap
  have hsame : Token.label ∘ Token.plain = Token.label := funext Token.label_plain
  rw [List.map_map, List.map_map, hsame] at hlabel
  exact hlabel.symm

/-- **One edit** of the layout. -/
theorem Relayout.alike {s s' : List Char} {ts : List Token} (hedit : Relayout s s')
    (h : Token.ofText s = .ok ts) : ∃ ts', Token.ofText s' = .ok ts' ∧ Alike ts ts' := by
  cases hedit with
  | @insert before after us gap hus hplace =>
    have hmatching := alike_of_gap gap (apart_of_betweenTokens hus hplace)
    rw [h] at hmatching
    generalize Token.ofText (before ++ (gap.chars ++ after)) = y at hmatching ⊢
    cases hmatching with
    | ok halike => exact ⟨_, rfl, halike⟩
  | @remove before after us gap hus hgap =>
    by_cases hne : gap.chars = []
    · rw [hne, List.nil_append] at h
      exact ⟨ts, h, rfl⟩
    · have hmatching := alike_of_gap gap (apart_of_not_separatesNumbers hne hus hgap)
      rw [h] at hmatching
      generalize Token.ofText (before ++ after) = x at hmatching ⊢
      cases hmatching with
      | ok halike => exact ⟨_, rfl, halike.symm⟩
  | slash before after =>
    exact alike_of_normalize_eq (by rw [normalize_append, normalize_append]; rfl) h
  | obelus before after =>
    exact alike_of_normalize_eq (by rw [normalize_append, normalize_append]; rfl) h

/-- **Any number of edits** of the layout. -/
theorem alike_of_relayouts {s s' : List Char} {ts : List Token}
    (hedits : Relation.ReflTransGen Relayout s s') (h : Token.ofText s = .ok ts) :
    ∃ ts', Token.ofText s' = .ok ts' ∧ Alike ts ts' := by
  induction hedits with
  | refl => exact ⟨ts, h, rfl⟩
  | tail _ hedit ih =>
    obtain ⟨us, hus, halike⟩ := ih
    obtain ⟨ts', hts', halike'⟩ := hedit.alike hus
    exact ⟨ts', hts', halike.trans halike'⟩

/-! ## What labels tell -/

/-- A token as a scan makes it: a number is a run, and an operator has one of the symbols for one. -/
structure WellSpelled (t : Token) : Prop where
  run : t.kind = .number → Token.IsRun t.chars
  known : t.kind = .operator → (Operator.ofSymbol? t.value).isSome = true

theorem wellSpelled_of_ofText {s : List Char} {ts : List Token} (h : Token.ofText s = .ok ts) :
    ∀ t ∈ ts, WellSpelled t := fun t ht =>
  ⟨(standsIn_of_ofText h t ht).isRun, (scanned_of_scan h t ht).known⟩

section

variable {t t' : Token}

theorem WellSpelled.normalize_eq (h : WellSpelled t) (hkind : t.kind = .number) :
    normalize t.chars = t.chars :=
  normalize_of_isNumeric (h.run hkind).isNumeric

theorem opens_eq_of_label (h : t.label = t'.label) : PostOrder.opens t = PostOrder.opens t' := by
  have hopens (t : Token) : PostOrder.opens t = decide (t.label.2 = ['(']) := by
    refine decide_eq_decide.2 ⟨fun h => ?_, fun h => ?_⟩
    · rw [Token.label, Token.chars, h]
      exact (by decide : normalize "(".toList = ['('])
    · obtain ⟨c, hc, hsign⟩ := List.map_eq_singleton_iff.1 h
      have hparen : c = '(' := (eq_of_plainSign (p := (· = '(')) (by simp) c).mp hsign
      rw [← String.ofList_toList (s := t.value)]
      exact congrArg String.ofList (hc.trans (by rw [hparen]))
  rw [hopens, hopens, h]

theorem ofSymbol?_eq_of_label (h : t.label = t'.label) :
    Operator.ofSymbol? t.value = Operator.ofSymbol? t'.value := by
  have hsymbol (t : Token) :
      Operator.ofSymbol? t.value = Operator.ofSymbol? (String.ofList t.label.2) := by
    rw [Operator.ofSymbol?, Operator.ofSymbol?, String.toList_ofList, Token.label, Token.chars]
    rcases t.value.toList with _ | ⟨c, _ | ⟨d, rest⟩⟩
    · rfl
    · exact (eq_of_plainSign (p := Operator.ofChar?) rfl c).symm
    · rfl
  rw [hsymbol, hsymbol, h]

/-- Numbers that say the same have the same text. -/
theorem WellSpelled.value_eq (h : WellSpelled t) (h' : WellSpelled t') (hkind : t.kind = .number)
    (hlabel : t.label = t'.label) : t.value = t'.value := by
  have hkind' : t'.kind = .number := (congrArg Prod.fst hlabel).symm.trans hkind
  have hchars := congrArg Prod.snd hlabel
  rw [Token.label, Token.label, h.normalize_eq hkind, h'.normalize_eq hkind'] at hchars
  exact String.toList_injective hchars

end

/-- **Tokens that say the same stand for each other.** Only the positions that faults tell may
differ. -/
theorem interchange_of_label {E : ExpressionFault → ExpressionFault → Prop}
    {R : Token → Token → Prop} (hrefl : ∀ f, E f f)
    (hlabel : ∀ {t t'}, R t t' → WellSpelled t ∧ WellSpelled t' ∧ t.label = t'.label)
    (hmoved : ∀ {t t'}, R t t' → ∀ told : Nat → ExpressionFault,
      (∀ p q, (told p).code = (told q).code) → E (told t.position) (told t'.position)) :
    Interchange E R where
  kind_eq h := congrArg Prod.fst (hlabel h).2.2
  opens_eq h := opens_eq_of_label (hlabel h).2.2
  symbol_eq h := ofSymbol?_eq_of_label (hlabel h).2.2
  read_eq h hkind := by
    obtain ⟨ht, ht', heq⟩ := hlabel h
    rw [ht.value_eq ht' hkind heq]
  invalidNumber h hkind := by
    obtain ⟨ht, ht', heq⟩ := hlabel h
    rw [← ht.value_eq ht' hkind heq]
    exact hmoved h (.invalidNumber _) fun _ _ => rfl
  unknownOperator h hkind hnone := by
    have hknown := (hlabel h).1.known hkind
    rw [hnone] at hknown
    cases hknown
  insufficientOperands h := hmoved h .insufficientOperands fun _ _ => rfl
  strayParenthesis h := hmoved h .strayParenthesis fun _ _ => rfl
  mismatched := hrefl _
  incomplete := hrefl _
  divisionByZero := hrefl _

theorem WellSpelled.plain {t : Token} (h : WellSpelled t) : WellSpelled t.plain where
  run hkind := by
    rw [Token.plain_eq_self (h.normalize_eq hkind)]
    exact h.run hkind
  known hkind := by
    rw [ofSymbol?_eq_of_label t.label_plain]
    exact h.known hkind

theorem evaluateTokens_plain {ts : List Token} (h : ∀ t ∈ ts, WellSpelled t) :
    evaluateTokens (ts.map Token.plain) = evaluateTokens ts := by
  have hinterchange : Interchange Eq fun t t' => WellSpelled t ∧ t' = t.plain := by
    refine interchange_of_label (fun _ => rfl) ?_ ?_
    · rintro t _ ⟨ht, rfl⟩
      exact ⟨ht, ht.plain, t.label_plain.symm⟩
    · rintro t _ ⟨-, rfl⟩ told -
      rfl
  have hts : List.Forall₂ (fun t t' => WellSpelled t ∧ t' = t.plain) ts (ts.map Token.plain) :=
    List.forall₂_map_right_iff.2 (List.forall₂_same.2 fun t ht => ⟨h t ht, rfl⟩)
  exact (hinterchange.evaluateTokens hts).eq.symm

/-- **The sign for division makes no difference to the outcome.** -/
theorem evaluate_normalize (s : List Char) :
    Token.ofText (normalize s) >>= evaluateTokens = Token.ofText s >>= evaluateTokens := by
  rw [ofText_normalize]
  cases h : Token.ofText s with
  | error f => rfl
  | ok ts => exact evaluateTokens_plain (wellSpelled_of_ofText h)

/-! ## Main result -/

/-- Tokens at one place of two lists. -/
def Counterpart (ts ts' : List Token) (t t' : Token) : Prop :=
  ∃ i : Nat, ts[i]? = some t ∧ ts'[i]? = some t'

def SameCode (f f' : ExpressionFault) : Prop :=
  f.code = f'.code

/-- Tokens with the same meaning: both lists can be brought into post-order or neither can, the
post-orders have the same places of the lists one after the other, and their values are equal or
faults with one code. -/
def SameMeaning (ts ts' : List Token) : Prop :=
  Matching SameCode
    (fun post post' => List.Forall₂ (Counterpart ts ts') post post' ∧
      Matching SameCode Eq (PostOrder.value post) (PostOrder.value post'))
    (PostOrder.ofTokens ts) (PostOrder.ofTokens ts')

theorem forall₂_counterpart {ts ts' : List Token} (h : ts.length = ts'.length) :
    List.Forall₂ (Counterpart ts ts') ts ts' :=
  List.forall₂_iff_get.2 ⟨h, fun i hi hi' =>
    ⟨i, List.getElem?_eq_getElem hi, List.getElem?_eq_getElem hi'⟩⟩

/-- Tokens of two texts that say the same have the same meaning. -/
theorem Alike.sameMeaning {s s' : List Char} {ts ts' : List Token} (h : Token.ofText s = .ok ts)
    (h' : Token.ofText s' = .ok ts') (halike : Alike ts ts') : SameMeaning ts ts' := by
  have hlength : ts.length = ts'.length := by
    have hmap := congrArg List.length halike
    rwa [List.length_map, List.length_map] at hmap
  have hinterchange : Interchange SameCode (Counterpart ts ts') := by
    refine interchange_of_label (fun _ => rfl) ?_ fun _ told hcode => hcode _ _
    rintro t t' ⟨i, hi, hi'⟩
    refine ⟨wellSpelled_of_ofText h t (List.mem_of_getElem? hi),
      wellSpelled_of_ofText h' t' (List.mem_of_getElem? hi'), ?_⟩
    have hat : (ts.map Token.label)[i]? = (ts'.map Token.label)[i]? := congrArg (·[i]?) halike
    rw [List.getElem?_map, List.getElem?_map, hi, hi'] at hat
    exact Option.some.inj hat
  exact (hinterchange.ofTokens (forall₂_counterpart hlength)).mono fun post post' hpost =>
    ⟨hpost, hinterchange.value hpost⟩

/-- **The layout of a text does not change its meaning.** Blanks put anywhere but into a token, blanks
taken out that do not alone keep two numbers apart, and the one sign for division in place of the
other leave the tokens the same but for their positions, and so the post-order and the value or the
fault. For every text, with tokens or without, the normal form has the same fault of its characters
at the same position, or tokens with the same outcome. -/
theorem layout_keeps_meaning :
    (∀ (s s' : List Char) (ts : List Token), Token.ofText s = .ok ts →
      Relation.ReflTransGen Relayout s s' →
        ∃ ts', Token.ofText s' = .ok ts' ∧ Alike ts ts' ∧ SameMeaning ts ts') ∧
    ∀ s : List Char, Token.ofText (normalize s) = List.map Token.plain <$> Token.ofText s ∧
      Token.ofText (normalize s) >>= evaluateTokens = Token.ofText s >>= evaluateTokens := by
  refine ⟨fun s s' ts h hedits => ?_, fun s => ⟨ofText_normalize s, evaluate_normalize s⟩⟩
  obtain ⟨ts', h', halike⟩ := alike_of_relayouts hedits h
  exact ⟨ts', h', halike, halike.sameMeaning h h'⟩

set_option maxRecDepth 10000 in
theorem layout_keeps_meaning_threeEdits :
    ∃ ts ts', Token.ofText "9--6/ 4".toList = .ok ts ∧ Token.ofText "9- -6÷4".toList = .ok ts' ∧
      Relation.ReflTransGen Relayout "9--6/ 4".toList "9- -6÷4".toList ∧
      Alike ts ts' ∧ SameMeaning ts ts' := by
  have h : Token.ofText "9--6/ 4".toList =
      .ok [⟨.number, "9", 0⟩, ⟨.operator, "-", 1⟩, ⟨.unaryMinus, "-", 2⟩, ⟨.number, "6", 3⟩,
        ⟨.operator, "/", 4⟩, ⟨.number, "4", 6⟩] := by
    decide +kernel
  have hinserted : Token.ofText "9- -6/ 4".toList =
      .ok [⟨.number, "9", 0⟩, ⟨.operator, "-", 1⟩, ⟨.unaryMinus, "-", 3⟩, ⟨.number, "6", 4⟩,
        ⟨.operator, "/", 5⟩, ⟨.number, "4", 7⟩] := by
    decide +kernel
  have hinsert : Relayout "9--6/ 4".toList "9- -6/ 4".toList :=
    @Relayout.insert "9-".toList "-6/ 4".toList _ (.one ' ' rfl) h
      (by unfold BetweenTokens; decide +kernel)
  have hremove : Relayout "9- -6/ 4".toList "9- -6/4".toList :=
    @Relayout.remove "9- -6/".toList "4".toList _ (.one ' ' rfl) hinserted
      (by unfold SeparatesNumbers; decide +kernel)
  have hedits := ((Relation.ReflTransGen.single hinsert).tail hremove).tail
    (.obelus "9- -6".toList "4".toList)
  obtain ⟨ts', h', halike, hmeaning⟩ := layout_keeps_meaning.1 _ _ _ h hedits
  exact ⟨_, ts', h, h', hedits, halike, hmeaning⟩

end Expression

end Longhand
