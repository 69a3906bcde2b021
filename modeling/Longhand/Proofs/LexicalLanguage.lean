import Longhand.Proofs.TokenPlaces
/-!
# The texts that have tokens

A text has tokens exactly if each of its characters may stand where it does (`Admits`). That is a
matter of the character alone for all but the point, which has to be in a run of digits and points
that begins with a digit; how far to the left the run begins makes no difference. A scan stops at the
first character that may not stand where it does and has not looked at anything after it.

Main result: `tokens_of_lexical_language`.
-/

namespace Longhand.Expression

/-! ## Characters in their places -/

/-- A place within a run of digits and points that begins with a digit. The run is a whole one: no
digit and no point comes right before it or right after it. -/
structure InRun (before run after : List Char) (i : Nat) : Prop where
  isRun : Token.IsRun run
  apart_before : Apart before run
  endsNumber : EndsNumber after
  le : before.length ≤ i
  lt : i < before.length + run.length

/-- A character that may stand at a place of a text. -/
inductive Admits (s : List Char) (i : Nat) : Char → Prop
  | blank {c : Char} (h : Text.isBlank c = true) : Admits s i c
  | digit {c : Char} (h : Token.isDigit c = true) : Admits s i c
  | symbol {c : Char} (h : c ∈ ['+', '-', '×', '*', '÷', '/', '%', '(', ')']) : Admits s i c
  | point {before run after : List Char} (hs : s = before ++ (run ++ after))
      (h : InRun before run after i) : Admits s i '.'

/-- The leftmost character that may not stand where it does. -/
structure FirstForeign (s : List Char) (i : Nat) (c : Char) : Prop where
  at_place : s[i]? = some c
  not_admitted : ¬Admits s i c
  admitted_before : ∀ j d, j < i → s[j]? = some d → Admits s j d

theorem mem_symbols_iff {c : Char} :
    c ∈ ['+', '-', '×', '*', '÷', '/', '%', '(', ')'] ↔
      (Operator.ofChar? c).isSome = true ∨ Token.isParenthesis c = true := by
  constructor
  · intro h
    fin_cases h <;> decide
  · rintro (h | h)
    · obtain ⟨op, hop⟩ := Option.isSome_iff_exists.1 h
      have hmem := Symbol.mem_chars ⟨c, op, hop⟩
      simp only [Symbol.chars] at hmem
      exact List.mem_append_left ['(', ')'] hmem
    · simp only [Token.isParenthesis, Bool.or_eq_true, decide_eq_true_eq] at h
      rcases h with rfl | rfl <;> decide

theorem StandsAlone.mem_symbols {c : Char} {kind : TokenKind} (h : StandsAlone c kind) :
    c ∈ ['+', '-', '×', '*', '÷', '/', '%', '(', ')'] := by
  cases h with
  | operator hop => exact mem_symbols_iff.2 (.inl hop)
  | _ => decide

/-! ## Texts with tokens -/

section

variable {s : List Char} {i : Nat} {c : Char}

/-- A character within a token may stand there. -/
theorem StandsIn.admits {t : Token} (h : StandsIn s t) (hc : s[i]? = some c) (hle : t.position ≤ i)
    (hlt : i < t.stop) : Admits s i c := by
  have hchars := h.getElem?_eq hle hlt ▸ hc
  have hmem := List.mem_of_getElem? hchars
  cases h with
  | @number before run after hs hrun hbefore hafter =>
    rw [Token.chars, String.toList_ofList] at hmem
    have hnumeric := hrun.isNumeric c hmem
    simp only [Token.isNumeric, Bool.or_eq_true, decide_eq_true_eq] at hnumeric
    rcases hnumeric with hdigit | rfl
    · exact .digit hdigit
    · refine .point hs ⟨hrun, hbefore, hafter, hle, ?_⟩
      simpa [Token.stop, Token.chars] using hlt
  | @symbol before after d kind hs hd =>
    rw [Token.chars, String.toList_singleton] at hmem
    obtain rfl := List.mem_singleton.1 hmem
    exact .symbol hd.mem_symbols

theorem admits_of_ofText {ts : List Token} (h : Token.ofText s = .ok ts) (hc : s[i]? = some c) :
    Admits s i c := by
  rcases (cutInto_of_scan h).covered hc with ⟨t, ht, hle, hlt⟩ | hblank
  · rw [Nat.zero_add] at hle hlt
    exact (standsIn_of_ofText h t ht).admits hc hle hlt
  · exact .blank hblank

end

/-! ## Texts without tokens -/

section

variable {before first second : List Char}

/-- A run that goes on from two texts goes on from the second one, unless that is empty. -/
theorem Apart.append_left (h : Apart first second) (hempty : first = [] → Apart before second) :
    Apart (before ++ first) second := by
  intro b hb
  cases first with
  | nil =>
    rw [List.append_nil] at hb
    exact hempty rfl b hb
  | cons d ds =>
    rw [Option.mem_def, List.getLast?_append, List.getLast?_cons, Option.some_or] at hb
    exact h b (by rw [Option.mem_def, List.getLast?_cons, hb])

theorem Apart.of_head_eq {c : Char} {rest rest' : List Char} (h : Apart before (c :: rest)) :
    Apart before (c :: rest') :=
  fun b hb hnumeric d hd => h b hb hnumeric d (by simpa using hd)

theorem Apart.of_prefix {front : List Char} (h : Apart before (front ++ second)) :
    Apart before front := by
  intro b hb hnumeric c hc
  refine h b hb hnumeric c ?_
  rw [Option.mem_def] at hc ⊢
  rw [List.head?_append, hc, Option.some_or]

/-- A text does not go on with a character of a number if neither does what it starts with, and a
number at the end of that does not go on with what follows. -/
theorem EndsNumber.append (h : EndsNumber first) (hempty : first = [] → EndsNumber second) :
    EndsNumber (first ++ second) := by
  cases first with
  | nil => exact hempty rfl
  | cons c rest => exact h

end

/-- What may stand at a place may stand there if the text goes on. -/
theorem Admits.append {s rest : List Char} {i : Nat} {c : Char} (h : Admits s i c)
    (hapart : Apart s rest) : Admits (s ++ rest) i c := by
  cases h with
  | blank h => exact .blank h
  | digit h => exact .digit h
  | symbol h => exact .symbol h
  | @point before run after hs h =>
    have hsplit : s ++ rest = before ++ (run ++ (after ++ rest)) := by simp [hs]
    refine .point hsplit ⟨h.isRun, h.apart_before, h.endsNumber.append ?_, h.le, h.lt⟩
    rintro rfl
    rw [List.append_nil] at hs
    exact (hapart.of_suffix ⟨before, hs.symm⟩).endsNumber h.isRun.ne_nil h.isRun.isNumeric

/-- A text starts with a character that starts no token, or with a piece that has tokens whatever
comes before it and that does not go on in the rest. -/
theorem foreign_or_piece (c : Char) (rest : List Char) :
    Foreign c ∨ ∃ piece rest', c :: rest = piece ++ rest' ∧ piece ≠ [] ∧ Apart piece rest' ∧
      ∀ operand position, ∃ us, Token.scan operand position piece = .ok us := by
  have hsingle (hc : Token.isNumeric c = false)
      (hscan : ∀ operand position, ∃ us, Token.scan operand position [c] = .ok us) :
      ∃ piece rest', c :: rest = piece ++ rest' ∧ piece ≠ [] ∧ Apart piece rest' ∧
        ∀ operand position, ∃ us, Token.scan operand position piece = .ok us :=
    ⟨[c], rest, rfl, List.cons_ne_nil c [], apart_concat_of_not_numeric hc [] rest, hscan⟩
  by_cases hblank : Text.isBlank c = true
  · refine .inr (hsingle (Token.isNumeric_of_isBlank hblank) fun operand position => ⟨[], ?_⟩)
    rw [scan_of_blank hblank, scan_nil]
  by_cases hdigit : Token.isDigit c = true
  · have hend := endsNumber_dropWhile rest
    have hrun : ∀ b ∈ rest.takeWhile Token.isNumeric, Token.isNumeric b = true :=
      fun b hb => List.mem_takeWhile_imp hb
    have hnil : EndsNumber [] := by simp [EndsNumber]
    refine .inr ⟨c :: rest.takeWhile Token.isNumeric, rest.dropWhile Token.isNumeric, ?_,
      List.cons_ne_nil _ _, hend.apart _, fun operand position => ?_⟩
    · exact congrArg (c :: ·) List.takeWhile_append_dropWhile.symm
    · have hscan := scan_run operand position hdigit hrun hnil
      rw [List.append_nil, scan_nil] at hscan
      exact ⟨_, hscan⟩
  by_cases hop : (Operator.ofChar? c).isSome = true
  · refine .inr (hsingle (StandsAlone.operator hop).isNumeric_eq fun operand position => ?_)
    by_cases hminus : c = '-' ∧ operand = true
    · exact ⟨_, by rw [scan_of_sign hminus, scan_nil]; rfl⟩
    · exact ⟨_, by rw [scan_of_operator hblank hdigit hminus hop, scan_nil]; rfl⟩
  by_cases hparen : Token.isParenthesis c = true
  · have hc : Token.isNumeric c = false := by
      simp only [Token.isParenthesis, Bool.or_eq_true, decide_eq_true_eq] at hparen
      rcases hparen with rfl | rfl <;> decide
    refine .inr (hsingle hc fun operand position => ?_)
    exact ⟨_, by rw [scan_of_parenthesis hparen, scan_nil]; rfl⟩
  · exact .inl (foreign_of_not hblank hdigit hop hparen)

/-- Where a scan stops: at a character that starts no token, after a text that has tokens and no number
that goes on. -/
structure StopsAt (operand : Bool) (position : Nat) (first : List Char) (c : Char)
    (rest : List Char) : Prop where
  foreign : Foreign c
  apart : Apart first (c :: rest)
  scanned : ∃ ts, Token.scan operand position first = .ok ts

theorem StopsAt.append {operand : Bool} {position : Nat} {piece first rest : List Char} {c : Char}
    {us : List Token} (h : StopsAt (dueAfter operand us) (position + piece.length) first c rest)
    (hpiece : Token.scan operand position piece = .ok us)
    (hapart : Apart piece (first ++ c :: rest)) :
    StopsAt operand position (piece ++ first) c rest := by
  refine ⟨h.foreign, h.apart.append_left ?_, ?_⟩
  · rintro rfl
    exact hapart
  · obtain ⟨ts, hts⟩ := h.scanned
    rw [scan_append operand position piece hapart.of_prefix, hpiece]
    exact ⟨us ++ ts, congrArg ((us ++ ·) <$> ·) hts⟩

/-- **Where a scan stops**: it goes on piece after piece until one starts no token. -/
theorem stopsAt_of_scan {operand : Bool} {position : Nat} {s : List Char} {f : ExpressionFault}
    (h : Token.scan operand position s = .error f) :
    ∃ first c rest, s = first ++ c :: rest ∧ StopsAt operand position first c rest ∧
      f = .invalidCharacter c (position + first.length) := by
  generalize hn : s.length = n
  induction n using Nat.strong_induction_on generalizing operand position s with
  | _ n ih =>
    cases s with
    | nil =>
      rw [scan_nil] at h
      cases h
    | cons c rest =>
      rcases foreign_or_piece c rest with hc | ⟨piece, rest', hsplit, hne, hapart, hscan⟩
      · rw [scan_of_foreign hc] at h
        refine ⟨[], c, rest, rfl, ⟨hc, apart_nil_left _, [], scan_nil _ _⟩, ?_⟩
        exact (Except.error.inj h).symm
      · obtain ⟨us, hus⟩ := hscan operand position
        have hlength : rest'.length < n := by
          have hpos := List.length_pos_of_ne_nil hne
          rw [← hn, hsplit, List.length_append]
          omega
        rw [hsplit, scan_append operand position piece hapart, hus] at h
        obtain ⟨first, d, rest'', rfl, hstops, rfl⟩ := ih _ hlength (eq_error_of_map h) rfl
        refine ⟨piece ++ first, d, rest'', ?_, hstops.append hus hapart, ?_⟩
        · rw [hsplit, List.append_assoc]
        · rw [List.length_append, Nat.add_assoc]

/-! ## The first character that may not stand where it does -/

section

variable {s first rest : List Char} {i j : Nat} {c d : Char}

/-- A character that starts no token may not stand after a text that does not end in a run with it. -/
theorem Foreign.not_admits (hc : Foreign c) (hapart : Apart first (c :: rest)) :
    ¬Admits (first ++ c :: rest) first.length c := by
  intro h
  cases h with
  | blank h => simp [hc.not_blank] at h
  | digit h => simp [hc.not_digit] at h
  | symbol h =>
    rcases mem_symbols_iff.1 h with h | h
    · simp [hc.not_operator] at h
    · simp [hc.not_parenthesis] at h
  | @point before run after hs h =>
    -- the run begins with a digit, so it begins before the point, and the text before ends in it
    have hat (j : Nat) (hj : before.length ≤ j) (hlt : j < before.length + run.length) :
        (first ++ '.' :: rest)[j]? = run[j - before.length]? := by
      rw [hs, List.getElem?_append_right hj, List.getElem?_append_left (by omega)]
    have hbefore : before.length ≠ first.length := by
      intro hlength
      have hpoint := hat first.length h.le h.lt
      obtain ⟨e, more, rfl, he, -⟩ := h.isRun
      rw [List.getElem?_append_right le_rfl, Nat.sub_self, hlength, Nat.sub_self] at hpoint
      obtain rfl : '.' = e := by simpa using hpoint
      exact absurd he (by decide)
    have hle := h.le
    have hlt := h.lt
    obtain ⟨b, hb⟩ : ∃ b, first[first.length - 1]? = some b :=
      ⟨_, List.getElem?_eq_getElem (by omega)⟩
    have hrun := hat (first.length - 1) (by omega) (by omega)
    rw [List.getElem?_append_left (by omega), hb] at hrun
    have hnumeric := h.isRun.isNumeric b (List.mem_of_getElem? hrun.symm)
    have hnone := hapart b (by rw [Option.mem_def, List.getLast?_eq_getElem?, hb]) hnumeric '.' rfl
    exact absurd hnone (by decide)

theorem StopsAt.firstForeign (h : StopsAt true 0 first c rest) :
    FirstForeign (first ++ c :: rest) first.length c where
  at_place := by rw [List.getElem?_append_right le_rfl, Nat.sub_self, List.getElem?_cons_zero]
  not_admitted := h.foreign.not_admits h.apart
  admitted_before j d hj hd := by
    obtain ⟨ts, hts⟩ := h.scanned
    rw [List.getElem?_append_left hj] at hd
    exact (admits_of_ofText hts hd).append h.apart

/-- What comes after the character makes no difference. -/
theorem StopsAt.ofText_eq (h : StopsAt true 0 first c rest) (rest' : List Char) :
    Token.ofText (first ++ c :: rest') = .error (.invalidCharacter c first.length) := by
  obtain ⟨ts, hts⟩ := h.scanned
  rw [Token.ofText, scan_append true 0 first h.apart.of_head_eq, hts, Nat.zero_add]
  exact congrArg ((ts ++ ·) <$> ·) (scan_of_foreign h.foreign)

theorem FirstForeign.unique (h : FirstForeign s i c) (h' : FirstForeign s j d) : i = j ∧ c = d := by
  obtain hlt | rfl | hlt := Nat.lt_trichotomy i j
  · exact absurd (h'.admitted_before i c hlt h.at_place) h.not_admitted
  · exact ⟨rfl, Option.some.inj (h.at_place.symm.trans h'.at_place)⟩
  · exact absurd (h.admitted_before j d hlt h'.at_place) h'.not_admitted

theorem exists_stopsAt_of_firstForeign (h : FirstForeign s i c) :
    ∃ first rest, s = first ++ c :: rest ∧ first.length = i ∧ StopsAt true 0 first c rest := by
  cases hscan : Token.ofText s with
  | ok ts => exact absurd (admits_of_ofText hscan h.at_place) h.not_admitted
  | error f =>
    obtain ⟨first, d, rest, rfl, hstops, -⟩ := stopsAt_of_scan hscan
    obtain ⟨rfl, rfl⟩ := hstops.firstForeign.unique h
    exact ⟨first, rest, rfl, rfl, hstops⟩

theorem ofText_take_of_firstForeign (h : FirstForeign s i c) (rest : List Char) :
    Token.ofText (s.take (i + 1) ++ rest) = .error (.invalidCharacter c i) := by
  obtain ⟨first, rest', rfl, rfl, hstops⟩ := exists_stopsAt_of_firstForeign h
  have htake : (first ++ c :: rest').take (first.length + 1) = first ++ [c] := by
    rw [List.take_length_add_append, List.take_one, List.head?_cons, Option.toList_some]
  rw [htake, List.append_assoc]
  exact hstops.ofText_eq rest

theorem ofText_eq_error_iff {f : ExpressionFault} :
    Token.ofText s = .error f ↔ ∃ i c, FirstForeign s i c ∧ f = .invalidCharacter c i := by
  constructor
  · intro h
    obtain ⟨first, c, rest, rfl, hstops, rfl⟩ := stopsAt_of_scan h
    exact ⟨first.length, c, hstops.firstForeign, by rw [Nat.zero_add]⟩
  · rintro ⟨i, c, h, rfl⟩
    have htake := ofText_take_of_firstForeign h (s.drop (i + 1))
    rwa [List.take_append_drop] at htake

theorem exists_ofText_iff :
    (∃ ts, Token.ofText s = .ok ts) ↔ ∀ i c, s[i]? = some c → Admits s i c := by
  constructor
  · rintro ⟨ts, hts⟩ i c hc
    exact admits_of_ofText hts hc
  · intro h
    cases hscan : Token.ofText s with
    | ok ts => exact ⟨ts, rfl⟩
    | error f =>
      obtain ⟨i, c, hforeign, -⟩ := ofText_eq_error_iff.1 hscan
      exact absurd (h i c hforeign.at_place) hforeign.not_admitted

end

/-! ## Main result -/

/-- **The lexical language.** A text has tokens exactly if each of its characters may stand where it
does. Every other text is refused for the leftmost character that may not, told with its position,
and so is every text that starts the same up to that character. There is no third outcome. -/
theorem tokens_of_lexical_language (s : List Char) :
    ((∃ ts, Token.ofText s = .ok ts) ↔ ∀ i c, s[i]? = some c → Admits s i c) ∧
      (∀ f, Token.ofText s = .error f ↔ ∃ i c, FirstForeign s i c ∧ f = .invalidCharacter c i) ∧
      (∀ i c, FirstForeign s i c → ∀ rest,
        Token.ofText (s.take (i + 1) ++ rest) = .error (.invalidCharacter c i)) ∧
      ((∃ ts, Token.ofText s = .ok ts) ∨
        ∃ i c, FirstForeign s i c ∧ Token.ofText s = .error (.invalidCharacter c i)) := by
  refine ⟨exists_ofText_iff, fun f => ofText_eq_error_iff, fun i c => ofText_take_of_firstForeign, ?_⟩
  cases hscan : Token.ofText s with
  | ok ts => exact .inl ⟨ts, rfl⟩
  | error f =>
    obtain ⟨i, c, hforeign, rfl⟩ := ofText_eq_error_iff.1 hscan
    exact .inr ⟨i, c, hforeign, rfl⟩

set_option maxRecDepth 10000 in
/-- A blank ends the run of digits and points, so a point after it stands in none. -/
theorem tokens_of_lexical_language_pointAfterBlank :
    FirstForeign "1.2 .5+x".toList 4 '.' ∧
      ∀ rest, Token.ofText ("1.2 .".toList ++ rest) = .error (.invalidCharacter '.' 4) := by
  have h : Token.ofText "1.2 .5+x".toList = .error (.invalidCharacter '.' 4) := by decide +kernel
  obtain ⟨-, hfault, hrest, -⟩ := tokens_of_lexical_language "1.2 .5+x".toList
  obtain ⟨i, c, hforeign, heq⟩ := (hfault _).1 h
  obtain ⟨rfl, rfl⟩ := ExpressionFault.invalidCharacter.inj heq
  exact ⟨hforeign, hrest 4 '.' hforeign⟩

end Longhand.Expression
