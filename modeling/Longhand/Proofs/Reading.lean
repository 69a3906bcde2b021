import Longhand.Decimal.Text
import Longhand.Number.Basic
import Longhand.Proofs.Rational
import Longhand.Step.Basic
import Mathlib.Data.Fintype.Basic
import Mathlib.Data.List.Forall2
import Mathlib.Data.List.TakeWhile
/-!
# Reading what is written

A row of a page is read as a number by leaving its blanks out (`Row.number?`). A numeral is read
back as the decimal it was written for, with or without a sign in front and whatever blanks bring
its row to the width of the page.
-/

namespace Longhand

/-! ## Runs -/

section Runs

variable {α : Type} {p : α → Bool} {run rest : List α} (hrun : ∀ a ∈ run, p a = true)
  (hrest : ∀ a ∈ rest.head?, p a = false)

include hrun hrest

/-- A run of elements that pass a test ends at the first one that fails it. -/
theorem takeWhile_append_of_head : (run ++ rest).takeWhile p = run := by
  rw [List.takeWhile_append_of_pos hrun]
  cases rest with
  | nil => simp
  | cons a rest => simp [hrest a rfl]

theorem dropWhile_append_of_head : (run ++ rest).dropWhile p = rest := by
  rw [List.dropWhile_append_of_pos hrun]
  cases rest with
  | nil => simp
  | cons a rest => simp [hrest a rfl]

end Runs

/-! ## Digits -/

namespace Digit

theorem decimalDigit?_char : ∀ d : Digit, Text.decimalDigit? d.char = some d.val := by
  decide

/-- A digit is written with none of the characters that have a meaning of their own. -/
theorem char_ne (d : Digit) {c : Char} (h : Text.isDecimalDigit c = false) : d.char ≠ c := by
  rintro rfl
  simp [Text.isDecimalDigit, decimalDigit?_char] at h

theorem isDecimalDigit_char (d : Digit) : Text.isDecimalDigit d.char = true := by
  simp [Text.isDecimalDigit, decimalDigit?_char]

theorem isWhiteSpace_char : ∀ d : Digit, Text.isWhiteSpace d.char = false := by
  decide

theorem toLower_char : ∀ d : Digit, d.char.toLower = d.char := by
  decide

theorem char_eq_zero_iff : ∀ d : Digit, d.char = '0' ↔ d = 0 := by
  decide

/-- A digit is no sign. -/
theorem splitSign_cons (d : Digit) (rest : List Char) :
    Text.splitSign (d.char :: rest) = (false, d.char :: rest) := by
  have hm : d.char ≠ '-' := d.char_ne (by decide)
  have hp : d.char ≠ '+' := d.char_ne (by decide)
  unfold Text.splitSign
  split
  · rename_i heq; exact absurd (List.cons.inj heq).1 hm
  · rename_i heq; exact absurd (List.cons.inj heq).1 hp
  · rfl

end Digit

namespace Digits

theorem text_cons (d : Digit) (ds : List Digit) : text (d :: ds) = d.char :: text ds :=
  rfl

theorem text_append (as bs : List Digit) : text (as ++ bs) = text as ++ text bs :=
  List.map_append

theorem length_text (ds : List Digit) : (text ds).length = ds.length :=
  List.length_map _

theorem text_ne_nil {ds : List Digit} (h : ds ≠ []) : text ds ≠ [] := by
  simpa [text] using h

theorem exists_of_mem_text {ds : List Digit} {c : Char} (h : c ∈ text ds) :
    ∃ d : Digit, c = d.char := by
  obtain ⟨d, -, rfl⟩ := List.mem_map.1 h
  exact ⟨d, rfl⟩

theorem isDecimalDigit_of_mem_text {ds : List Digit} {c : Char} (h : c ∈ text ds) :
    Text.isDecimalDigit c = true := by
  obtain ⟨d, rfl⟩ := exists_of_mem_text h
  exact d.isDecimalDigit_char

theorem not_mem_text {c : Char} (h : Text.isDecimalDigit c = false) (ds : List Digit) :
    c ∉ text ds := by
  intro hc
  simp [isDecimalDigit_of_mem_text hc] at h

theorem digitsValue_text (ds : List Digit) : Text.digitsValue (text ds) = value ds := by
  simp only [Text.digitsValue, text, value, List.foldl_map, Digit.decimalDigit?_char,
    Option.getD_some]

/-- A run of digits ends where the digits end. -/
theorem takeWhile_text (ds : List Digit) {rest : List Char}
    (h : ∀ c ∈ rest.head?, Text.isDecimalDigit c = false) :
    (text ds ++ rest).takeWhile Text.isDecimalDigit = text ds :=
  takeWhile_append_of_head (fun _ hc => isDecimalDigit_of_mem_text hc) h

theorem dropWhile_text (ds : List Digit) {rest : List Char}
    (h : ∀ c ∈ rest.head?, Text.isDecimalDigit c = false) :
    (text ds ++ rest).dropWhile Text.isDecimalDigit = rest :=
  dropWhile_append_of_head (fun _ hc => isDecimalDigit_of_mem_text hc) h

end Digits

/-! ## Numerals -/

namespace Numeral

theorem text_cons (d : Digit) (whole fraction : List Digit) :
    text ⟨d :: whole, fraction⟩ = d.char :: text ⟨whole, fraction⟩ :=
  rfl

/-- The digits before the point, and what is written after them. -/
theorem text_mk (whole fraction : List Digit) :
    text ⟨whole, fraction⟩ = Digits.text whole ++ text ⟨[], fraction⟩ :=
  rfl

/-- The characters of a numeral. -/
theorem mem_text {n : Numeral} {c : Char} (h : c ∈ n.text) :
    c = '.' ∨ ∃ d : Digit, c = d.char := by
  rw [text, List.mem_append] at h
  rcases h with h | h
  · exact .inr (Digits.exists_of_mem_text h)
  · split at h
    · simp at h
    · rcases List.mem_cons.1 h with rfl | h
      · exact .inl rfl
      · exact .inr (Digits.exists_of_mem_text h)

theorem not_mem_text {c : Char} (hp : c ≠ '.') (hd : Text.isDecimalDigit c = false)
    (n : Numeral) : c ∉ n.text := by
  intro hc
  rcases mem_text hc with rfl | ⟨d, rfl⟩
  · exact hp rfl
  · simp [d.isDecimalDigit_char] at hd

/-- A numeral starts with a digit. -/
theorem exists_text_eq_cons {n : Numeral} (h : n.integer ≠ []) :
    ∃ (d : Digit) (rest : List Char), n.text = d.char :: rest := by
  obtain ⟨d, ds, hd⟩ := List.exists_cons_of_ne_nil h
  exact ⟨d, _, by rw [text, hd]; rfl⟩

/-- A numeral without a sign is read up to what follows it, which is the exponent. -/
theorem readUnsigned?_text_append {n : Numeral} (h : n.integer ≠ []) (negative : Bool)
    {tail : List Char} (htail : ∀ c ∈ tail.head?, Text.isDecimalDigit c = false ∧ c ≠ '.') :
    Decimal.readUnsigned? negative (n.text ++ tail) = (Text.readExponent? tail).map fun e =>
      ⟨negative, Digits.value n.scaled, e - n.fraction.length⟩ := by
  obtain ⟨whole, fraction⟩ := n
  have hw : Digits.text whole ≠ [] := Digits.text_ne_nil h
  have hpoint : Text.isDecimalDigit '.' = false := by decide
  have hdigit : ∀ c ∈ tail.head?, Text.isDecimalDigit c = false := fun c hc => (htail c hc).1
  by_cases hf : fraction = []
  · have hmark : tail.head? ≠ some '.' := fun hc => (htail '.' hc).2 rfl
    simp [Decimal.readUnsigned?, text, hf, Digits.takeWhile_text whole hdigit,
      Digits.dropWhile_text whole hdigit, hw, hmark, scaled, Digits.digitsValue_text]
  · have hh : ∀ c ∈ ('.' :: (Digits.text fraction ++ tail)).head?,
        Text.isDecimalDigit c = false := by
      simp [hpoint]
    simp [Decimal.readUnsigned?, text, hf, Digits.takeWhile_text whole hh,
      Digits.dropWhile_text whole hh, Digits.takeWhile_text fraction hdigit, hw, scaled,
      ← Digits.text_append, Digits.digitsValue_text, Digits.length_text]

/-- A numeral without a sign is read as the decimal that it denotes. -/
theorem readUnsigned?_text {n : Numeral} (h : n.integer ≠ []) (negative : Bool) :
    Decimal.readUnsigned? negative n.text = some { n.toDecimal with negative } := by
  have hread : Decimal.readUnsigned? negative (n.text ++ []) = _ :=
    readUnsigned?_text_append h negative (by simp)
  rw [List.append_nil] at hread
  simpa [Text.readExponent?, toDecimal] using hread

theorem splitSign_text {n : Numeral} (h : n.integer ≠ []) :
    Text.splitSign n.text = (false, n.text) := by
  obtain ⟨d, rest, hd⟩ := exists_text_eq_cons h
  rw [hd, d.splitSign_cons]

theorem read?_text {n : Numeral} (h : n.integer ≠ []) : Decimal.read? n.text = some n.toDecimal := by
  rw [Decimal.read?, splitSign_text h]
  exact readUnsigned?_text h false

theorem read?_plus_text {n : Numeral} (h : n.integer ≠ []) :
    Decimal.read? ('+' :: n.text) = some n.toDecimal :=
  readUnsigned?_text h false

theorem read?_minus_text {n : Numeral} (h : n.integer ≠ []) :
    Decimal.read? ('-' :: n.text) = some { n.toDecimal with negative := true } :=
  readUnsigned?_text h true

end Numeral

/-! ## Rows -/

namespace Row

def compact (r : Row) : Row :=
  r.filter (· ≠ ' ')

/-- The number that a row shows, its blanks left out. -/
def number? (r : Row) : Option Decimal :=
  Decimal.read? r.compact

theorem compact_append (r s : Row) : compact (r ++ s) = r.compact ++ s.compact :=
  List.filter_append ..

theorem compact_blanks (n : Nat) : compact (List.replicate n ' ') = [] := by
  simp [compact]

theorem compact_blank_cons (r : Row) : compact (' ' :: r) = r.compact :=
  rfl

theorem compact_of_not_mem {r : Row} (h : ' ' ∉ r) : r.compact = r :=
  List.filter_eq_self.2 fun c hc => by
    rw [decide_eq_true_eq]
    rintro rfl
    exact h hc

theorem compact_cons {c : Char} (h : c ≠ ' ') (r : Row) : compact (c :: r) = c :: r.compact := by
  simp [compact, h]

theorem compact_text (ds : List Digit) : compact (Digits.text ds) = Digits.text ds :=
  compact_of_not_mem (Digits.not_mem_text (by decide) ds)

theorem compact_padEnd (width : Nat) (r : Row) : (r.padEnd width).compact = r.compact := by
  rw [padEnd, compact_append, compact_blanks, List.append_nil]

theorem compact_padStart (width : Nat) (r : Row) : (r.padStart width).compact = r.compact := by
  rw [padStart, compact_append, compact_blanks, List.nil_append]

/-- Blanks at either end do not change the number shown. -/
theorem number?_padEnd (width : Nat) (r : Row) : (r.padEnd width).number? = r.number? := by
  rw [number?, compact_padEnd, number?]

theorem number?_padStart (width : Nat) (r : Row) : (r.padStart width).number? = r.number? := by
  rw [number?, compact_padStart, number?]

theorem compact_numeral (n : Numeral) : compact n.text = n.text :=
  compact_of_not_mem (n.not_mem_text (by decide) (by decide))

/-- A row that holds a numeral shows the decimal that the numeral denotes. -/
theorem number?_numeral {n : Numeral} (h : n.integer ≠ []) : number? n.text = some n.toDecimal := by
  rw [number?, compact_numeral, Numeral.read?_text h]

/-- The digits of a whole number, with or without a minus, show it. -/
theorem number?_ofNat (n : Nat) : number? (Digits.text (Digits.ofNat n)) = some ⟨false, n, 0⟩ := by
  have h := number?_numeral (n := ⟨Digits.ofNat n, []⟩) (Digits.ofNat_ne_nil n)
  simpa [Numeral.text, Numeral.toDecimal, Numeral.scaled, Digits.value_ofNat] using h

theorem number?_minus_ofNat (n : Nat) :
    number? ('-' :: Digits.text (Digits.ofNat n)) = some ⟨true, n, 0⟩ := by
  have h := Numeral.read?_minus_text (n := ⟨Digits.ofNat n, []⟩) (Digits.ofNat_ne_nil n)
  rw [number?, compact_cons (by decide), compact_text]
  simpa [Numeral.text, Numeral.toDecimal, Numeral.scaled, Digits.value_ofNat] using h

/-- A line across the page shows no number. -/
theorem number?_line (width : Nat) : number? (List.replicate width '-') = none := by
  have hcompact : compact (List.replicate width '-') = List.replicate width '-' :=
    compact_of_not_mem (by simp [List.mem_replicate])
  rw [number?, hcompact]
  rcases width with - | - | width <;> rfl

end Row

/-! ## Words -/

namespace Text

/-- Nothing is trimmed of a text without the characters to be trimmed. -/
theorem trimWhile_eq_self {p : Char → Bool} {s : List Char} (h : ∀ c ∈ s, p c = false) :
    trimWhile p s = s := by
  have hdrop : ∀ t : List Char, (∀ c ∈ t, p c = false) → t.dropWhile p = t := by
    intro t ht
    cases t with
    | nil => rfl
    | cons c t => simp [ht c (by simp)]
  have hrev : ∀ c ∈ s.reverse, p c = false := fun c hc => h c (List.mem_reverse.1 hc)
  rw [trimWhile, hdrop s h, trimEndWhile, hdrop _ hrev, List.reverse_reverse]

def words (s : String) : List (List Char) :=
  s.toList.splitOn ' '

def wordAfter? (word : List Char) : List (List Char) → Option (List Char)
  | w :: next :: rest => if w = word then some next else wordAfter? word (next :: rest)
  | _ => none

theorem splitOn_word {w : List Char} (h : ' ' ∉ w) (rest : List Char) :
    (w ++ ' ' :: rest).splitOn ' ' = w :: rest.splitOn ' ' :=
  List.splitOnP_append_cons_of_forall_mem (fun c hc => by
    rw [beq_eq_false_iff_ne]
    rintro rfl
    exact h hc) ' ' (by simp) rest

theorem splitOn_lastWord {w : List Char} (h : ' ' ∉ w) : w.splitOn ' ' = [w] :=
  List.splitOnP_eq_singleton fun c hc => by
    rw [beq_eq_false_iff_ne]
    rintro rfl
    exact h hc

/-- The last word of a text that ends in a word. -/
theorem getLast?_words {s : String} (before : List Char) {w : List Char} (hw : ' ' ∉ w)
    (h : s.toList = before ++ ' ' :: w) : (words s).getLast? = some w := by
  have hwords : words s = before.splitOn ' ' ++ [w] := by
    rw [words, h, ← splitOn_lastWord hw]
    exact List.splitOnP_append_cons _ _ (by simp)
  rw [hwords, List.getLast?_concat]

theorem wordAfter?_eq_none {word : List Char} {ws : List (List Char)} (h : word ∉ ws) :
    wordAfter? word ws = none := by
  induction ws with
  | nil => rfl
  | cons w ws ih =>
    cases ws with
    | nil => rfl
    | cons next rest =>
      have hw : w ≠ word := by
        rintro rfl
        simp at h
      rw [wordAfter?, if_neg hw, ih (fun hm => h (List.mem_cons_of_mem _ hm))]

/-- The first occurrence of a word counts. -/
theorem wordAfter?_append {word next : List Char} {ws rest : List (List Char)} (h : word ∉ ws) :
    wordAfter? word (ws ++ word :: next :: rest) = some next := by
  induction ws with
  | nil => simp [wordAfter?]
  | cons w ws ih =>
    have hw : w ≠ word := by
      rintro rfl
      simp at h
    have := ih fun hm => h (List.mem_cons_of_mem _ hm)
    cases ws with
    | nil => simp [wordAfter?, hw]
    | cons w' ws => simpa [wordAfter?, hw] using this

end Text

namespace Decimal

/-- A decimal in plain notation is a numeral, with a minus before a number below zero. -/
theorem plain_of_nonneg {d : Decimal} (h : 0 ≤ d.toRat) : d.plain = d.numeral.text := by
  have hn : d.isNegative = false := by
    rw [Bool.eq_false_iff, ne_eq, isNegative_iff]
    exact not_lt.2 h
  simp [plain, hn]

theorem read?_plain {d : Decimal} (h : 0 ≤ d.toRat) : read? d.plain = some d.numeral.toDecimal := by
  rw [plain_of_nonneg h, Numeral.read?_text d.numeral_integer_ne_nil]

theorem not_mem_plain {c : Char} (hm : c ≠ '-') (hp : c ≠ '.')
    (hd : Text.isDecimalDigit c = false) (d : Decimal) : c ∉ d.plain := by
  have hn := d.numeral.not_mem_text hp hd
  unfold plain
  split <;> simp [hm, hn]

end Decimal

theorem Double.underscoresJoinDigits_of_not_mem (previous : Bool) {s : List Char} (h : '_' ∉ s) :
    underscoresJoinDigits previous s = true := by
  fun_induction underscoresJoinDigits previous s <;> simp_all

/-- A text that starts with a digit, after its sign, is read as a double if it is read as a
decimal. -/
theorem Double.read?_of_digit {s rest : List Char} {d : Digit}
    (hdigit : (Text.splitSign s).2 = d.char :: rest)
    (hwhite : ∀ c ∈ s, Text.isWhiteSpace c = false) (hline : '_' ∉ s) :
    Double.read? s = (Decimal.read? s).map Double.ofDecimal := by
  have htrim : Text.trimWhile Text.isWhiteSpace s = s := Text.trimWhile_eq_self hwhite
  have hjoin := Double.underscoresJoinDigits_of_not_mem false hline
  have hfilter : s.filter (· ≠ '_') = s := by
    rw [List.filter_eq_self]
    intro c hc
    rw [decide_eq_true_eq]
    rintro rfl
    exact hline hc
  -- no digit starts one of the words for the values that are no numbers
  have hword : ∀ c : Char, Text.isDecimalDigit c = false → ∀ w : List Char,
      Text.lower (Text.splitSign s).2 ≠ c :: w := by
    intro c hc w h
    rw [hdigit, Text.lower, List.map_cons, d.toLower_char] at h
    exact d.char_ne hc (List.cons.inj h).1
  have hinf : Text.lower (Text.splitSign s).2 ≠ "inf".toList := hword 'i' (by decide) _
  have hinfinity : Text.lower (Text.splitSign s).2 ≠ "infinity".toList := hword 'i' (by decide) _
  have hnan : Text.lower (Text.splitSign s).2 ≠ "nan".toList := hword 'n' (by decide) _
  unfold Double.read?
  simp only [htrim, hinf, hinfinity, hnan, hjoin, hfilter, decide_false, Bool.or_self, if_false,
    if_true, Bool.false_eq_true]

/-- A value in plain notation is one word. -/
theorem DecimalValue.blank_not_mem_plain (v : DecimalValue) : ' ' ∉ v.plain := by
  cases v with
  | finite d => exact d.not_mem_plain (by decide) (by decide) (by decide)
  | infinity negative => cases negative <;> decide
  | nan negative signaling payload =>
    have hd := Digits.not_mem_text (c := ' ') (by decide) (Digits.ofNat payload)
    simp only [plain, text, List.mem_append, not_or]
    refine ⟨⟨?_, ?_⟩, ?_⟩
    · cases negative <;> decide
    · cases signaling <;> decide
    · split
      · simp
      · exact hd

/-! ## Steps -/

/-- The numbers that the rows of a page show. -/
def Layout.numbers (l : Layout) : List (Option Decimal) :=
  l.rows.map Row.number?

theorem Layout.numbers_squared (l : Layout) : l.squared.numbers = l.numbers := by
  simp [numbers, squared, Function.comp_def, Row.number?_padEnd]

theorem Row.maxWidth_le {rows : List Row} {width : Nat} (h : ∀ r ∈ rows, r.length ≤ width) :
    maxWidth rows ≤ width := by
  have hfold : ∀ start ≤ width, rows.foldl (fun w r => max w r.length) start ≤ width := by
    induction rows with
    | nil =>
      intro start hstart
      exact hstart
    | cons r rows ih =>
      intro start hstart
      have hrest : ∀ x ∈ rows, x.length ≤ width := by
        intro x hx
        exact h x (List.mem_cons_of_mem _ hx)
      exact ih hrest _ (max_le hstart (h r (by simp)))
  exact hfold 0 (Nat.zero_le _)

/-- A page whose rows have one width is shown as it is. -/
theorem Layout.rows_squared {l : Layout} {width : Nat} (h : ∀ r ∈ l.rows, r.length = width) :
    l.squared.rows = l.rows := by
  have hmax : Row.maxWidth l.rows ≤ width := Row.maxWidth_le fun r hr => (h r hr).le
  have hpad : ∀ r ∈ l.rows, Row.padEnd (Row.maxWidth l.rows) r = r := by
    intro r hr
    have hlen := h r hr
    simp [Row.padEnd, show Row.maxWidth l.rows - r.length = 0 by omega]
  exact (List.map_congr_left hpad).trans (List.map_id _)

/-- The step shows a draft: its words as they are, and its page brought to one width. -/
structure Step.Shows (s : Step) (d : Draft) : Prop where
  description : s.description = d.description
  layout : s.layout = d.layout.squared
  explanation : s.explanation = d.explanation

theorem Step.ofDrafts_shows (operation : Operation) (operands : Operands) (result : Number)
    (drafts : List Draft) : List.Forall₂ Step.Shows (ofDrafts operation operands result drafts) drafts := by
  rw [List.forall₂_iff_get]
  refine ⟨by simp [ofDrafts], fun i hi hd => ?_⟩
  simp only [ofDrafts, List.get_eq_getElem, List.getElem_mapIdx]
  exact ⟨rfl, rfl, rfl⟩

theorem Step.exists_singleton {steps : List Step} {d : Draft}
    (h : List.Forall₂ Step.Shows steps [d]) : ∃ s : Step, s.Shows d ∧ steps = [s] := by
  cases h with
  | cons hs hrest =>
    cases hrest
    exact ⟨_, hs, rfl⟩

/-- Each draft has its step. -/
theorem Step.exists_getElem {steps : List Step} {drafts : List Draft}
    (h : List.Forall₂ Step.Shows steps drafts) {i : Nat} {d : Draft} (hd : drafts[i]? = some d) :
    ∃ s, steps[i]? = some s ∧ s.Shows d := by
  induction h generalizing i with
  | nil => simp at hd
  | cons hs hrest ih =>
    cases i with
    | zero =>
      obtain rfl := Option.some.inj hd
      exact ⟨_, rfl, hs⟩
    | succ i => exact ih hd

/-- Each step shows a draft. -/
theorem Step.exists_draft {steps : List Step} {drafts : List Draft}
    (h : List.Forall₂ Step.Shows steps drafts) {s : Step} (hs : s ∈ steps) :
    ∃ d ∈ drafts, s.Shows d := by
  induction h with
  | nil => simp at hs
  | cons hfirst hrest ih =>
    rcases List.mem_cons.1 hs with rfl | hs
    · exact ⟨_, List.mem_cons_self, hfirst⟩
    · obtain ⟨d, hd, hshows⟩ := ih hs
      exact ⟨d, List.mem_cons_of_mem _ hd, hshows⟩

/-- Steps that show two lists of drafts, one after the other, fall into two such parts. -/
theorem Step.exists_append {steps : List Step} {xs ys : List Draft}
    (h : List.Forall₂ Step.Shows steps (xs ++ ys)) :
    ∃ as bs, steps = as ++ bs ∧ List.Forall₂ Step.Shows as xs ∧ List.Forall₂ Step.Shows bs ys :=
  ⟨_, _, (List.take_append_drop xs.length steps).symm, List.forall₂_take_append _ _ _ h,
    List.forall₂_drop_append _ _ _ h⟩

end Longhand
