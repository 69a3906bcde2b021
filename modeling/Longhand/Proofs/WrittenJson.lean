import Longhand.Json.Write
import Longhand.Proofs.EncodedTexts
import Longhand.Proofs.WrittenDoubles
/-!
# Written JSON is read back

The text of a value is read back as the value (`read_write`), if its integers are not too long to
be read, its doubles are finite, no object has two members of one name (`Readable`) and there is room
for what is nested in it. The reader goes through the text symbol by symbol; wherever a value is due,
the text of one brings it to where something may follow that value, whatever arrays and objects are
open as long as the value still has room (`readsAs_write`).
-/

namespace Longhand.Json

/-- A value whose text is read back as the value. -/
inductive Readable : Json → Prop
  | null : Readable .null
  | bool (b : Bool) : Readable (.bool b)
  | int {n : Int} (h : (Digits.ofNat n.natAbs).length ≤ maxDigits) : Readable (.number (.int n))
  | float {x : Float} (h : x.isFinite = true) : Readable (.number (.float x))
  | text (s : String) : Readable (.text s)
  | array {items : List Json} (h : ∀ j ∈ items, Readable j) : Readable (.array items)
  | object {members : List (String × Json)} (names : (members.map (·.1)).Nodup)
      (h : ∀ m ∈ members, Readable m.2) : Readable (.object members)

/-- A text that a number before it ends at: nothing, or a character that may follow a value. -/
def Ends (rest : List Char) : Prop :=
  ∀ c ∈ rest.head?, c = ',' ∨ c = ']' ∨ c = '\x7d'

/-! ## Strings -/

def points (s : String) : List Nat :=
  s.toList.map Char.toNat

theorem shown_points (s : String) : shown (points s) = s := by
  have hchars : Text.charOf ∘ Char.toNat = id := funext Text.charOf_toNat
  rw [shown, points, List.map_map, hchars, List.map_id, String.ofList_toList]

theorem isPaired_points (s : String) : isPaired (points s) = true := by
  simp [isPaired, points, Text.isSurrogate_toNat]

theorem ofPoints_points (s : String) : ofPoints (points s) = .text s := by
  rw [ofPoints, if_pos (isPaired_points s), shown_points]

theorem simpleEscape?_of_escapeLetter? {c letter : Char} (h : escapeLetter? c = some letter) :
    simpleEscape? letter = some c ∧ letter ≠ 'u' := by
  unfold escapeLetter? at h
  split at h <;> cases h <;> decide

theorem hexDigit?_digitChar : ∀ d < 16, hexDigit? (Nat.digitChar d) = some d := by
  decide

/-- A control character is written by its number. -/
theorem hex4?_of_control {c : Char} (h : c.toNat < 0x20) :
    hex4? '0' '0' (Nat.digitChar (c.toNat / 16)) (Nat.digitChar (c.toNat % 16)) =
      some c.toNat := by
  have hhigh := hexDigit?_digitChar (c.toNat / 16) (by omega)
  have hlow := hexDigit?_digitChar (c.toNat % 16) (by omega)
  have hzero : hexDigit? '0' = some 0 := by decide
  simp only [hex4?, hhigh, hlow, hzero, Option.bind_eq_bind, Option.bind_some]
  congr 1
  omega

/-- One character of a string is read back. -/
theorem scanText_escape (start position : Nat) (before : List Nat) (c next : Char)
    (rest : List Char) :
    scanText [] start position before (escape c ++ next :: rest) =
      scanText [] start (position + (escape c).length) (c.toNat :: before) (next :: rest) := by
  unfold escape
  split
  · rename_i letter hletter
    obtain ⟨hsimple, hu⟩ := simpleEscape?_of_escapeLetter? hletter
    simp [scanText, hsimple, hu]
  · rename_i hletter
    split
    · rename_i hcontrol
      have hsurrogate : Text.isHighSurrogate c.toNat = false := by
        simp only [Text.isHighSurrogate, Bool.and_eq_false_iff, decide_eq_false_iff_not]
        omega
      simp [scanText, hex4?_of_control hcontrol, hsurrogate]
    · rename_i hplain
      have hquote : c ≠ '"' := by
        rintro rfl
        cases hletter
      have hslash : c ≠ '\\' := by
        rintro rfl
        cases hletter
      simp [scanText, hslash, hplain, pointAt]

theorem scanText_flatMap (start : Nat) (s rest : List Char) (position : Nat) (before : List Nat) :
    scanText [] start position before (s.flatMap escape ++ '"' :: rest) =
      .ok (before.reverse ++ s.map Char.toNat, position + (s.flatMap escape).length + 1) := by
  induction s generalizing position before with
  | nil => simp [scanText]
  | cons c s ih =>
    obtain ⟨next, more, hmore⟩ : ∃ next more, s.flatMap escape ++ '"' :: rest = next :: more :=
      List.exists_cons_of_ne_nil (by simp)
    rw [List.flatMap_cons, List.append_assoc, hmore, scanText_escape, ← hmore, ih]
    simp [Nat.add_assoc]

/-! ## Symbols -/

/-- A word that is one symbol is followed by the symbols of the rest. -/
theorem symbols_append {position : Nat} {word rest : List Char} {s : Symbol}
    (hword : ∃ c w, word = c :: w ∧ isSpace c = false)
    (hscan : scanSymbol? [] position (word ++ rest) = some (s, word.length))
    (hlast : s.isLast = false) :
    symbols [] position (word ++ rest) = (position, s) :: symbols [] (position + word.length) rest := by
  obtain ⟨c, w, rfl, hspace⟩ := hword
  rw [List.cons_append] at hscan ⊢
  rw [symbols, if_neg (by simp [hspace]), hscan]
  simp [hlast]

theorem symbols_punctuation {position : Nat} {c : Char} {rest : List Char} {s : Symbol}
    (h : punctuation? c = some s) :
    symbols [] position (c :: rest) = (position, s) :: symbols [] (position + 1) rest := by
  have hspace : isSpace c = false ∧ s.isLast = false := by
    unfold punctuation? at h
    split at h <;> cases h <;> decide
  have hscan : scanSymbol? [] position ([c] ++ rest) = some (s, [c].length) := by
    simp [scanSymbol?, h]
  exact symbols_append ⟨c, [], rfl, hspace.1⟩ hscan hspace.2

theorem symbols_quoted (position : Nat) (s : String) (rest : List Char) :
    symbols [] position (quoted s ++ rest) =
      (position, .text (points s)) :: symbols [] (position + (quoted s).length) rest := by
  have hlength : position + 1 + (s.toList.flatMap escape).length + 1 - position =
      (quoted s).length := by
    simp only [quoted, List.cons_append, List.length_cons, List.length_append, List.length_nil]
    omega
  have htext := scanText_flatMap position s.toList rest (position + 1) []
  have hscan : scanSymbol? [] position (quoted s ++ rest) = some (.text (points s), (quoted s).length) := by
    have happend : quoted s ++ rest = '"' :: (s.toList.flatMap escape ++ '"' :: rest) := by
      simp [quoted]
    rw [happend, scanSymbol?, htext, ← hlength]
    simp [punctuation?, points]
  exact symbols_append ⟨'"', _, rfl, by decide⟩ hscan rfl

/-! ## Numbers -/

/-- A digit of a numeral. -/
theorem isDigit_char : ∀ d : Digit, isDigit d.char = true := by
  decide

theorem takeWhile_isDigit (ds : List Digit) {rest : List Char}
    (h : ∀ c ∈ rest.head?, isDigit c = false) :
    (Digits.text ds ++ rest).takeWhile isDigit = Digits.text ds := by
  refine takeWhile_append_of_head (fun c hc => ?_) h
  obtain ⟨d, rfl⟩ := Digits.exists_of_mem_text hc
  exact isDigit_char d

/-- The digits of a number have no leading zero, so all of them are taken. -/
theorem takeInteger_ofNat (n : Nat) {rest : List Char} (h : ∀ c ∈ rest.head?, isDigit c = false) :
    takeInteger (Digits.text (Digits.ofNat n) ++ rest) = Digits.text (Digits.ofNat n) := by
  obtain ⟨d, ds, hds⟩ := List.exists_cons_of_ne_nil (Digits.ofNat_ne_nil n)
  have htake := takeWhile_isDigit (Digits.ofNat n) h
  rw [hds, Digits.text_cons] at htake ⊢
  by_cases hd : d = 0
  · obtain rfl : ds = [] := Digits.ofNat_eq_zero_cons (hd ▸ hds)
    rw [hd]
    rfl
  · have hzero : d.char ≠ '0' := fun hchar => hd (d.char_eq_zero_iff.1 hchar)
    rw [List.cons_append, takeInteger]
    · exact htake
    · exact fun _ hcons => hzero (List.cons.inj hcons).1

theorem takeFraction_text {ds : List Digit} (hds : ds ≠ []) {rest : List Char}
    (h : ∀ c ∈ rest.head?, isDigit c = false) :
    takeFraction ('.' :: (Digits.text ds ++ rest)) = '.' :: Digits.text ds := by
  obtain ⟨d, ds, rfl⟩ := List.exists_cons_of_ne_nil hds
  rw [Digits.text_cons, List.cons_append, takeFraction, if_pos (isDigit_char d),
    takeWhile_isDigit ds h]

theorem takeFraction_of_head {rest : List Char} (h : ∀ c ∈ rest.head?, c ≠ '.') :
    takeFraction rest = [] := by
  cases rest with
  | nil => rfl
  | cons c rest =>
    have hc : c ≠ '.' := h c rfl
    unfold takeFraction
    split
    · rename_i heq
      exact absurd (List.cons.inj heq).1 hc
    · rfl

theorem takeExponent_text (e : Int) {rest : List Char} (h : ∀ c ∈ rest.head?, isDigit c = false) :
    takeExponent (Double.exponentText e ++ rest) = Double.exponentText e := by
  have htake := takeWhile_isDigit (Digits.padStart 2 (Digits.ofNat e.natAbs)) h
  have hne : Digits.text (Digits.padStart 2 (Digits.ofNat e.natAbs)) ≠ [] := by
    apply Digits.text_ne_nil
    rw [← List.length_pos_iff, Digits.length_padStart]
    omega
  rw [Double.exponentText_eq]
  generalize Digits.text (Digits.padStart 2 (Digits.ofNat e.natAbs)) = ds at htake hne ⊢
  split <;> simp [takeExponent, htake, hne]

theorem takeExponent_of_head {rest : List Char} (h : ∀ c ∈ rest.head?, c ≠ 'e' ∧ c ≠ 'E') :
    takeExponent rest = [] := by
  cases rest with
  | nil => rfl
  | cons c rest =>
    obtain ⟨hlower, hupper⟩ := h c rfl
    rw [takeExponent, if_neg (by simp [hlower, hupper])]

/-- A minus is taken before a digit, and only if it is there. -/
theorem sign_of_head (negative : Bool) (n : Nat) (rest : List Char) :
    (if ((if negative then ['-'] else []) ++ (Digits.text (Digits.ofNat n) ++ rest)).head? =
      some '-' then ['-'] else []) = if negative then ['-'] else [] := by
  cases negative with
  | true => rfl
  | false =>
    obtain ⟨d, ds, hds⟩ := List.exists_cons_of_ne_nil (Digits.ofNat_ne_nil n)
    have hminus : d.char ≠ '-' := d.char_ne (by decide)
    simp [hds, Digits.text_cons, hminus]

/-- A number is taken with all its parts if each of them ends where the next begins. -/
theorem scanNumber?_append (negative : Bool) (n : Nat) (fraction exponent : List Char)
    {rest : List Char} (hdigits : ∀ c ∈ (fraction ++ (exponent ++ rest)).head?, isDigit c = false)
    (hfraction : takeFraction (fraction ++ (exponent ++ rest)) = fraction)
    (hexponent : takeExponent (exponent ++ rest) = exponent) :
    let sign := if negative then ['-'] else []
    let numeral := sign ++ Digits.text (Digits.ofNat n) ++ fraction ++ exponent
    scanNumber? (numeral ++ rest) = some
      (if fraction.isEmpty && exponent.isEmpty then
        if maxDigits < (Digits.ofNat n).length then .broken .numeralTooLong
        else .scalar (.number (.int (if negative then -n else n)))
      else .scalar (.number (.float ((Double.read? numeral).getD Double.nan))), numeral.length) := by
  intro sign numeral
  have hdigit : (Digits.text (Digits.ofNat n)).isEmpty = false :=
    List.isEmpty_eq_false_iff.2 (Digits.text_ne_nil (Digits.ofNat_ne_nil n))
  have hvalue : Text.digitsValue (Digits.text (Digits.ofNat n)) = n := by
    rw [Digits.digitsValue_text, Digits.value_ofNat]
  have hempty : sign.isEmpty = !negative := by cases negative <;> rfl
  have hsplit : numeral ++ rest =
      sign ++ (Digits.text (Digits.ofNat n) ++ (fraction ++ (exponent ++ rest))) := by
    simp only [numeral, List.append_assoc]
  unfold scanNumber?
  simp only [hsplit, sign_of_head negative n (fraction ++ (exponent ++ rest)), sign,
    List.drop_left, takeInteger_ofNat n hdigits, hdigit, hfraction, hexponent, hvalue,
    Bool.false_eq_true, if_false]
  split
  · cases negative <;> simp [numeral, sign, Digits.length_text]
  · rfl

/-- No symbol but a number starts with a digit, or with a minus before a digit. -/
theorem scanSymbol?_number (position : Nat) (negative : Bool) (n : Nat) (rest : List Char) :
    let s := (if negative then ['-'] else []) ++ (Digits.text (Digits.ofNat n) ++ rest)
    scanSymbol? [] position s = scanNumber? s := by
  obtain ⟨d, ds, hds⟩ := List.exists_cons_of_ne_nil (Digits.ofNat_ne_nil n)
  have hother : ∀ d : Digit, punctuation? d.char = none ∧ d.char ≠ '"' := by decide
  have hword : ∀ rest, scanWord? (d.char :: rest) = none ∧
      scanWord? ('-' :: d.char :: rest) = none := by
    intro rest
    fin_cases d <;> exact ⟨rfl, rfl⟩
  obtain ⟨hpunctuation, hquote⟩ := hother d
  rw [hds, Digits.text_cons]
  cases negative
  · simp [scanSymbol?, hpunctuation, hquote, hword]
  · simp [scanSymbol?, punctuation?, hword]

theorem symbols_of_scanNumber? {negative : Bool} {n : Nat} {more word rest : List Char} {s : Symbol}
    (position : Nat)
    (hword : word = (if negative then ['-'] else []) ++ (Digits.text (Digits.ofNat n) ++ more))
    (hscan : scanNumber? (word ++ rest) = some (s, word.length)) (hlast : s.isLast = false) :
    symbols [] position (word ++ rest) = (position, s) :: symbols [] (position + word.length) rest := by
  obtain ⟨d, ds, hds⟩ := List.exists_cons_of_ne_nil (Digits.ofNat_ne_nil n)
  have hspace : ∀ d : Digit, isSpace d.char = false := by decide
  refine symbols_append ?_ ?_ hlast
  · rw [hword, hds]
    cases negative
    · exact ⟨d.char, _, rfl, hspace d⟩
    · exact ⟨'-', _, rfl, by decide⟩
  · rw [← hscan, hword, List.append_assoc, List.append_assoc]
    exact scanSymbol?_number position negative n (more ++ rest)

/-- A text that does not go on with a character of a number. -/
theorem Ends.head? {rest : List Char} (h : Ends rest) :
    ∀ c ∈ rest.head?, isDigit c = false ∧ c ≠ '.' ∧ c ≠ 'e' ∧ c ≠ 'E' := by
  intro c hc
  rcases h c hc with rfl | rfl | rfl <;> decide

theorem symbols_int {n : Int} (hn : (Digits.ofNat n.natAbs).length ≤ maxDigits) {rest : List Char}
    (hrest : Ends rest) (position : Nat) :
    symbols [] position (intText n ++ rest) =
      (position, .scalar (.number (.int n))) :: symbols [] (position + (intText n).length) rest := by
  have hscan := scanNumber?_append (n < 0) n.natAbs [] [] (fun c hc => (hrest.head? c hc).1)
    (takeFraction_of_head fun c hc => (hrest.head? c hc).2.1)
    (takeExponent_of_head fun c hc => (hrest.head? c hc).2.2)
  have hsigned : (if n < 0 then -(n.natAbs : Int) else n.natAbs) = n := by omega
  simp only [List.append_nil, List.isEmpty_nil, Bool.and_self, if_true, decide_eq_true_eq,
    if_neg (not_lt.2 hn), hsigned] at hscan
  have hword : intText n = (if decide (n < 0) then ['-'] else []) ++
      (Digits.text (Digits.ofNat n.natAbs) ++ []) := by
    simp only [intText, decide_eq_true_eq, List.append_nil]
  exact symbols_of_scanNumber? position hword hscan rfl

theorem takeExponent_tail (w : Double.WrittenForm) {rest : List Char} (hrest : Ends rest) :
    takeExponent (w.tail ++ rest) = w.tail := by
  unfold Double.WrittenForm.tail
  split
  · exact takeExponent_text _ fun c hc => (hrest.head? c hc).1
  · exact takeExponent_of_head fun c hc => (hrest.head? c hc).2.2

theorem takeFraction_point (w : Double.WrittenForm) {rest : List Char} (hrest : Ends rest) :
    takeFraction (w.point ++ (w.tail ++ rest)) = w.point ∧
      ∀ c ∈ (w.point ++ (w.tail ++ rest)).head?, isDigit c = false := by
  have htail : ∀ c ∈ (w.tail ++ rest).head?, isDigit c = false ∧ c ≠ '.' := by
    intro c hc
    cases ht : w.tail with
    | nil =>
      rw [ht] at hc
      exact ⟨(hrest.head? c hc).1, (hrest.head? c hc).2.1⟩
    | cons e tail =>
      have he : e = 'e' := w.head?_tail (by rw [ht]; rfl)
      rw [ht, he] at hc
      obtain rfl : 'e' = c := Option.some.inj hc
      decide
  unfold Double.WrittenForm.point
  split
  · exact ⟨takeFraction_of_head fun c hc => (htail c hc).2, fun c hc => (htail c hc).1⟩
  · rename_i hne
    refine ⟨takeFraction_text (by simpa using hne) fun c hc => (htail c hc).1, fun c hc => ?_⟩
    obtain rfl : '.' = c := Option.some.inj hc
    decide

theorem symbols_float {x : Float} {d : Decimal} (hx : Double.exact x = .finite d)
    {rest : List Char} (hrest : Ends rest) (position : Nat) :
    symbols [] position (Double.decimalText d ++ rest) =
      (position, .scalar (.number (.float x))) ::
        symbols [] (position + (Double.decimalText d).length) rest := by
  have hread := Double.read?_decimalText hx
  obtain ⟨w, htext, -⟩ := Double.exists_writtenForm (Double.exponent_neg_of_exact hx)
  obtain ⟨hfraction, hdigits⟩ := takeFraction_point w hrest
  have hscan := scanNumber?_append w.negative w.whole w.point w.tail hdigits hfraction
    (takeExponent_tail w hrest)
  rw [htext] at hread ⊢
  have hsplit : w.text = (if w.negative then ['-'] else []) ++
      Digits.text (Digits.ofNat w.whole) ++ w.point ++ w.tail := w.text_eq
  simp only [← hsplit, w.marked_text, hread, Option.getD_some, Bool.false_eq_true, if_false]
    at hscan
  have hword : w.text = (if w.negative then ['-'] else []) ++
      (Digits.text (Digits.ofNat w.whole) ++ (w.point ++ w.tail)) := by
    rw [hsplit, List.append_assoc, List.append_assoc]
  exact symbols_of_scanNumber? position hword hscan rfl

/-- **The text of a number is one symbol.** -/
theorem symbols_numberText {x : Number} (hx : Readable (.number x)) {rest : List Char}
    (hrest : Ends rest) (position : Nat) :
    symbols [] position (numberText x ++ rest) =
      (position, .scalar (.number x)) :: symbols [] (position + (numberText x).length) rest := by
  cases hx with
  | int h => exact symbols_int h hrest position
  | float h =>
    obtain ⟨d, hd, -⟩ := Double.moderate_exact h
    simp only [numberText, hd]
    exact symbols_float hd hrest position

/-- The words for null and the truth values. -/
theorem symbols_word {word : List Char} {j : Json} (rest : List Char) (position : Nat)
    (h : (word, j) ∈ [("null".toList, .null), ("true".toList, .bool true),
      ("false".toList, .bool false)]) :
    symbols [] position (word ++ rest) =
      (position, .scalar j) :: symbols [] (position + word.length) rest := by
  simp only [List.mem_cons, Prod.mk.injEq, List.not_mem_nil, or_false] at h
  rcases h with ⟨rfl, rfl⟩ | ⟨rfl, rfl⟩ | ⟨rfl, rfl⟩
  · exact symbols_append ⟨'n', "ull".toList, rfl, rfl⟩ rfl rfl
  · exact symbols_append ⟨'t', "rue".toList, rfl, rfl⟩ rfl rfl
  · exact symbols_append ⟨'f', "alse".toList, rfl, rfl⟩ rfl rfl

/-! ## Values -/

/-- The items after the first, each with its comma. -/
theorem writeItems_cons (j : Json) (items : List Json) :
    writeItems (j :: items) = write j ++ items.flatMap fun j => ',' :: write j := by
  induction items generalizing j with
  | nil => simp [writeItems]
  | cons next items ih => simp [writeItems, ih]

theorem writeMembers_cons (m : String × Json) (members : List (String × Json)) :
    writeMembers (m :: members) = quoted m.1 ++ ':' :: write m.2 ++
      members.flatMap fun m => ',' :: (quoted m.1 ++ ':' :: write m.2) := by
  induction members generalizing m with
  | nil => simp [writeMembers]
  | cons next members ih => simp [writeMembers, ih]

/-- A text that is read as a value, whatever is open: where a value is due, the text is read up to what
may follow the value, if that has room. -/
def ReadsAs (room : Nat) (text : List Char) (j : Json) : Prop :=
  ∀ frames due position rest, frames.length ≤ room → due = .value ∨ due = .firstItem → Ends rest →
    build room frames due (symbols [] position (text ++ rest)) =
      if frames.length + j.depth ≤ room then
        build room frames (.after j) (symbols [] (position + text.length) rest)
      else .error .nestedTooDeep

/-- There is room for two values one after the other if there is room for either. -/
theorem ite_room_max {α : Type} (n a b room : Nat) (x y : α) :
    (if n + a ≤ room then if n + b ≤ room then x else y else y) =
      if n + max a b ≤ room then x else y := by
  have hmax : n + max a b ≤ room ↔ n + a ≤ room ∧ n + b ≤ room := by omega
  simp only [hmax, ite_and]

section

variable {room : Nat}

theorem readsAs_scalar {text : List Char} {j : Json} (hdepth : j.depth = 0)
    (h : ∀ position rest, Ends rest → symbols [] position (text ++ rest) =
      (position, .scalar j) :: symbols [] (position + text.length) rest) : ReadsAs room text j := by
  intro frames due position rest hroom hdue hrest
  rw [h position rest hrest, hdepth, Nat.add_zero, if_pos hroom]
  rcases hdue with rfl | rfl <;> cases frames <;> rfl

theorem readsAs_quoted (s : String) : ReadsAs room (quoted s) (.text s) := by
  intro frames due position rest hroom hdue hrest
  have hdepth : (text s).depth = 0 := rfl
  rw [symbols_quoted, hdepth, Nat.add_zero, if_pos hroom, ← ofPoints_points]
  rcases hdue with rfl | rfl <;> cases frames <;> rfl

/-- The items after one that has been read, up to the end of the array. -/
theorem build_items {items : List Json} (hitems : ∀ j ∈ items, ReadsAs room (write j) j)
    (frames : List Frame) (done : List Json) (j : Json) (position : Nat) (rest : List Char)
    (hroom : frames.length + 1 ≤ room) :
    build room (.array done :: frames) (.after j)
        (symbols [] position ((items.flatMap fun j => ',' :: write j) ++ ']' :: rest)) =
      if frames.length + 1 + itemsDepth items ≤ room then
        build room frames (.after (.array (done.reverse ++ j :: items)))
          (symbols [] (position + (items.flatMap fun j => ',' :: write j).length + 1) rest)
      else .error .nestedTooDeep := by
  induction items generalizing done j position with
  | nil =>
    rw [List.flatMap_nil, List.nil_append, symbols_punctuation (s := .closeArray) rfl, itemsDepth,
      if_pos hroom]
    simp [build]
  | cons next items ih =>
    have hnext : ReadsAs room (write next) next := hitems next List.mem_cons_self
    have hends : Ends ((items.flatMap fun j => ',' :: write j) ++ ']' :: rest) := by
      cases items <;> simp [Ends]
    have hrest := ih (fun j hj => hitems j (List.mem_cons_of_mem _ hj)) (j :: done) next
      (position + 1 + (write next).length)
    rw [List.flatMap_cons, List.cons_append, List.cons_append, List.append_assoc,
      symbols_punctuation (s := .comma) rfl, build,
      hnext (.array (j :: done) :: frames) _ _ _ hroom (.inl rfl) hends, hrest,
      List.length_cons, ite_room_max, itemsDepth]
    simp [Nat.add_assoc, Nat.add_comm, Nat.add_left_comm]

theorem readsAs_array {items : List Json} (hitems : ∀ j ∈ items, ReadsAs room (write j) j) :
    ReadsAs room (write (.array items)) (.array items) := by
  intro frames due position rest hroom hdue hrest
  have hopen : ∀ s, build room frames due ((position, .openArray) :: s) =
      if room ≤ frames.length then .error .nestedTooDeep
      else build room (.array [] :: frames) .firstItem s := by
    intro s
    rcases hdue with rfl | rfl <;> cases frames <;> rfl
  rw [write, List.append_assoc, List.cons_append, symbols_punctuation (s := .openArray) rfl, hopen,
    depth]
  by_cases hfull : room ≤ frames.length
  · rw [if_pos hfull, if_neg (by omega)]
  rw [if_neg hfull]
  have hroom : frames.length + 1 ≤ room := not_le.1 hfull
  cases items with
  | nil =>
    rw [writeItems, List.nil_append, List.singleton_append,
      symbols_punctuation (s := .closeArray) rfl, itemsDepth, if_pos (by omega)]
    rfl
  | cons j items =>
    have hj : ReadsAs room (write j) j := hitems j List.mem_cons_self
    have hends : Ends ((items.flatMap fun j => ',' :: write j) ++ ']' :: rest) := by
      cases items <;> simp [Ends]
    have hitems : ∀ j ∈ items, ReadsAs room (write j) j :=
      fun i hi => hitems i (List.mem_cons_of_mem j hi)
    rw [writeItems_cons, List.append_assoc, List.singleton_append,
      hj (.array [] :: frames) _ _ _ hroom (.inr rfl) hends,
      build_items hitems frames [] j _ _ hroom, List.length_cons, ite_room_max, itemsDepth,
      Nat.add_comm (max _ _) 1, ← Nat.add_assoc]
    simp [Nat.add_assoc, Nat.add_comm, Nat.add_left_comm]

/-- Members with the numbers of the characters of their names. -/
def pointed (members : List (String × Json)) : List (List Nat × Json) :=
  members.map fun m => (points m.1, m.2)

theorem objectOf_pointed (members : List (String × Json)) :
    objectOf (pointed members) = .object members.reverse := by
  have hmember : memberOf ∘ (fun m : String × Json => (points m.1, m.2)) = id := by
    funext m
    simp [memberOf, shown_points, isPaired_points]
  rw [objectOf, pointed, ← List.map_reverse, List.map_map, hmember, List.map_id]

theorem addMember_of_fresh {name : String} (j : Json) {members : List (String × Json)}
    (h : name ∉ members.map (·.1)) :
    addMember (points name) j (pointed members) = pointed ((name, j) :: members) := by
  have hkept : (pointed members).filter (·.1 ≠ points name) = pointed members := by
    rw [List.filter_eq_self]
    intro m hm
    obtain ⟨n, hn, rfl⟩ := List.mem_map.1 hm
    rw [decide_eq_true_eq]
    intro hname
    rw [← shown_points name, ← hname, shown_points] at h
    exact h (List.mem_map_of_mem hn)
  rw [addMember, hkept]
  rfl

theorem fresh_of_nodup {done members : List (String × Json)} {m : String × Json}
    (h : ((done.reverse ++ m :: members).map (·.1)).Nodup) : m.1 ∉ done.map (·.1) := by
  intro hmem
  simp only [List.map_append, List.map_cons, List.map_reverse] at h
  exact (List.nodup_append.1 h).2.2 _ (List.mem_reverse.2 hmem) _ List.mem_cons_self rfl

/-- The text of a member, where a name is due. -/
theorem build_member {m : String × Json} (hm : ReadsAs room (write m.2) m.2) (frames : List Frame)
    (done : List (String × Json)) (name : List Nat) {due : Due}
    (hdue : due = .name ∨ due = .firstName) (position : Nat) {rest : List Char} (hrest : Ends rest)
    (hroom : frames.length + 1 ≤ room) :
    build room (.object (pointed done) name :: frames) due
        (symbols [] position (quoted m.1 ++ ':' :: write m.2 ++ rest)) =
      if frames.length + 1 + m.2.depth ≤ room then
        build room (.object (pointed done) (points m.1) :: frames) (.after m.2)
          (symbols [] (position + (quoted m.1).length + 1 + (write m.2).length) rest)
      else .error .nestedTooDeep := by
  have hname : ∀ s,
      build room (.object (pointed done) name :: frames) due ((position, .text (points m.1)) :: s) =
        build room (.object (pointed done) name :: frames) (.colon (points m.1)) s := by
    intro s
    rcases hdue with rfl | rfl <;> rfl
  rw [List.append_assoc, List.cons_append, symbols_quoted, hname,
    symbols_punctuation (s := .colon) rfl, build,
    hm (.object (pointed done) (points m.1) :: frames) _ _ _ hroom (.inl rfl) hrest,
    List.length_cons]

/-- The members after one that has been read, up to the end of the object. -/
theorem build_members {members : List (String × Json)}
    (hmembers : ∀ m ∈ members, ReadsAs room (write m.2) m.2) (frames : List Frame)
    (done : List (String × Json)) (m : String × Json)
    (hnames : ((done.reverse ++ m :: members).map (·.1)).Nodup) (position : Nat)
    (rest : List Char) (hroom : frames.length + 1 ≤ room) :
    build room (.object (pointed done) (points m.1) :: frames) (.after m.2) (symbols [] position
        ((members.flatMap fun m => ',' :: (quoted m.1 ++ ':' :: write m.2)) ++ '\x7d' :: rest)) =
      if frames.length + 1 + membersDepth members ≤ room then
        build room frames (.after (.object (done.reverse ++ m :: members))) (symbols [] (position +
          (members.flatMap fun m => ',' :: (quoted m.1 ++ ':' :: write m.2)).length + 1) rest)
      else .error .nestedTooDeep := by
  have hadd := addMember_of_fresh m.2 (fresh_of_nodup hnames)
  induction members generalizing done m position with
  | nil =>
    rw [List.flatMap_nil, List.nil_append, symbols_punctuation (s := .closeObject) rfl, build,
      hadd, objectOf_pointed, membersDepth, Nat.add_zero, if_pos hroom]
    simp
  | cons next members ih =>
    have hnext : ReadsAs room (write next.2) next.2 := hmembers next List.mem_cons_self
    have hends : Ends ((members.flatMap fun m => ',' :: (quoted m.1 ++ ':' :: write m.2)) ++
        '\x7d' :: rest) := by
      cases members <;> simp [Ends]
    have hnames' : (((m :: done).reverse ++ next :: members).map (·.1)).Nodup := by
      simpa using hnames
    have hrest := ih (fun m hm => hmembers m (List.mem_cons_of_mem _ hm)) (m :: done) next hnames'
      (position + 1 + (quoted next.1).length + 1 + (write next.2).length)
      (addMember_of_fresh next.2 (fresh_of_nodup hnames'))
    have hmember := build_member hnext frames (m :: done) [] (.inl rfl) (position + 1) hends hroom
    rw [List.flatMap_cons, List.cons_append, List.cons_append, List.append_assoc,
      symbols_punctuation (s := .comma) rfl, build, hadd, hmember, hrest, ite_room_max, membersDepth]
    simp [Nat.add_assoc, Nat.add_comm, Nat.add_left_comm]

theorem readsAs_object {members : List (String × Json)} (hnames : (members.map (·.1)).Nodup)
    (hmembers : ∀ m ∈ members, ReadsAs room (write m.2) m.2) :
    ReadsAs room (write (.object members)) (.object members) := by
  intro frames due position rest hroom hdue hrest
  have hopen : ∀ s, build room frames due ((position, .openObject) :: s) =
      if room ≤ frames.length then .error .nestedTooDeep
      else build room (.object (pointed []) [] :: frames) .firstName s := by
    intro s
    rcases hdue with rfl | rfl <;> cases frames <;> rfl
  rw [write, List.append_assoc, List.cons_append, symbols_punctuation (s := .openObject) rfl, hopen,
    depth]
  by_cases hfull : room ≤ frames.length
  · rw [if_pos hfull, if_neg (by omega)]
  rw [if_neg hfull]
  have hroom : frames.length + 1 ≤ room := not_le.1 hfull
  cases members with
  | nil =>
    rw [writeMembers, List.nil_append, List.singleton_append,
      symbols_punctuation (s := .closeObject) rfl, membersDepth, if_pos (by omega)]
    rfl
  | cons m members =>
    have hm : ReadsAs room (write m.2) m.2 := hmembers m List.mem_cons_self
    have hends : Ends ((members.flatMap fun m => ',' :: (quoted m.1 ++ ':' :: write m.2)) ++
        '\x7d' :: rest) := by
      cases members <;> simp [Ends]
    have hmembers : ∀ m ∈ members, ReadsAs room (write m.2) m.2 :=
      fun n hn => hmembers n (List.mem_cons_of_mem m hn)
    rw [writeMembers_cons, List.append_assoc, List.singleton_append,
      build_member hm frames [] [] (.inr rfl) _ hends hroom,
      build_members hmembers frames [] m hnames _ _ hroom, ite_room_max, membersDepth,
      Nat.add_comm (max _ _) 1, ← Nat.add_assoc]
    simp [Nat.add_assoc, Nat.add_comm, Nat.add_left_comm]

/-- **Where a value is due, the text of a readable value is read as the value**, if that has room. -/
theorem readsAs_write {j : Json} (h : Readable j) : ReadsAs room (write j) j := by
  induction h with
  | null => exact readsAs_scalar rfl fun p rest _ => symbols_word rest p (by simp [write])
  | bool b =>
    cases b <;> exact readsAs_scalar rfl fun p rest _ => symbols_word rest p (by simp [write])
  | int h => exact readsAs_scalar rfl fun p rest hrest => symbols_numberText (.int h) hrest p
  | float h => exact readsAs_scalar rfl fun p rest hrest => symbols_numberText (.float h) hrest p
  | text s => exact readsAs_quoted s
  | array _ ih => exact readsAs_array ih
  | object names _ ih => exact readsAs_object names ih

/-- **The text of a readable value is read back as the value** if there is room for it, and otherwise
is refused for being nested too deep. -/
theorem read_write {j : Json} (h : Readable j) (room : Nat) :
    read room (write j) = if j.depth ≤ room then .ok j else .error .nestedTooDeep := by
  have hbuild := readsAs_write h [] .value 0 [] (Nat.zero_le room) (.inl rfl) (by simp [Ends])
  rw [List.append_nil, List.length_nil, Nat.zero_add] at hbuild
  rw [read, hbuild, symbols]
  rfl

end

/-- The text of an object tells its encoding: it begins with a brace and no zero comes next. -/
theorem readOctets_write {members : List (String × Json)} (h : Readable (.object members))
    {room : Nat} (hroom : depth (.object members) ≤ room) :
    readOctets room (Text.utf8 (write (.object members))) = .ok (.object members) := by
  have hread := read_write h room
  rw [if_pos hroom] at hread
  rw [write, List.cons_append] at hread ⊢
  rw [readOctets_utf8 room (by decide) (by decide), hread]
  cases members with
  | nil => simp [writeMembers]
  | cons m members => simp [writeMembers_cons, quoted]

end Longhand.Json
