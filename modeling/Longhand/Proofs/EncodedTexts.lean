import Longhand.Json.Read
import Longhand.Text.Encoding
import Mathlib.Tactic.SplitIfs
/-!
# Encoded texts are decoded

In UTF-8 each character takes as many octets as its number needs, and from those the number is had
back, whatever follows them (`utf8First?_encodeChar`). So the octets of a text give the numbers of its
characters, and a JSON text that is received in UTF-8 is read as the text (`readOctets_utf8`): it
begins with an ASCII character and no zero comes next, which no mark and no other encoding does.
-/

namespace Longhand

namespace Text

/-! ## One character -/

theorem isSurrogate_toNat (c : Char) : isSurrogate c.toNat = false := by
  have hvalid := c.valid
  simp only [UInt32.isValidChar, Nat.isValidChar] at hvalid
  simp only [isSurrogate, isHighSurrogate, isLowSurrogate, Bool.or_eq_false_iff,
    Bool.and_eq_false_iff, decide_eq_false_iff_not, Char.toNat]
  omega

theorem charOf_toNat (c : Char) : charOf c.toNat = c := by
  rw [charOf, isSurrogate_toNat, if_neg Bool.false_ne_true, Char.ofNat_toNat]

/-- The octets after the first one hold six binary digits each. -/
theorem utf8Continue?_cons (n d more : Nat) (hd : d < 0x40) (rest : List UInt8) :
    utf8Continue? n (more + 1) (UInt8.ofNat (d + 0x80) :: rest) =
      utf8Continue? (n * 0x40 + d) more rest := by
  have hoctet : (UInt8.ofNat (d + 0x80)).toNat = d + 0x80 := by
    rw [UInt8.toNat_ofNat']
    omega
  rw [utf8Continue?, hoctet, if_pos (by omega), Nat.add_sub_cancel]

theorem utf8First?_cons {a lead more least n : Nat} {rest : List UInt8} (ha : a < 0x100)
    (hlead : utf8Lead? a = some (lead, more, least))
    (hcontinue : utf8Continue? lead more rest = some n) (hleast : least ≤ n) (hn : n ≤ 0x10FFFF) :
    utf8First? (UInt8.ofNat a :: rest) = some (n, more + 1) := by
  have hoctet : (UInt8.ofNat a).toNat = a := by
    rw [UInt8.toNat_ofNat']
    omega
  simp only [utf8First?, hoctet, hlead, Option.bind_eq_bind, Option.bind_some, hcontinue]
  rw [if_pos ⟨hleast, hn⟩]

/-- **The number of a character is had back from its octets**, whatever follows them. -/
theorem utf8First?_encodeChar (c : Char) (rest : List UInt8) :
    utf8First? (String.utf8EncodeChar c ++ rest) =
      some (c.toNat, (String.utf8EncodeChar c).length) := by
  have hvalid := c.valid
  simp only [UInt32.isValidChar, Nat.isValidChar] at hvalid
  have hn : c.toNat = c.val.toNat := rfl
  unfold String.utf8EncodeChar
  rw [hn]
  generalize c.val.toNat = n at hvalid ⊢
  simp only
  split
  · have hlead : utf8Lead? n = some (n, 0, 0) := by rw [utf8Lead?, if_pos (by omega)]
    exact utf8First?_cons (by omega) hlead rfl (by omega) (by omega)
  split
  · have hlead : utf8Lead? (n / 64 % 32 + 0xC0) = some (n / 64 % 32, 1, 0x80) := by
      rw [utf8Lead?, if_neg (by omega), if_neg (by omega), if_pos (by omega), Nat.add_sub_cancel]
    refine utf8First?_cons (by omega) hlead ?_ (by omega) (by omega)
    change utf8Continue? _ 1 (_ :: rest) = _
    rw [utf8Continue?_cons _ _ _ (by omega), utf8Continue?]
    congr 1
    omega
  split
  · have hlead : utf8Lead? (n / 4096 % 16 + 0xE0) = some (n / 4096 % 16, 2, 0x800) := by
      rw [utf8Lead?, if_neg (by omega), if_neg (by omega), if_neg (by omega), if_pos (by omega),
        Nat.add_sub_cancel]
    refine utf8First?_cons (by omega) hlead ?_ (by omega) (by omega)
    change utf8Continue? _ 2 (_ :: _ :: rest) = _
    rw [utf8Continue?_cons _ _ _ (by omega), utf8Continue?_cons _ _ _ (by omega), utf8Continue?]
    congr 1
    omega
  · have hlead : utf8Lead? (n / 262144 % 8 + 0xF0) = some (n / 262144 % 8, 3, 0x10000) := by
      rw [utf8Lead?, if_neg (by omega), if_neg (by omega), if_neg (by omega), if_neg (by omega),
        if_pos (by omega), Nat.add_sub_cancel]
    refine utf8First?_cons (by omega) hlead ?_ (by omega) (by omega)
    change utf8Continue? _ 3 (_ :: _ :: _ :: rest) = _
    rw [utf8Continue?_cons _ _ _ (by omega), utf8Continue?_cons _ _ _ (by omega),
      utf8Continue?_cons _ _ _ (by omega), utf8Continue?]
    congr 1
    omega

/-! ## Texts -/

theorem utf8EncodeChar_ne_nil (c : Char) : String.utf8EncodeChar c ≠ [] := by
  unfold String.utf8EncodeChar
  simp only
  split_ifs <;> simp

/-- **The octets of a text give the numbers of its characters.** -/
theorem decode?_utf8 (s : List Char) : Encoding.utf8.decode? (utf8 s) = some (s.map Char.toNat) := by
  induction s with
  | nil => simp [utf8, Encoding.decode?]
  | cons c s ih =>
    have hfirst := utf8First?_encodeChar c (utf8 s)
    obtain ⟨a, octets, hoctets⟩ := List.exists_cons_of_ne_nil (utf8EncodeChar_ne_nil c)
    have hsplit : utf8 (c :: s) = a :: (octets ++ utf8 s) := by
      rw [utf8, List.flatMap_cons, hoctets]
      rfl
    rw [hoctets, List.cons_append, List.length_cons] at hfirst
    rw [hsplit, Encoding.decode?, Encoding.first?, hfirst]
    simp [ih]

/-- Only the character zero has a first octet that is zero. -/
theorem exists_utf8_cons {c : Char} (hc : 0 < c.toNat) (s : List Char) :
    ∃ a octets, utf8 (c :: s) = a :: octets ∧ a ≠ 0 := by
  have hne : ∀ n, 0 < n → n < 0x100 → UInt8.ofNat n ≠ 0 := by
    intro n hpos hlt hzero
    have hoctet := congrArg UInt8.toNat hzero
    rw [UInt8.toNat_ofNat', UInt8.toNat_zero] at hoctet
    omega
  have hn : c.val.toNat = c.toNat := rfl
  rw [utf8, List.flatMap_cons, String.utf8EncodeChar, hn]
  split_ifs <;> exact ⟨_, _, List.cons_append, hne _ (by omega) (by omega)⟩

namespace Encoding

theorem guess_of_ne_zero {a : UInt8} (ha : a ≠ 0) {rest : List UInt8}
    (hrest : ∀ b ∈ rest.head?, b ≠ 0) : guess (a :: rest) = .utf8 := by
  rcases rest with _ | ⟨b, _ | ⟨c, _ | ⟨d, rest⟩⟩⟩
  · rfl
  all_goals
    have hb : b ≠ 0 := hrest b rfl
    simp [guess, ha, hb]

/-- An ASCII character other than zero begins no mark. -/
theorem find?_marks {a : UInt8} (hpos : a ≠ 0) (hlt : a.toNat < 0x80) (rest : List UInt8) :
    marks.find? (·.1.isPrefixOf (a :: rest)) = none := by
  have hhigh : ∀ b : UInt8, 0x80 ≤ b.toNat → (b == a) = false := by
    intro b hb
    rw [beq_eq_false_iff_ne]
    rintro rfl
    omega
  have hzero : ((0 : UInt8) == a) = false := beq_eq_false_iff_ne.2 hpos.symm
  simp [marks, List.isPrefixOf, hzero, hhigh 0xFF (by decide), hhigh 0xFE (by decide),
    hhigh 0xEF (by decide)]

end Encoding

/-- **A received text that begins with an ASCII character, and has no zero after it, is decoded.** -/
theorem ofOctets?_utf8 {c : Char} {s : List Char} (hpos : 0 < c.toNat) (hlt : c.toNat < 0x80)
    (hs : ∀ d ∈ s.head?, 0 < d.toNat) : ofOctets? (utf8 (c :: s)) = some ((c :: s).map Char.toNat) := by
  have hdecode := decode?_utf8 (c :: s)
  have hsplit : utf8 (c :: s) = UInt8.ofNat c.toNat :: utf8 s := by
    have hsize : c.val.toNat ≤ 127 := Nat.le_of_lt_succ hlt
    rw [utf8, List.flatMap_cons, String.utf8EncodeChar]
    simp only [hsize, if_true]
    rfl
  have hoctet : (UInt8.ofNat c.toNat).toNat = c.toNat := by
    rw [UInt8.toNat_ofNat']
    omega
  have hne : UInt8.ofNat c.toNat ≠ 0 := by
    intro hzero
    rw [hzero, UInt8.toNat_zero] at hoctet
    omega
  have hrest : ∀ b ∈ (utf8 s).head?, b ≠ 0 := by
    cases s with
    | nil => simp [utf8]
    | cons d s =>
      obtain ⟨a, octets, hocts, ha⟩ := exists_utf8_cons (hs d rfl) s
      simpa [hocts] using ha
  rw [hsplit] at hdecode ⊢
  rw [ofOctets?, Encoding.detect, Encoding.find?_marks hne (by omega)]
  simp only [Encoding.guess_of_ne_zero hne hrest, hdecode]

end Text

namespace Json

theorem halvesOf_map_toNat (s : List Char) : halvesOf (s.map Char.toNat) = [] := by
  rw [halvesOf, List.map_eq_nil_iff, List.filter_eq_nil_iff]
  intro p hp
  obtain ⟨c, -, hc⟩ := List.mem_map.1 (List.fst_mem_of_mem_zipIdx hp)
  rw [← hc, Text.isSurrogate_toNat]
  exact Bool.false_ne_true

/-- **A JSON text that is received in UTF-8 is read as the text.** -/
theorem readOctets_utf8 (room : Nat) {c : Char} {s : List Char} (hpos : 0 < c.toNat)
    (hlt : c.toNat < 0x80) (hs : ∀ d ∈ s.head?, 0 < d.toNat) :
    readOctets room (Text.utf8 (c :: s)) = read room (c :: s) := by
  have hchars : Text.charOf ∘ Char.toNat = id := funext Text.charOf_toNat
  rw [readOctets, Text.ofOctets?_utf8 hpos hlt hs]
  simp only [readPoints]
  rw [halvesOf_map_toNat, List.map_map, hchars, List.map_id, read]

end Json

end Longhand
