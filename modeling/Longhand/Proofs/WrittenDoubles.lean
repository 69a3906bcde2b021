import Longhand.Proofs.NearestDoubles
import Longhand.Proofs.Reading
/-!
# Doubles read back

The text of a finite double is a numeral with a fraction or an exponent (`WrittenForm`), which tells
it from an integer. It denotes the decimal that the double is written as, and that decimal becomes
the double again, zeros with their sign included: so the text is read back as the double
(`read?_decimalText`).
-/

namespace Longhand

/-! ## Digits behind digits -/

namespace Digits

/-- A digit string is told by its length and its value. -/
theorem eq_ofNatPadded (ds : List Digit) : ds = ofNatPadded ds.length (value ds) := by
  induction ds using List.reverseRecOn with
  | nil => rfl
  | append_singleton ds d ih =>
    have hd := d.isLt
    have hrest : (10 * value ds + d.val) / 10 = value ds := by omega
    have hlast : Digit.ofNat (10 * value ds + d.val) = d :=
      Fin.ext (by rw [Digit.val_ofNat]; omega)
    rw [value_concat, List.length_append, List.length_singleton, ofNatPadded, hrest, hlast, ← ih]

theorem eq_of_value_eq {as bs : List Digit} (hlength : as.length = bs.length)
    (hvalue : value as = value bs) : as = bs := by
  rw [eq_ofNatPadded as, hlength, hvalue, ← eq_ofNatPadded]

theorem text_padStart (width : Nat) (ds : List Digit) :
    text (padStart width ds) = List.replicate (width - (text ds).length) '0' ++ text ds := by
  rw [padStart, text_append, length_text]
  simp [text, zeros, Digit.char]

/-- Digits behind those of a number other than zero. -/
theorem ofNat_append {n : Nat} (hn : 0 < n) (ds : List Digit) :
    ofNat (n * pow10 ds.length + value ds) = ofNat n ++ ds := by
  induction ds using List.reverseRecOn with
  | nil => simp [pow10_zero, value_nil]
  | append_singleton ds d ih =>
    have hpos : 0 < n * pow10 ds.length + value ds :=
      Nat.add_pos_left (Nat.mul_pos hn (pow10_pos _)) _
    have hsplit : n * pow10 (ds ++ [d]).length + value (ds ++ [d]) =
        10 * (n * pow10 ds.length + value ds) + d.val := by
      rw [value_concat, List.length_append, List.length_singleton, pow10_succ]
      ring
    rw [hsplit, ofNat_concat hpos, ih, List.append_assoc]

/-- Only zero itself is written with a zero in front. -/
theorem ofNat_eq_zero_cons {n : Nat} {ds : List Digit} (h : ofNat n = 0 :: ds) : ds = [] := by
  by_contra hne
  have hlength := length_normalize_le hne
  rw [← normalize_zero_cons, ← h, normalize_ofNat, h, List.length_cons] at hlength
  omega

end Digits

namespace Double

/-! ## Two notations -/

/-- A point before the last digits of a number splits them into two numbers. -/
theorem pointBefore_ofNat (places c : Nat) :
    pointBefore places (Digits.text (Digits.ofNat c)) =
      Digits.text (Digits.ofNat (c / pow10 places)) ++
        '.' :: Digits.text (Digits.ofNatPadded places (c % pow10 places)) := by
  let fraction := Digits.ofNatPadded places (c % pow10 places)
  have hlength : fraction.length = places := Digits.length_ofNatPadded ..
  have hvalue : Digits.value fraction = c % pow10 places := by
    rw [Digits.value_ofNatPadded, Nat.mod_mod]
  have hsplit : c / pow10 places * pow10 fraction.length + Digits.value fraction = c := by
    rw [hlength, hvalue, Nat.div_add_mod']
  have hdigits : Digits.padStart (places + 1) (Digits.ofNat c) =
      Digits.ofNat (c / pow10 places) ++ fraction := by
    rcases Nat.eq_zero_or_pos (c / pow10 places) with hzero | hpos
    · have hlt : c < pow10 places := (Nat.div_eq_zero_iff_lt (pow10_pos _)).1 hzero
      have hlt' : c < pow10 (places + 1) := by
        rw [pow10_succ]
        omega
      have hcount := Digits.length_ofNat_le (Nat.succ_pos _) hlt'
      apply Digits.eq_of_value_eq
      · rw [Digits.length_padStart, hzero, List.length_append, hlength]
        have hone : (Digits.ofNat 0).length = 1 := by
          rw [Digits.ofNat_of_lt (by omega)]
          rfl
        omega
      · rw [Digits.value_padStart, Digits.value_append, Digits.value_ofNat, Digits.value_ofNat,
          hsplit]
    · have hofNat := Digits.ofNat_append hpos fraction
      rw [hsplit] at hofNat
      have hcount : places + 1 ≤ (Digits.ofNat c).length := by
        have hne := List.length_pos_of_ne_nil (Digits.ofNat_ne_nil (c / pow10 places))
        rw [hofNat, List.length_append, hlength]
        omega
      rw [Digits.padStart, Nat.sub_eq_zero_of_le hcount, ← hofNat]
      rfl
  have hpadded := Digits.text_padStart (places + 1) (Digits.ofNat c)
  rw [hdigits, Digits.text_append] at hpadded
  have hcut : (Digits.text (Digits.ofNat (c / pow10 places)) ++ Digits.text fraction).length -
      places = (Digits.text (Digits.ofNat (c / pow10 places))).length := by
    rw [List.length_append, Digits.length_text fraction, hlength, Nat.add_sub_cancel]
  rw [pointBefore, ← hpadded]
  simp only [hcut, List.take_left, List.drop_left]
  rfl

/-- The exponent of a number written with one digit before the point, in two digits or more. -/
theorem exponentText_eq (e : Int) :
    exponentText e = 'e' :: (if e < 0 then '-' else '+') ::
      Digits.text (Digits.padStart 2 (Digits.ofNat e.natAbs)) := by
  rw [exponentText, Digits.text_padStart]
  rfl

theorem readExponent?_exponentText (e : Int) : Text.readExponent? (exponentText e) = some e := by
  have hne : Digits.text (Digits.padStart 2 (Digits.ofNat e.natAbs)) ≠ [] := by
    apply Digits.text_ne_nil
    rw [← List.length_pos_iff, Digits.length_padStart]
    omega
  have hall : (Digits.text (Digits.padStart 2 (Digits.ofNat e.natAbs))).all Text.isDecimalDigit =
      true :=
    List.all_eq_true.2 fun _ hc => Digits.isDecimalDigit_of_mem_text hc
  have hvalue : Text.digitsValue (Digits.text (Digits.padStart 2 (Digits.ofNat e.natAbs))) =
      e.natAbs := by
    rw [Digits.digitsValue_text, Digits.value_padStart, Digits.value_ofNat]
  rw [exponentText_eq]
  generalize Digits.text (Digits.padStart 2 (Digits.ofNat e.natAbs)) = ds at hne hall hvalue ⊢
  by_cases hneg : e < 0
  · simp [Text.readExponent?, Text.splitSign, hneg, hne, hall, hvalue, abs_of_neg hneg]
  · simp [Text.readExponent?, Text.splitSign, hneg, hne, hall, hvalue, abs_of_nonneg (not_lt.1 hneg)]

/-! ## The form of a double -/

/-- A numeral with a fraction, an exponent or both. -/
structure WrittenForm where
  negative : Bool
  whole : Nat
  fraction : List Digit
  exponent : Option Int
  marked : fraction = [] → exponent ≠ none

namespace WrittenForm

variable (w : WrittenForm)

/-- The digits before and after the point. -/
def numeral : Numeral :=
  ⟨Digits.ofNat w.whole, w.fraction⟩

def tail : List Char :=
  match w.exponent with
  | some e => exponentText e
  | none => []

def sign : List Char :=
  if w.negative then ['-'] else []

def text : List Char :=
  w.sign ++ (w.numeral.text ++ w.tail)

def decimal : Decimal :=
  ⟨w.negative, Digits.value w.numeral.scaled, w.exponent.getD 0 - w.fraction.length⟩

def point : List Char :=
  if w.fraction.isEmpty then [] else '.' :: Digits.text w.fraction

theorem text_eq : w.text = w.sign ++ Digits.text (Digits.ofNat w.whole) ++ w.point ++ w.tail := by
  rw [List.append_assoc, List.append_assoc, ← List.append_assoc (Digits.text _)]
  rfl

/-- No form is that of an integer. -/
theorem marked_text : (w.point.isEmpty && w.tail.isEmpty) = false := by
  obtain ⟨negative, whole, fraction, exponent, hmarked⟩ := w
  cases exponent with
  | some e => simp [tail, exponentText]
  | none =>
    have hne : fraction ≠ [] := fun hnil => hmarked hnil rfl
    simp [point, hne]

theorem integer_ne_nil : w.numeral.integer ≠ [] :=
  Digits.ofNat_ne_nil w.whole

theorem head?_tail {c : Char} (h : c ∈ w.tail.head?) : c = 'e' := by
  unfold tail at h
  split at h
  · rw [exponentText_eq] at h
    exact (Option.some.inj h).symm
  · cases h

theorem readExponent?_tail : Text.readExponent? w.tail = some (w.exponent.getD 0) := by
  unfold tail
  split
  · rename_i e he
    rw [readExponent?_exponentText, he, Option.getD_some]
  · rename_i hnone
    rw [hnone]
    rfl

/-- The characters of a form. -/
theorem mem_text {c : Char} (h : c ∈ w.text) :
    c ∈ ['-', '+', '.', 'e'] ∨ ∃ d : Digit, c = d.char := by
  have hsign : ∀ c ∈ w.sign, c = '-' := by
    unfold sign
    split <;> simp
  rw [text, List.mem_append, List.mem_append] at h
  rcases h with h | h | h
  · exact .inl (by simp [hsign c h])
  · rcases Numeral.mem_text h with rfl | h
    · exact .inl (by simp)
    · exact .inr h
  · unfold tail at h
    split at h
    · rw [exponentText_eq] at h
      simp only [List.mem_cons] at h
      rcases h with rfl | rfl | h
      · exact .inl (by simp)
      · exact .inl (by split <;> simp)
      · exact .inr (Digits.exists_of_mem_text h)
    · cases h

theorem splitSign_text : Text.splitSign w.text = (w.negative, w.numeral.text ++ w.tail) := by
  obtain ⟨d, rest, hd⟩ := Numeral.exists_text_eq_cons w.integer_ne_nil
  unfold text sign
  split
  · rename_i hneg
    rw [hneg]
    rfl
  · rename_i hpos
    rw [hd, List.nil_append, List.cons_append, Digit.splitSign_cons, Bool.eq_false_iff.2 hpos]

theorem read?_decimal : Decimal.read? w.text = some w.decimal := by
  have htail : ∀ c ∈ w.tail.head?, Text.isDecimalDigit c = false ∧ c ≠ '.' := by
    intro c hc
    rw [w.head?_tail hc]
    decide
  rw [Decimal.read?, splitSign_text]
  change Decimal.readUnsigned? _ _ = _
  rw [Numeral.readUnsigned?_text_append w.integer_ne_nil w.negative htail, readExponent?_tail]
  rfl

/-- **A form is read as the double nearest to the decimal that it denotes.** -/
theorem read?_text : read? w.text = some (ofDecimal w.decimal) := by
  obtain ⟨d, rest, hd⟩ := Numeral.exists_text_eq_cons w.integer_ne_nil
  have hdigit : (Text.splitSign w.text).2 = d.char :: (rest ++ w.tail) := by
    rw [splitSign_text, hd]
    rfl
  have hline : '_' ∉ w.text := by
    intro hmem
    rcases w.mem_text hmem with h | ⟨d, h⟩
    · exact absurd h (by decide)
    · exact d.char_ne (by decide) h.symm
  have hwhite : ∀ c ∈ w.text, Text.isWhiteSpace c = false := by
    intro c hmem
    rcases w.mem_text hmem with h | ⟨d, rfl⟩
    · have hmarks : ['-', '+', '.', 'e'].all (!Text.isWhiteSpace ·) = true := by decide
      simpa using List.all_eq_true.1 hmarks c h
    · exact d.isWhiteSpace_char
  rw [read?_of_digit hdigit hwhite hline, read?_decimal, Option.map_some]

end WrittenForm

/-- The text of a decimal as doubles are written, which has a fraction or an exponent. -/
theorem exists_writtenForm {d : Decimal} (h : isPositional d.adjusted = true → d.exponent < 0) :
    ∃ w : WrittenForm, decimalText d = w.text ∧ w.decimal = d := by
  obtain ⟨negative, c, e⟩ := d
  unfold decimalText
  simp only
  by_cases hplaces : isPositional (⟨negative, c, e⟩ : Decimal).adjusted = true
  · have he : e < 0 := h hplaces
    let fraction := Digits.ofNatPadded e.natAbs (c % pow10 e.natAbs)
    have hlength : fraction.length = e.natAbs := Digits.length_ofNatPadded ..
    have hne : fraction ≠ [] := by
      rw [← List.length_pos_iff, hlength]
      omega
    refine ⟨⟨negative, c / pow10 e.natAbs, fraction, none, fun hnil => absurd hnil hne⟩, ?_, ?_⟩
    · rw [if_pos hplaces, pointBefore_ofNat]
      simp [WrittenForm.text, WrittenForm.sign, WrittenForm.numeral, WrittenForm.tail,
        Numeral.text, hne, fraction]
    · have hvalue : Digits.value fraction = c % pow10 e.natAbs := by
        rw [Digits.value_ofNatPadded, Nat.mod_mod]
      have hscaled : Digits.value (Digits.ofNat (c / pow10 e.natAbs) ++ fraction) = c := by
        rw [Digits.value_append, Digits.value_ofNat, hvalue, hlength, Nat.div_add_mod']
      have hexponent : (0 : Int) - e.natAbs = e := by omega
      simp only [WrittenForm.decimal, WrittenForm.numeral, Numeral.scaled, hscaled, hlength,
        Option.getD_none, hexponent]
  · obtain ⟨d, ds, hds⟩ := List.exists_cons_of_ne_nil (Digits.ofNat_ne_nil c)
    have hfirst : Digits.ofNat d.val = [d] := by
      rw [Digits.ofNat_of_lt d.isLt]
      exact congrArg (fun x => [x]) (Fin.ext (Nat.mod_eq_of_lt d.isLt))
    refine ⟨⟨negative, d.val, ds, some (⟨negative, c, e⟩ : Decimal).adjusted,
      fun _ hnone => by cases hnone⟩, ?_, ?_⟩
    · rw [if_neg hplaces]
      cases ds with
      | nil =>
        simp [WrittenForm.text, WrittenForm.sign, WrittenForm.numeral, WrittenForm.tail,
          Numeral.text, hds, hfirst, Digits.text]
      | cons d' ds =>
        simp [WrittenForm.text, WrittenForm.sign, WrittenForm.numeral, WrittenForm.tail,
          Numeral.text, hds, hfirst, Digits.text]
    · have hvalue : Digits.value (d :: ds) = c := by rw [← hds, Digits.value_ofNat]
      have hexponent : e + (d :: ds).length - 1 - ds.length = e := by
        rw [List.length_cons]
        omega
      simp only [WrittenForm.decimal, WrittenForm.numeral, Numeral.scaled, hfirst,
        List.singleton_append, hvalue, Option.getD_some, Decimal.adjusted, Decimal.digitCount, hds,
        hexponent]

/-! ## The way back -/

/-- The bits of a finite double, from its parts. -/
theorem toNat_toBits {x : Float} {negative : Bool} {m : Nat} {q : Int}
    (h : parts x = .finite negative m q) :
    x.toBits.toNat =
      (if negative then pow2 63 else 0) + (q - minExponent).toNat * pow2 52 + m := by
  have hlt : x.toBits.toNat < 2 ^ 64 := x.toBits.toNat_lt
  have h63 : pow2 63 = 2 ^ 63 := rfl
  have h52 : pow2 52 = 2 ^ 52 := rfl
  have h11 : pow2 11 = 2 ^ 11 := rfl
  unfold parts at h
  simp only [h63, h52, h11, minExponent] at h ⊢
  split at h
  · split at h <;> cases h
  · split at h
    · cases h
      simp only [decide_eq_true_eq]
      split <;> omega
    · cases h
      simp only [decide_eq_true_eq]
      split <;> omega

/-- A finite double is told by its parts. -/
theorem eq_of_parts {x y : Float} {negative : Bool} {m : Nat} {q : Int}
    (hx : parts x = .finite negative m q) (hy : parts y = .finite negative m q) : x = y := by
  rw [← Float.toBits_inj, ← UInt64.toNat_inj, toNat_toBits hx, toNat_toBits hy]

/-- **The decimal that a double is written as becomes the double.** -/
theorem ofDecimal_exact {x : Float} {d : Decimal} (hx : exact x = .finite d) :
    ofDecimal d = x := by
  obtain ⟨negative, m, q, hparts, hc, hd⟩ := exists_parts_of_exact hx
  rcases Nat.eq_zero_or_pos m with rfl | hm
  · -- the sign of a zero is kept
    obtain rfl : q = minExponent := hc.leading.resolve_left (by norm_num)
    have hzero : ∀ negative, parts (ofDecimal ⟨negative, 0, -1⟩) =
        .finite negative 0 minExponent := by
      decide +kernel
    refine eq_of_parts ?_ hparts
    rw [← hd, ofParts, if_pos rfl]
    exact hzero negative
  · have hpos := (shortest_reads q hm hc.lt).pos hm
    have hne : d.toRat ≠ 0 := by
      rw [← hd, toRat_ofParts negative q hm]
      cases negative
      · exact hpos.ne'
      · exact neg_ne_zero.2 hpos.ne'
    exact eq_of_parts ((parts_ofDecimal_exact hx hne rfl).trans hparts) hparts

/-- A double written positionally has a digit after its point. -/
theorem exponent_neg_of_exact {x : Float} {d : Decimal} (hx : exact x = .finite d)
    (h : isPositional d.adjusted = true) : d.exponent < 0 := by
  obtain ⟨negative, m, q, -, -, rfl⟩ := exists_parts_of_exact hx
  unfold ofParts at h ⊢
  by_cases hm : m = 0
  · simp [hm]
  · simp only [if_neg hm] at h ⊢
    split
    · exact neg_one_lt_zero
    · rename_i hfar
      rw [if_neg hfar] at h
      exact not_le.1 fun hk => hfar ⟨hk, h⟩

/-- **The text of a finite double is read back as the double.** -/
theorem read?_decimalText {x : Float} {d : Decimal} (hx : exact x = .finite d) :
    read? (decimalText d) = some x := by
  obtain ⟨w, htext, hdecimal⟩ := exists_writtenForm (exponent_neg_of_exact hx)
  rw [htext, w.read?_text, hdecimal, ofDecimal_exact hx]

end Double

end Longhand
