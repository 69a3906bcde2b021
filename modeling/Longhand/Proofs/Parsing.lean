import Longhand.PostOrder
import Longhand.Proofs.Reading
import Longhand.Proofs.Spelling
import Longhand.Token.Scan
/-!
# Parsing inverts spelling

Any spelling of an expression is scanned into its tokens, brought into the post-order of the
expression, and evaluated to its value. The order is a matter of the stack of waiting operators:
when a spelling has been read, those of its operators that are still waiting bind at least as
tightly as the spelling does (`convert_spelling`), so the next operator outside takes them all.
-/

namespace Longhand

/-! ## Characters -/

theorem Token.isNumeric_of_isBlank {c : Char} (h : Text.isBlank c = true) :
    Token.isNumeric c = false := by
  have hdot : '.'.toNat = 46 := rfl
  simp only [Text.isBlank, Text.isWhiteSpace, Bool.or_eq_true, Bool.and_eq_true,
    decide_eq_true_eq] at h
  simp only [Token.isNumeric, Token.isDigit, Bool.or_eq_false_iff, Bool.and_eq_false_iff,
    decide_eq_false_iff_not, Char.le_def, UInt32.le_iff_toNat_le]
  change (¬ 48 ≤ c.toNat ∨ ¬ c.toNat ≤ 57) ∧ ¬ c = '.'
  refine ⟨by omega, ?_⟩
  rintro rfl
  omega

namespace Digit

theorem isBlank_char : ∀ d : Digit, Text.isBlank d.char = false := by
  decide

theorem isDigit_char : ∀ d : Digit, Token.isDigit d.char = true := by
  decide

end Digit

namespace Expression

namespace Symbol

def chars : List Char :=
  ['+', '-', '×', '*', '÷', '/', '%']

theorem mem_chars (s : Symbol) : s.char ∈ chars := by
  obtain ⟨c, op, h⟩ := s
  unfold Operator.ofChar? at h
  split at h <;> simp at h <;> simp [chars]

theorem eq_false_of_all (s : Symbol) {p : Char → Bool} (h : (chars.all fun c => !p c) = true) :
    p s.char = false := by
  simpa using List.all_eq_true.1 h _ s.mem_chars

theorem isBlank_char (s : Symbol) : Text.isBlank s.char = false :=
  s.eq_false_of_all (by decide)

theorem isDigit_char (s : Symbol) : Token.isDigit s.char = false :=
  s.eq_false_of_all (by decide)

theorem isNumeric_char (s : Symbol) : Token.isNumeric s.char = false :=
  s.eq_false_of_all (by decide)

theorem ofSymbol?_singleton (s : Symbol) :
    Operator.ofSymbol? (String.singleton s.char) = some s.op := by
  simp [Operator.ofSymbol?, s.spells]

end Symbol

namespace Literal

theorem isNumeric_of_mem {n : Literal} {c : Char} (h : c ∈ n.numeral.text) :
    Token.isNumeric c = true := by
  rcases Numeral.mem_text h with rfl | ⟨d, rfl⟩
  · decide
  · simp [Token.isNumeric, d.isDigit_char]

/-- A numeral is read as the double nearest to the decimal that it denotes. -/
theorem read?_text (n : Literal) :
    Double.read? n.numeral.text = some (Double.ofDecimal n.numeral.toDecimal) := by
  have hwhite : ∀ c ∈ n.numeral.text, Text.isWhiteSpace c = false := by
    intro c hc
    rcases Numeral.mem_text hc with rfl | ⟨d, rfl⟩
    · decide
    · exact d.isWhiteSpace_char
  have hline : '_' ∉ n.numeral.text := n.numeral.not_mem_text (by decide) (by decide)
  obtain ⟨d, rest, hd⟩ := Numeral.exists_text_eq_cons n.integer_ne_nil
  have hdigit : (Text.splitSign n.numeral.text).2 = d.char :: rest := by
    rw [Numeral.splitSign_text n.integer_ne_nil, hd]
  rw [Double.read?_of_digit hdigit hwhite hline, Numeral.read?_text n.integer_ne_nil,
    Option.map_some]

end Literal

/-! ## Scanning -/

def EndsNumber (s : List Char) : Prop :=
  ∀ c ∈ s.head?, Token.isNumeric c = false

theorem Blanks.endsNumber_append (b : Blanks) {s : List Char} (h : EndsNumber s) :
    EndsNumber (b.chars ++ s) := by
  obtain ⟨chars, hb⟩ := b
  cases chars with
  | nil => exact h
  | cons c cs =>
    intro c' hc'
    obtain rfl : c = c' := by simpa using hc'
    exact Token.isNumeric_of_isBlank (hb c (by simp))

theorem scan_nil (operand : Bool) (position : Nat) : Token.scan operand position [] = .ok [] := by
  rw [Token.scan.eq_def]

/-- Blanks are passed over. -/
theorem scan_blanks (operand : Bool) (position : Nat) (b : Blanks) (s : List Char) :
    Token.scan operand position (b.chars ++ s) =
      Token.scan operand (position + b.chars.length) s := by
  obtain ⟨chars, hb⟩ := b
  simp only
  induction chars generalizing position with
  | nil => rfl
  | cons c cs ih =>
    rw [List.cons_append, Token.scan.eq_def]
    simp only [hb c (by simp), if_true, ih (position + 1) fun x hx => hb x (by simp [hx])]
    congr 1
    simp only [List.length_cons]
    omega

theorem scan_numeral (operand : Bool) (position : Nat) (n : Literal) {s : List Char}
    (h : EndsNumber s) :
    Token.scan operand position (n.numeral.text ++ s) =
      (⟨.number, String.ofList n.numeral.text, position⟩ :: ·) <$>
        Token.scan false (position + n.numeral.text.length) s := by
  obtain ⟨d, rest, hd⟩ := Numeral.exists_text_eq_cons n.integer_ne_nil
  have hmem : ∀ c ∈ rest, Token.isNumeric c = true := by
    intro c hc
    have htext : c ∈ n.numeral.text := hd ▸ List.mem_cons_of_mem _ hc
    exact Literal.isNumeric_of_mem htext
  have htake : (rest ++ s).takeWhile Token.isNumeric = rest := takeWhile_append_of_head hmem h
  have hdrop : (rest ++ s).dropWhile Token.isNumeric = s := dropWhile_append_of_head hmem h
  rw [hd, List.cons_append, Token.scan.eq_def]
  simp only [d.isBlank_char, d.isDigit_char, Bool.false_eq_true, if_false, if_true, htake, hdrop]

theorem scan_minus (position : Nat) (s : List Char) :
    Token.scan true position ('-' :: s) =
      (Spelling.minus position :: ·) <$> Token.scan false (position + 1) s := by
  rw [Token.scan.eq_def]
  rfl

theorem scan_operator (position : Nat) (symbol : Symbol) (s : List Char) :
    Token.scan false position (symbol.char :: s) =
      (Spelling.operator symbol position :: ·) <$> Token.scan true (position + 1) s := by
  rw [Token.scan.eq_def]
  simp [symbol.isBlank_char, symbol.isDigit_char, symbol.spells, Spelling.operator]

theorem scan_open (operand : Bool) (position : Nat) (s : List Char) :
    Token.scan operand position ('(' :: s) =
      (Spelling.parenthesis '(' position :: ·) <$> Token.scan true (position + 1) s := by
  rw [Token.scan.eq_def]
  rfl

theorem scan_close (position : Nat) (s : List Char) :
    Token.scan false position (')' :: s) =
      (Spelling.parenthesis ')' position :: ·) <$> Token.scan false (position + 1) s := by
  rw [Token.scan.eq_def]
  rfl

/-- Only numerals and parentheses bind more tightly than a sign. -/
theorem Spelling.negation_lt_level {s : Spelling} (hlevel : Operation.negation.precedence ≤ s.level)
    (hsign : s.isNegation = false) : Operation.negation.precedence < s.level := by
  cases s with
  | numeral n => exact Nat.lt_succ_self _
  | negation gap operand => simp [Spelling.isNegation] at hsign
  | binary symbol left before after right =>
    have h := symbol.op.precedence_lt_negation
    simp only [Spelling.level] at hlevel
    omega
  | group before inner after => exact Nat.lt_succ_self _

/-- A spelling is scanned into its tokens wherever an operand is due. Right after a sign only a
spelling that does not begin with another one is. -/
theorem scan_spelling {s : Spelling} (hs : s.WellWritten) (operand : Bool) (position : Nat)
    {rest : List Char} (hdue : operand = true ∨ Operation.negation.precedence < s.level)
    (hrest : EndsNumber rest) :
    Token.scan operand position (s.text ++ rest) =
      (s.tokens position ++ ·) <$> Token.scan false (position + s.text.length) rest := by
  induction s generalizing operand position rest with
  | numeral n => exact scan_numeral operand position n hrest
  | negation gap inner ih =>
    obtain ⟨hinner, hlevel, hsign⟩ := hs
    obtain rfl : operand = true := hdue.resolve_right (lt_irrefl _)
    -- after the sign no operand is due any more, but what follows starts with no minus
    have hscan := ih hinner false (position + 1 + gap.chars.length)
      (.inr (Spelling.negation_lt_level hlevel hsign)) hrest
    have hplace : position + 1 + gap.chars.length + inner.text.length =
        position + (Spelling.negation gap inner).text.length := by
      simp [Spelling.text]
      omega
    rw [hplace] at hscan
    simp only [Spelling.text, List.cons_append, List.append_assoc] at hscan ⊢
    rw [scan_minus, scan_blanks, hscan, Functor.map_map]
    rfl
  | binary symbol left before after right ihl ihr =>
    obtain ⟨hleft, hright, -, -⟩ := hs
    have hlt := symbol.op.precedence_lt_negation
    obtain rfl : operand = true := hdue.resolve_right (by simp only [Spelling.level]; omega)
    have hend : EndsNumber (before.chars ++ symbol.char :: (after.chars ++ (right.text ++ rest))) :=
      before.endsNumber_append (by simp [EndsNumber, symbol.isNumeric_char])
    have hl := ihl hleft true position (.inl rfl) hend
    have hr := ihr hright true
      (position + left.text.length + before.chars.length + 1 + after.chars.length) (.inl rfl) hrest
    have hplace :
        position + left.text.length + before.chars.length + 1 + after.chars.length +
          right.text.length = position + (Spelling.binary symbol left before after right).text.length := by
      simp [Spelling.text]
      omega
    rw [hplace] at hr
    simp only [Spelling.text, List.cons_append, List.append_assoc] at hr ⊢
    rw [hl, scan_blanks, scan_operator, scan_blanks, hr, Functor.map_map, Functor.map_map]
    congr 1
    funext ts
    simp [Spelling.tokens]
  | group before inner after ih =>
    have hend : EndsNumber (after.chars ++ ')' :: rest) :=
      after.endsNumber_append (by simp [EndsNumber]; decide)
    have hscan := ih hs true (position + 1 + before.chars.length) (.inl rfl) hend
    have hplace :
        position + 1 + before.chars.length + inner.text.length + after.chars.length + 1 =
          position + (Spelling.group before inner after).text.length := by
      simp [Spelling.text]
      omega
    simp only [Spelling.text, List.cons_append, List.append_assoc, List.nil_append] at hplace ⊢
    rw [scan_open, scan_blanks, hscan, scan_blanks, scan_close, hplace, Functor.map_map,
      Functor.map_map]
    congr 1
    funext ts
    simp [Spelling.tokens]

/-! ## Waiting operators -/

namespace Spelling

/-- The tokens of a spelling that are in their place once it has been read. -/
def settled (position : Nat) : Spelling → List Token
  | numeral n => [⟨.number, String.ofList n.numeral.text, position⟩]
  | negation gap operand => operand.settled (position + 1 + gap.chars.length)
  | binary _ left before after right =>
    left.postOrder position ++
      right.settled (position + left.text.length + before.chars.length + 1 + after.chars.length)
  | group before inner _ => inner.postOrder (position + 1 + before.chars.length)

/-- The operators of a spelling that still wait once it has been read, the last one first. -/
def waiting (position : Nat) : Spelling → List Token
  | numeral _ | group _ _ _ => []
  | negation gap operand => operand.waiting (position + 1 + gap.chars.length) ++ [minus position]
  | binary symbol left before after right =>
    let place := position + left.text.length + before.chars.length
    right.waiting (place + 1 + after.chars.length) ++ [operator symbol place]

theorem settled_append_waiting (s : Spelling) (position : Nat) :
    s.settled position ++ s.waiting position = s.postOrder position := by
  induction s generalizing position with
  | numeral n => rfl
  | negation gap operand ih => simp [settled, waiting, postOrder, ← ih]
  | binary symbol left before after right ihl ihr => simp [settled, waiting, postOrder, ← ihr]
  | group before inner after ih => simp [settled, waiting, postOrder]

end Spelling

/-- Whether a token is an operator that goes before any operator that binds no more tightly than a
level. -/
structure Binds (level : Nat) (t : Token) : Prop where
  kind_ne : t.kind ≠ .parenthesis
  opens_eq : PostOrder.opens t = false
  first : PostOrder.bindsFirst level t = true

theorem bindsFirst_anti {low high : Nat} (h : low ≤ high) {t : Token}
    (ht : PostOrder.bindsFirst high t = true) : PostOrder.bindsFirst low t = true := by
  unfold PostOrder.bindsFirst at ht ⊢
  split at ht
  · simp only [decide_eq_true_eq] at ht ⊢
    exact h.trans ht
  · simp at ht

theorem bindsFirst_eq_false {low high : Nat} (h : low ≤ high) {t : Token}
    (ht : PostOrder.bindsFirst low t = false) : PostOrder.bindsFirst high t = false := by
  by_contra hhigh
  have := bindsFirst_anti h (Bool.not_eq_false _ ▸ hhigh)
  simp [ht] at this

theorem Binds.anti {low high : Nat} (h : low ≤ high) {t : Token} (ht : Binds high t) :
    Binds low t :=
  ⟨ht.kind_ne, ht.opens_eq, bindsFirst_anti h ht.first⟩

theorem bindsFirst_minus (level position : Nat) :
    PostOrder.bindsFirst level (Spelling.minus position) =
      decide (level ≤ Operation.negation.precedence) :=
  rfl

theorem bindsFirst_operator (level : Nat) (symbol : Symbol) (position : Nat) :
    PostOrder.bindsFirst level (Spelling.operator symbol position) =
      decide (level ≤ symbol.op.precedence) := by
  simp only [PostOrder.bindsFirst, Token.operation?, Spelling.operator,
    symbol.ofSymbol?_singleton, Option.map_some]
  rfl

theorem binds_minus (position : Nat) :
    Binds Operation.negation.precedence (Spelling.minus position) :=
  ⟨by simp [Spelling.minus], rfl, rfl⟩

theorem binds_operator (symbol : Symbol) (position : Nat) :
    Binds symbol.op.precedence (Spelling.operator symbol position) := by
  refine ⟨by simp [Spelling.operator], ?_, ?_⟩
  · refine decide_eq_false fun h => ?_
    have hchar : symbol.char = '(' := by
      simpa [Spelling.operator] using congrArg String.toList h
    have := symbol.mem_chars
    simp [hchar, Symbol.chars] at this
  · rw [bindsFirst_operator]
    simp

/-- The operators that wait bind at least as tightly as the spelling. -/
theorem binds_of_mem_waiting {s : Spelling} (hs : s.WellWritten) {position : Nat} {t : Token}
    (ht : t ∈ s.waiting position) : Binds s.level t := by
  induction s generalizing position with
  | numeral n => simp [Spelling.waiting] at ht
  | negation gap operand ih =>
    obtain ⟨hinner, hlevel, -⟩ := hs
    rcases List.mem_append.1 ht with ht | ht
    · exact (ih hinner ht).anti hlevel
    · obtain rfl := List.mem_singleton.1 ht
      exact binds_minus position
  | binary symbol left before after right ihl ihr =>
    obtain ⟨-, hright, -, hlevel⟩ := hs
    rcases List.mem_append.1 ht with ht | ht
    · exact (ihr hright ht).anti hlevel.le
    · obtain rfl := List.mem_singleton.1 ht
      exact binds_operator symbol _
  | group before inner after ih => simp [Spelling.waiting] at ht

/-! ## Post-order -/

section Convert

open PostOrder

theorem convert_number {t : Token} (h : t.kind = .number) (stack rest : List Token) :
    convert stack (t :: rest) = (t :: ·) <$> convert stack rest := by
  rw [convert]
  simp only [h]

theorem convert_sign {t : Token} (h : t.kind = .unaryMinus) (stack rest : List Token) :
    convert stack (t :: rest) = convert (t :: stack) rest := by
  rw [convert]
  simp only [h]

theorem convert_operator {t : Token} {op : Operator} (h : t.kind = .operator)
    (hop : Operator.ofSymbol? t.value = some op) (stack rest : List Token) :
    convert stack (t :: rest) =
      (stack.takeWhile (bindsFirst op.precedence) ++ ·) <$>
        convert (t :: stack.dropWhile (bindsFirst op.precedence)) rest := by
  rw [convert]
  simp only [h, hop]

/-- An operator takes from the stack the operators of its left operand, and no others. -/
theorem convert_symbol {waiting stack : List Token} (symbol : Symbol) (position : Nat)
    (rest : List Token) (hwaiting : ∀ t ∈ waiting, bindsFirst symbol.op.precedence t = true)
    (hstack : ∀ t ∈ stack.head?, bindsFirst symbol.op.precedence t = false) :
    convert (waiting ++ stack) (Spelling.operator symbol position :: rest) =
      (waiting ++ ·) <$> convert (Spelling.operator symbol position :: stack) rest := by
  have hop : Operator.ofSymbol? (Spelling.operator symbol position).value = some symbol.op :=
    symbol.ofSymbol?_singleton
  rw [convert_operator rfl hop, takeWhile_append_of_head hwaiting hstack,
    dropWhile_append_of_head hwaiting hstack]

theorem convert_parenthesis {t : Token} (h : t.kind = .parenthesis) (stack rest : List Token) :
    convert stack (t :: rest) =
      if opens t then convert (t :: stack) rest
      else
        match stack.dropWhile (!opens ·) with
        | [] => .error .mismatched
        | _ :: below => (stack.takeWhile (!opens ·) ++ ·) <$> convert below rest := by
  cases hdrop : stack.dropWhile (!opens ·) <;> simp [convert, h, hdrop]

/-- A closing parenthesis takes from the stack the tokens above the opening one. -/
theorem convert_close {waiting : List Token} (stack rest : List Token) (first last : Nat)
    (hwaiting : ∀ t ∈ waiting, opens t = false) :
    convert (waiting ++ Spelling.parenthesis '(' first :: stack)
        (Spelling.parenthesis ')' last :: rest) =
      (waiting ++ ·) <$> convert stack rest := by
  have hclose : opens (Spelling.parenthesis ')' last) = false := rfl
  have hwait : ∀ t ∈ waiting, (!opens t) = true := by
    intro t ht
    simp [hwaiting t ht]
  have hfirst : ∀ t ∈ (Spelling.parenthesis '(' first :: stack).head?, (!opens t) = false := by
    intro t ht
    obtain rfl : Spelling.parenthesis '(' first = t := by simpa using ht
    rfl
  rw [convert_parenthesis rfl, hclose, takeWhile_append_of_head hwait hfirst,
    dropWhile_append_of_head hwait hfirst]
  rfl

/-- Once a spelling has been read, its settled tokens are out and its waiting operators are on the
stack. The stack below must not hold an operator that goes before those of the spelling. -/
theorem convert_spelling {s : Spelling} (hs : s.WellWritten) (position : Nat)
    (stack rest : List Token) (hstack : ∀ t ∈ stack.head?, bindsFirst s.level t = false) :
    convert stack (s.tokens position ++ rest) =
      (s.settled position ++ ·) <$> convert (s.waiting position ++ stack) rest := by
  induction s generalizing position stack rest with
  | numeral n => exact convert_number rfl stack rest
  | negation gap operand ih =>
    obtain ⟨hinner, hlevel, hsign⟩ := hs
    have hlt := Spelling.negation_lt_level hlevel hsign
    have hminus : ∀ t ∈ (Spelling.minus position :: stack).head?,
        bindsFirst operand.level t = false := by
      simp [bindsFirst_minus, hlt]
    simp only [Spelling.tokens, Spelling.settled, Spelling.waiting, List.cons_append,
      List.append_assoc, List.nil_append]
    rw [convert_sign rfl, ih hinner _ _ rest hminus]
  | binary symbol left before after right ihl ihr =>
    obtain ⟨hleft, hright, hll, hlr⟩ := hs
    have hbelow : ∀ t ∈ stack.head?, bindsFirst left.level t = false := by
      intro t ht
      exact bindsFirst_eq_false hll (hstack t ht)
    have hwaiting : ∀ t ∈ left.waiting position, bindsFirst symbol.op.precedence t = true := by
      intro t ht
      exact ((binds_of_mem_waiting hleft ht).anti hll).first
    -- the operators of the right part bind more tightly, so this one stays below them
    have hsymbol : ∀ t ∈ (Spelling.operator symbol
        (position + left.text.length + before.chars.length) :: stack).head?,
        bindsFirst right.level t = false := by
      simp [bindsFirst_operator, hlr]
    simp only [Spelling.tokens, Spelling.settled, Spelling.waiting, List.cons_append,
      List.append_assoc, List.nil_append]
    rw [ihl hleft _ _ _ hbelow, convert_symbol _ _ _ hwaiting hstack, ihr hright _ _ _ hsymbol,
      Functor.map_map, Functor.map_map, ← Spelling.settled_append_waiting]
    simp only [List.append_assoc]
  | group before inner after ih =>
    have hopen : ∀ t ∈ (Spelling.parenthesis '(' position :: stack).head?,
        bindsFirst inner.level t = false := by
      simp [bindsFirst, Token.operation?, Spelling.parenthesis]
    have hfirst : opens (Spelling.parenthesis '(' position) = true := rfl
    have hinner : inner.WellWritten := hs
    have hwaiting :
        ∀ t ∈ inner.waiting (position + 1 + before.chars.length), opens t = false := by
      intro t ht
      exact (binds_of_mem_waiting hinner ht).opens_eq
    simp only [Spelling.tokens, Spelling.settled, Spelling.waiting, List.cons_append,
      List.append_assoc, List.nil_append]
    rw [convert_parenthesis rfl, if_pos hfirst, ih hs _ _ _ hopen, convert_close _ _ _ _ hwaiting,
      Functor.map_map, ← Spelling.settled_append_waiting]
    simp only [List.append_assoc]

end Convert

/-- The tokens of a spelling are brought into its post-order. -/
theorem ofTokens_spelling {s : Spelling} (hs : s.WellWritten) (position : Nat) :
    PostOrder.ofTokens (s.tokens position) = .ok (s.postOrder position) := by
  have hread := convert_spelling hs position [] [] (by simp)
  have hkinds : (s.waiting position).any (·.kind = .parenthesis) = false := by
    rw [List.any_eq_false]
    intro t ht
    simpa using (binds_of_mem_waiting hs ht).kind_ne
  have hlast : PostOrder.convert (s.waiting position) [] = .ok (s.waiting position) := by
    rw [PostOrder.convert, hkinds]
    rfl
  rw [List.append_nil, List.append_nil, hlast] at hread
  rw [PostOrder.ofTokens, hread, ← s.settled_append_waiting position]
  rfl

/-! ## Value -/

theorem combine_eq (op : Operator) (left right : Float) :
    PostOrder.combine op left right =
      if op = .division ∧ (right == 0) = true then .error .divisionByZero
      else .ok (op.apply left right) := by
  cases op <;> simp [PostOrder.combine, Operator.apply]

theorem Tree.dividesByZero_binary (symbol : Symbol) (left right : Tree) :
    (Tree.binary symbol left right).dividesByZero =
      (left.dividesByZero || right.dividesByZero ||
        decide (symbol.op = .division ∧ (right.value == 0) = true)) := by
  unfold Tree.dividesByZero
  by_cases h : symbol.op = .division <;> simp [Tree.divisors, h, Bool.or_assoc]

theorem push_minus (position : Nat) (x : Float) (operands : List Float) :
    PostOrder.push (x :: operands) (Spelling.minus position) = .ok (-x :: operands) :=
  rfl

theorem push_operator (symbol : Symbol) (position : Nat) (left right : Float)
    (operands : List Float) :
    PostOrder.push (right :: left :: operands) (Spelling.operator symbol position) =
      if symbol.op = .division ∧ (right == 0) = true then .error .divisionByZero
      else .ok (symbol.op.apply left right :: operands) := by
  simp only [PostOrder.push, Spelling.operator, symbol.ofSymbol?_singleton, combine_eq]
  split <;> rfl

/-- A spelling leaves its value above the operands that were there before. -/
theorem foldlM_push (s : Spelling) (position : Nat) (operands : List Float) :
    (s.postOrder position).foldlM PostOrder.push operands =
      if s.tree.dividesByZero then .error .divisionByZero
      else .ok (s.tree.value :: operands) := by
  induction s generalizing position operands with
  | numeral n =>
    simp [Spelling.postOrder, Spelling.tree, Tree.dividesByZero, Tree.divisors, Tree.value,
      PostOrder.push, n.read?_text]
  | negation gap operand ih =>
    have htree : (Spelling.negation gap operand).tree.dividesByZero =
        operand.tree.dividesByZero := rfl
    rw [Spelling.postOrder, List.foldlM_append, ih, htree]
    cases operand.tree.dividesByZero
    · exact push_minus position _ operands
    · rfl
  | binary symbol left before after right ihl ihr =>
    rw [Spelling.postOrder, List.foldlM_append, ihl, Spelling.tree, Tree.dividesByZero_binary]
    cases left.tree.dividesByZero
    · change (right.postOrder _ ++ [_]).foldlM PostOrder.push _ = _
      rw [List.foldlM_append, ihr]
      cases right.tree.dividesByZero
      · change [_].foldlM PostOrder.push _ = _
        simp [push_operator, Tree.value]
      · rfl
    · rfl
  | group before inner after ih => exact ih _ operands

/-! ## Main result -/

/-- **Parsing inverts spelling**: an expression that is written with all the parentheses it needs,
and with any blanks, is scanned into the tokens of its spelling; these are brought into the
post-order of the expression; and its value is the value of the expression, unless something in it
is divided by zero. -/
theorem parsing_inverts_spelling {e : Tree} {s : Spelling} (h : s.Writes e)
    (before after : Blanks) :
    Token.ofText (before.chars ++ (s.text ++ after.chars)) = .ok (s.tokens before.chars.length) ∧
      PostOrder.ofTokens (s.tokens before.chars.length) = .ok (s.postOrder before.chars.length) ∧
      (s.postOrder before.chars.length).map Spelling.label = e.postOrder ∧
      PostOrder.value (s.postOrder before.chars.length) =
        if e.dividesByZero then .error .divisionByZero else .ok e.value := by
  obtain ⟨rfl, hs⟩ := h
  refine ⟨?_, ofTokens_spelling hs _, s.map_label_postOrder _, ?_⟩
  · have hend : EndsNumber (after.chars ++ []) := after.endsNumber_append (by simp [EndsNumber])
    have hblank := scan_blanks false (before.chars.length + s.text.length) after []
    have hscan := scan_spelling hs true before.chars.length (.inl rfl) hend
    rw [hblank, scan_nil, List.append_nil] at hscan
    rw [Token.ofText, scan_blanks, Nat.zero_add, hscan]
    simp
  · rw [PostOrder.value, foldlM_push]
    cases s.tree.dividesByZero <;> rfl

/-- The expression `8 - -(2 - 3) % 0.5`, with two signs in a row, a redundant pair of parentheses and
blanks of two kinds. -/
def Spelling.twoSigns : Spelling :=
  let number (whole : Nat) (fraction : List Digit) : Spelling :=
    .numeral ⟨⟨[.ofNat whole], fraction⟩, List.cons_ne_nil _ _⟩
  .binary ⟨'-', .subtraction, rfl⟩ (number 8 []) (.one ' ' rfl) (.one '\t' rfl)
    (.binary ⟨'%', .percentage, rfl⟩
      (.negation .none
        (.group .none (.binary ⟨'-', .subtraction, rfl⟩ (number 2 []) .none .none (number 3 []))
          .none))
      .none (.one ' ' rfl) (.group .none (number 0 [.ofNat 5]) .none))

theorem parsing_inverts_spelling_twoSigns :
    Spelling.twoSigns.Writes Spelling.twoSigns.tree ∧
      ∃ ts post, Token.ofText "8 -\t-(2-3)% (0.5) ".toList = .ok ts ∧
        PostOrder.ofTokens ts = .ok post ∧
        post.map (·.value) = ["8", "2", "3", "-", "-", "0.5", "%", "-"] ∧
        PostOrder.value post = .ok Spelling.twoSigns.tree.value := by
  have hwrites : Spelling.twoSigns.Writes Spelling.twoSigns.tree :=
    ⟨rfl, ⟨trivial, ⟨⟨⟨trivial, trivial, by decide, by decide⟩, by decide, rfl⟩, trivial, by decide,
      by decide⟩, by decide, by decide⟩⟩
  obtain ⟨htokens, horder, -, hvalue⟩ :=
    parsing_inverts_spelling hwrites .none (.one ' ' rfl)
  have hzero : Spelling.twoSigns.tree.dividesByZero = false := by decide +kernel
  rw [hzero] at hvalue
  exact ⟨hwrites, _, _, htokens, horder, by decide +kernel, hvalue⟩

end Expression

end Longhand
