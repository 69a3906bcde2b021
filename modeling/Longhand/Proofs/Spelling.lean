import Longhand.Double.Text
import Longhand.Numeral
import Longhand.Text.Blank
import Longhand.Token
/-!
# Expressions and their spellings

An expression is a tree of numerals, negations and binary operations. A spelling is a way to write
it down: the characters of its operators, the blanks between its parts and the parentheses around
them. `Spelling.WellWritten` tells which parentheses may not be missing; any others may be there.
-/

namespace Longhand

/-- The value of an operator on two doubles, a division by zero included. -/
def Operator.apply (op : Operator) (left right : Float) : Float :=
  match op with
  | .addition => left + right
  | .subtraction => left - right
  | .multiplication => left * right
  | .division => left / right
  | .percentage => left * (right / 100)

theorem Operator.precedence_lt_negation (op : Operator) :
    op.precedence < Operation.negation.precedence := by
  cases op <;> decide

namespace Expression

/-- An unsigned numeral: digits, with a point and more digits if it has a fraction. -/
structure Literal where
  numeral : Numeral
  integer_ne_nil : numeral.integer ≠ []

/-- A character that stands for a binary operator. -/
structure Symbol where
  char : Char
  op : Operator
  spells : Operator.ofChar? char = some op

/-- Blanks, or none. -/
structure Blanks where
  chars : List Char
  blank : ∀ c ∈ chars, Text.isBlank c = true

def Blanks.none : Blanks :=
  ⟨[], fun _ h => nomatch h⟩

def Blanks.one (c : Char) (h : Text.isBlank c = true) : Blanks :=
  ⟨[c], fun _ hx => List.mem_singleton.1 hx ▸ h⟩

/-! ## Trees -/

inductive Tree where
  | numeral (n : Literal)
  | negation (operand : Tree)
  | binary (symbol : Symbol) (left right : Tree)

namespace Tree

/-- The operands and operators, each operator after its operands. -/
def postOrder : Tree → List (TokenKind × String)
  | numeral n => [(.number, String.ofList n.numeral.text)]
  | negation operand => operand.postOrder ++ [(.unaryMinus, "-")]
  | binary symbol left right =>
    left.postOrder ++ right.postOrder ++ [(.operator, String.singleton symbol.char)]

/-- The value in doubles, worked out from the operands to the whole. -/
def value : Tree → Float
  | numeral n => Double.ofDecimal n.numeral.toDecimal
  | negation operand => -operand.value
  | binary symbol left right => symbol.op.apply left.value right.value

/-- The expressions by which something is divided. -/
def divisors : Tree → List Tree
  | numeral _ => []
  | negation operand => operand.divisors
  | binary symbol left right =>
    left.divisors ++ right.divisors ++ if symbol.op = .division then [right] else []

def dividesByZero (e : Tree) : Bool :=
  e.divisors.any fun r => r.value == 0

end Tree

/-! ## Spellings -/

/-- An expression as it is written down. -/
inductive Spelling where
  | numeral (n : Literal)
  | negation (gap : Blanks) (operand : Spelling)
  | binary (symbol : Symbol) (left : Spelling) (before after : Blanks) (right : Spelling)
  | group (before : Blanks) (inner : Spelling) (after : Blanks)

namespace Spelling

def tree : Spelling → Tree
  | numeral n => .numeral n
  | negation _ operand => .negation operand.tree
  | binary symbol left _ _ right => .binary symbol left.tree right.tree
  | group _ inner _ => inner.tree

def text : Spelling → List Char
  | numeral n => n.numeral.text
  | negation gap operand => '-' :: (gap.chars ++ operand.text)
  | binary symbol left before after right =>
    left.text ++ (before.chars ++ symbol.char :: (after.chars ++ right.text))
  | group before inner after =>
    '(' :: (before.chars ++ (inner.text ++ (after.chars ++ [')'])))

/-- How tightly the outermost operation of a spelling binds; numerals and parentheses bind more
tightly than every operation. -/
def level : Spelling → Nat
  | numeral _ | group _ _ _ => Operation.negation.precedence + 1
  | negation _ _ => Operation.negation.precedence
  | binary symbol _ _ _ _ => symbol.op.precedence

def isNegation : Spelling → Bool
  | negation _ _ => true
  | _ => false

/-- Parentheses stand wherever an operand binds less tightly than its operation, where the right
operand binds just as tightly, and between two signs. -/
def WellWritten : Spelling → Prop
  | numeral _ => True
  | negation _ operand =>
    operand.WellWritten ∧ Operation.negation.precedence ≤ operand.level ∧
      operand.isNegation = false
  | binary symbol left _ _ right =>
    left.WellWritten ∧ right.WellWritten ∧ symbol.op.precedence ≤ left.level ∧
      symbol.op.precedence < right.level
  | group _ inner _ => inner.WellWritten

/-- The spelling writes an expression, with all the parentheses that it needs. -/
structure Writes (s : Spelling) (e : Tree) : Prop where
  tree_eq : s.tree = e
  wellWritten : s.WellWritten

/-- Every expression can be written, for instance with parentheses around every operand. -/
theorem exists_writes (e : Tree) : ∃ s : Spelling, s.Writes e := by
  induction e with
  | numeral n => exact ⟨.numeral n, rfl, trivial⟩
  | negation operand ih =>
    obtain ⟨s, rfl, hs⟩ := ih
    exact ⟨.negation .none (.group .none s .none), rfl, hs, Nat.le_succ _, rfl⟩
  | binary symbol left right ihl ihr =>
    obtain ⟨l, rfl, hl⟩ := ihl
    obtain ⟨r, rfl, hr⟩ := ihr
    have hlt := symbol.op.precedence_lt_negation
    refine ⟨.binary symbol (.group .none l .none) .none .none (.group .none r .none), rfl, hl,
      hr, ?_, ?_⟩
    · exact Nat.le_succ_of_le (Nat.le_of_lt hlt)
    · exact Nat.lt_succ_of_lt hlt

def minus (position : Nat) : Token :=
  ⟨.unaryMinus, "-", position⟩

def operator (symbol : Symbol) (position : Nat) : Token :=
  ⟨.operator, String.singleton symbol.char, position⟩

def parenthesis (c : Char) (position : Nat) : Token :=
  ⟨.parenthesis, String.singleton c, position⟩

/-- The tokens of a spelling whose first character has a position, from left to right. -/
def tokens (position : Nat) : Spelling → List Token
  | numeral n => [⟨.number, String.ofList n.numeral.text, position⟩]
  | negation gap operand =>
    minus position :: operand.tokens (position + 1 + gap.chars.length)
  | binary symbol left before after right =>
    let place := position + left.text.length + before.chars.length
    left.tokens position ++
      operator symbol place :: right.tokens (place + 1 + after.chars.length)
  | group before inner after =>
    let first := position + 1 + before.chars.length
    parenthesis '(' position ::
      (inner.tokens first ++ [parenthesis ')' (first + inner.text.length + after.chars.length)])

/-- The tokens of a spelling in post-order. -/
def postOrder (position : Nat) : Spelling → List Token
  | numeral n => [⟨.number, String.ofList n.numeral.text, position⟩]
  | negation gap operand =>
    operand.postOrder (position + 1 + gap.chars.length) ++ [minus position]
  | binary symbol left before after right =>
    let place := position + left.text.length + before.chars.length
    left.postOrder position ++
      (right.postOrder (place + 1 + after.chars.length) ++ [operator symbol place])
  | group before inner _ => inner.postOrder (position + 1 + before.chars.length)

/-- What a token is and how it is written, wherever it stands. -/
def label (t : Token) : TokenKind × String :=
  (t.kind, t.value)

/-- Blanks and parentheses leave no trace in the post-order. -/
theorem map_label_postOrder (s : Spelling) (position : Nat) :
    (s.postOrder position).map label = s.tree.postOrder := by
  induction s generalizing position with
  | numeral n => rfl
  | negation gap operand ih => simp [postOrder, tree, Tree.postOrder, ih, label, minus]
  | binary symbol left before after right ihl ihr =>
    simp [postOrder, tree, Tree.postOrder, ihl, ihr, label, operator]
  | group before inner after ih => simp [postOrder, tree, ih]

end Spelling

end Expression

end Longhand
