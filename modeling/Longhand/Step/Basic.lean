import Longhand.Number.Basic
import Longhand.Operator
/-!
# Steps

A step of a written calculation: what is done, what the page looks like, and why. A page is a list
of rows of one width; highlights point at cells, and carries and borrows lead from one column to
another. A method produces drafts, and `Step.ofDrafts` numbers them and brings the rows of each to
one width.
-/

namespace Longhand

/-- A row of the page, one character for each cell. -/
abbrev Row := List Char

structure Highlight where
  row : Nat
  column : Nat
  color : String
  description : String
deriving DecidableEq, Repr, Inhabited

/-- The colour of the cells that a step reads. -/
def sourceColor : String := "bg-blue-200"

/-- The colour of the cells that a step writes. -/
def targetColor : String := "bg-green-200"

/-- A carry or a borrow between two columns. -/
structure Transfer where
  fromColumn : Nat
  toColumn : Nat
  value : Int
  description : String
deriving DecidableEq, Repr, Inhabited

inductive Picture where
  | column
  | grid
  | longDivision
  | percentage
  | negation
deriving DecidableEq, Repr, Inhabited

/-- A page. What does not occur on it is told apart from a list that is still empty. -/
structure Layout where
  rows : List Row
  highlights : Option (List Highlight) := none
  carries : Option (List Transfer) := none
  borrows : Option (List Transfer) := none
deriving DecidableEq, Repr, Inhabited

structure Operands where
  left : Number
  right : Option Number
deriving DecidableEq, Repr, Inhabited

/-- A step of a written calculation (`MathStep`). -/
structure Step where
  number : Nat
  description : String
  operation : Operation
  operands : Operands
  result : Number
  picture : Picture
  layout : Layout
  explanation : String
deriving DecidableEq, Repr, Inhabited

/-- A step before it is numbered. Its rows may be of different widths. -/
structure Draft where
  description : String
  picture : Picture
  layout : Layout
  explanation : String
deriving DecidableEq, Repr, Inhabited

namespace Row

def padEnd (width : Nat) (r : Row) : Row :=
  r ++ List.replicate (width - r.length) ' '

def padStart (width : Nat) (r : Row) : Row :=
  List.replicate (width - r.length) ' ' ++ r

def maxWidth (rows : List Row) : Nat :=
  rows.foldl (fun w r => max w r.length) 0

theorem length_padEnd (width : Nat) (r : Row) : (padEnd width r).length = max width r.length := by
  simp only [padEnd, List.length_append, List.length_replicate]
  omega

theorem length_padStart (width : Nat) (r : Row) :
    (padStart width r).length = max width r.length := by
  simp only [padStart, List.length_append, List.length_replicate]
  omega

theorem le_foldl_max (rows : List Row) (w : Nat) :
    w ≤ rows.foldl (fun w r => max w r.length) w ∧
      ∀ r ∈ rows, r.length ≤ rows.foldl (fun w r => max w r.length) w := by
  induction rows generalizing w with
  | nil => simp
  | cons r rows ih =>
    obtain ⟨h, hr⟩ := ih (max w r.length)
    refine ⟨Nat.le_trans (Nat.le_max_left ..) h, fun x hx => ?_⟩
    rcases List.mem_cons.1 hx with rfl | hx
    · exact Nat.le_trans (Nat.le_max_right ..) h
    · exact hr x hx

theorem length_le_maxWidth {rows : List Row} {r : Row} (h : r ∈ rows) :
    r.length ≤ maxWidth rows :=
  (le_foldl_max rows 0).2 r h

def digitColumns (r : Row) : List Nat :=
  (List.range r.length).zip r |>.filterMap fun (i, c) =>
    if '0' ≤ c ∧ c ≤ '9' then some i else none

end Row

/-- The page with all rows brought to the width of the widest. -/
def Layout.squared (l : Layout) : Layout :=
  { l with rows := l.rows.map (Row.padEnd (Row.maxWidth l.rows)) }

/-- All rows of a squared page have one width. -/
theorem Layout.length_of_mem_squared {l : Layout} {r : Row} (h : r ∈ l.squared.rows) :
    r.length = Row.maxWidth l.rows := by
  obtain ⟨x, hx, rfl⟩ := List.mem_map.1 h
  have := Row.length_le_maxWidth hx
  rw [Row.length_padEnd]
  omega

/-- The numbered steps of the drafts of one calculation (`_StepBuilder`). -/
def Step.ofDrafts (operation : Operation) (operands : Operands) (result : Number)
    (drafts : List Draft) : List Step :=
  drafts.mapIdx fun i d =>
    { number := i + 1
      description := d.description
      operation, operands, result
      picture := d.picture
      layout := d.layout.squared
      explanation := d.explanation }

end Longhand
