import Longhand.Column.Pass
/-!
# Column addition and subtraction

The pages of an addition with carries and of a subtraction with borrows: the numerals aligned, one
page for each digit column, and the answer with its needless zeros blanked. A subtraction whose top
number is the smaller one is worked with the numbers exchanged and answered with a minus.
-/

namespace Longhand.Column

/-- The two calculations that go over the columns, each a `_ColumnFamily`. -/
inductive Method where
  | addition
  | subtraction
deriving DecidableEq, Repr, Inhabited

namespace Method

def symbol : Method → Char
  | .addition => '+'
  | .subtraction => '-'

def verb : Method → String
  | .addition => "Add"
  | .subtraction => "Subtract"

def rule : Method → Rule
  | .addition => carryRule
  | .subtraction => borrowRule

end Method

/-! ## What is said about a column -/

def shown (n : Int) : String :=
  String.ofList (intText n)

/-- The words for a column: at the digits read, at the digit written, and in full. -/
structure Narration where
  source : String
  target : String
  explanation : String
deriving DecidableEq, Repr

def narrateAddition (e : Entry) : Narration :=
  let total := shown (e.top + e.bottom + e.incoming)
  let digit := shown e.digit
  let sum := shown e.top ++ " + " ++ shown e.bottom
  let terms := if e.incoming = 0 then sum else sum ++ " + " ++ shown e.incoming
  let note := if e.incoming = 0 then "" else " (carry)"
  let full := s!"{terms}{note} = {total}. Write {digit}"
  let carried := shown e.outgoing
  { source := s!"Add {terms} = {total}"
    target := if e.outgoing = 0 then s!"Write {digit}" else s!"Write {digit}, carry {carried}"
    explanation := if e.outgoing = 0 then full ++ "." else s!"{full} and carry {carried}." }

def narrateSubtraction (a : Alignment) (e : Entry) : Narration :=
  let available := e.top - e.incoming
  let bottom := shown e.bottom
  let digit := shown e.digit
  let lent := shown e.top ++ " - 1 (lent) = " ++ shown available
  let top := if e.incoming = 0 then shown e.top else lent
  let taken := if e.outgoing = 0 then available else available + 10
  let difference := shown taken ++ s!" - {bottom} = {digit}"
  let place := a.place e.next
  { source := difference
    target := s!"Write {digit}"
    explanation :=
      if e.outgoing ≠ 0 then
        s!"{top} is smaller than {bottom}, so borrow 1 from the {place} column: {difference}."
      else if e.incoming ≠ 0 then s!"{top}; {difference}."
      else s!"{difference}." }

def narrate (m : Method) (a : Alignment) (e : Entry) : Narration :=
  match m with
  | .addition => narrateAddition e
  | .subtraction => narrateSubtraction a e

/-- The carry or borrow that a column sends out. -/
def transfer (m : Method) (a : Alignment) (e : Entry) : Transfer :=
  match m with
  | .addition =>
    let place := a.place e.next
    let target := if e.next = 0 then "the next column" else s!"the {place} column"
    let carried := shown e.outgoing
    ⟨e.column, e.next, e.outgoing, s!"Carry {carried} to {target}"⟩
  | .subtraction =>
    let place := a.place e.next
    ⟨e.next, e.column, 1, s!"Borrow 1 from the {place} column"⟩

/-! ## The pages -/

/-- The result row so far, and the carries or borrows so far. -/
structure Progress where
  cells : Row
  transfers : List Transfer
deriving DecidableEq, Repr, Inhabited

def digitChar (n : Int) : Char :=
  Nat.digitChar n.toNat

/-- Nothing written but the point. -/
def Progress.start (a : Alignment) : Progress :=
  let blank := List.replicate a.width ' '
  ⟨match a.pointColumn? with
    | some p => blank.set p '.'
    | none => blank, []⟩

/-- The progress after a column. What goes out of the last column is written into column 0. -/
def Progress.write (m : Method) (a : Alignment) (p : Progress) (e : Entry) : Progress :=
  let cells := p.cells.set e.column (digitChar e.digit)
  if e.outgoing = 0 then { p with cells }
  else
    ⟨if e.next = 0 then cells.set 0 (digitChar e.outgoing) else cells,
      p.transfers ++ [transfer m a e]⟩

def Progress.finish (m : Method) (a : Alignment) : Progress :=
  (passAll m.rule a).foldl (Progress.write m a) (Progress.start a)

/-- The two numerals and the line below them. -/
def header (m : Method) (a : Alignment) : List Row :=
  [' ' :: a.row a.top, m.symbol :: a.row a.bottom, List.replicate a.width '-']

/-- A page with the carries or borrows in their place. -/
def page (m : Method) (rows : List Row) (highlights : Option (List Highlight))
    (transfers : List Transfer) : Layout :=
  match m with
  | .addition => { rows, highlights, carries := some transfers }
  | .subtraction => { rows, highlights, borrows := some transfers }

/-- The page on which a column has just been written. -/
def columnDraft (m : Method) (a : Alignment) (p : Progress) (e : Entry) : Draft :=
  let words := narrate m a e
  let verb := m.verb
  let place := a.place e.column
  { description := s!"{verb} the {place} column"
    picture := .column
    layout := page m (header m a ++ [p.cells])
      (some [⟨0, e.column, sourceColor, words.source⟩, ⟨1, e.column, sourceColor, ""⟩,
        ⟨3, e.column, targetColor, words.target⟩]) p.transfers
    explanation := words.explanation }

/-- The pages of the columns, with the progress before them. -/
def columnDrafts (m : Method) (a : Alignment) : Progress → List Entry → List Draft
  | _, [] => []
  | p, e :: rest =>
    let p := p.write m a e
    columnDraft m a p e :: columnDrafts m a p rest

/-- The row with the zeros and blanks among its first `n` cells blanked, up to the first other
digit. -/
def blankLeading : Nat → Row → Row
  | n + 1, c :: rest => if c = '0' ∨ c = ' ' then ' ' :: blankLeading n rest else c :: rest
  | _, row => row

/-- The row with a minus in the last blank before its first other cell. -/
def signFirst : Row → Row
  | ' ' :: ' ' :: rest => ' ' :: signFirst (' ' :: rest)
  | ' ' :: rest => '-' :: rest
  | row => row

/-- The result row of the answer, as `_finish_result_row` leaves it: no zero before the ones is
shown in front. -/
def answerRow (a : Alignment) (negative : Bool) (cells : Row) : Row :=
  let row := blankLeading a.unitsColumn cells
  if negative then signFirst row else row

/-- The pages of an addition or subtraction. `exchanged` holds the two operands as text if the
numbers were exchanged, and `answer` is the answer as text. -/
def drafts (m : Method) (a : Alignment) (exchanged : Option (String × String)) (answer : String) :
    List Draft :=
  let note := "Write the numbers one above the other, aligning the digits by place value."
  let (alignNote, finalNote) :=
    match exchanged with
    | some (left, right) =>
      (s!"{note} {left} is smaller than {right}, so subtract the smaller number from the " ++
        "larger one and make the answer negative.",
       s!"{left} is smaller than {right}, so the final answer is {answer}.")
    | none => (note, s!"The final answer is {answer}.")
  let last := Progress.finish m a
  ⟨"Align the numbers vertically", .column, { rows := header m a }, alignNote⟩ ::
    columnDrafts m a (Progress.start a) (passAll m.rule a) ++
    [⟨"Final answer", .column,
      page m (header m a ++ [answerRow a exchanged.isSome last.cells]) none last.transfers,
      finalNote⟩]

end Longhand.Column
