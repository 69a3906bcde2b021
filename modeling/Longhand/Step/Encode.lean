import Longhand.Json.Basic
import Longhand.Step.Basic
/-!
# Steps as JSON

The JSON form of steps. What does not occur on a page is null.
-/

namespace Longhand

def Picture.name : Picture → String
  | .column => "column"
  | .grid => "grid"
  | .longDivision => "long-division"
  | .percentage => "percentage"
  | .negation => "unary"

def Highlight.toJson (h : Highlight) : Json :=
  .object [("row", .nat h.row), ("column", .nat h.column), ("color", .text h.color),
    ("description", .text h.description)]

def Transfer.toJson (t : Transfer) : Json :=
  .object [("fromColumn", .nat t.fromColumn), ("toColumn", .nat t.toColumn),
    ("value", .int t.value), ("description", .text t.description)]

/-- The JSON form of a list that may be absent. -/
def Json.ofList? (f : α → Json) (l : Option (List α)) : Json :=
  Json.ofOption (fun as => .array (as.map f)) l

def Layout.toJson (l : Layout) : Json :=
  .object [("rows", .array (l.rows.map fun r => .text (String.ofList r))),
    ("highlights", Json.ofList? Highlight.toJson l.highlights),
    ("carries", Json.ofList? Transfer.toJson l.carries),
    ("borrows", Json.ofList? Transfer.toJson l.borrows)]

def Step.toJson (s : Step) : Json :=
  .object [("stepNumber", .nat s.number), ("description", .text s.description),
    ("operation", .text s.operation.name),
    ("operands", .object [("left", .number s.operands.left),
      ("right", Json.ofOption .number s.operands.right)]),
    ("result", .number s.result),
    ("visualData", .object [("type", .text s.picture.name), ("layout", s.layout.toJson)]),
    ("explanation", .text s.explanation)]

end Longhand
