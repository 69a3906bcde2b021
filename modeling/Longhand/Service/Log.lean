import Longhand.Json.Basic
import Longhand.Operator
import Longhand.Text.Blank
/-!
# The log

What the service writes down while it answers a request. An event is written only if it is at least
as grave as the configured level, and every record carries the id of the request.
-/

namespace Longhand.Service

inductive LogLevel where
  | debug
  | info
  | warning
  | error
deriving DecidableEq, Repr, Inhabited

namespace LogLevel

def name : LogLevel → String
  | .debug => "DEBUG"
  | .info => "INFO"
  | .warning => "WARNING"
  | .error => "ERROR"

def gravity : LogLevel → Nat
  | .debug => 10
  | .info => 20
  | .warning => 30
  | .error => 40

/-- The names by which the least gravity to be logged can be configured. -/
def thresholds : List (String × Nat) :=
  [("CRITICAL", 50), ("FATAL", 50), ("ERROR", 40), ("WARN", 30), ("WARNING", 30), ("INFO", 20),
   ("DEBUG", 10), ("NOTSET", 0)]

/-- The capital of a letter, if it is one of A to Z; the dotless i and the long s have such a
capital too. -/
def capital (c : Char) : Char :=
  if c = 'ı' then 'I' else if c = 'ſ' then 'S' else c.toUpper

/-- The least gravity to be logged, by its name in letters of either case. -/
def threshold? (name : String) : Option Nat :=
  thresholds.lookup (String.ofList (name.toList.map capital))

end LogLevel

/-- Something worth writing down. -/
inductive Event where
  | requestStart (method path : String)
  | requestEnd (method path : String) (status : Nat)
  /-- A request ends without an answer. -/
  | requestCut (method path : String)
  | parseFailed (code message : String)
  | stepsGenerated (operation : Operation) (count : Nat)
  | stepsRejected (operation message : String)
  | parserUnavailable (url : String)
deriving DecidableEq, Repr, Inhabited

namespace Event

def level : Event → LogLevel
  | .requestStart _ _ | .requestEnd _ _ _ | .requestCut _ _ | .parseFailed _ _ => .info
  | .stepsGenerated _ _ => .debug
  | .stepsRejected _ _ => .error
  | .parserUnavailable _ => .warning

def source : Event → String
  | .requestStart _ _ | .requestEnd _ _ _ | .requestCut _ _ => "mathstepper.request"
  | .parseFailed _ _ => "mathstepper.parser"
  | .stepsGenerated _ _ => "mathstepper.steps"
  | .stepsRejected _ _ => "mathstepper.api.steps"
  | .parserUnavailable _ => "mathstepper.parser_http"

def message : Event → String
  | .requestStart _ _ => "request.start"
  | .requestEnd _ _ _ | .requestCut _ _ => "request.end"
  | .parseFailed _ _ => "parse.failed"
  | .stepsGenerated _ _ => "steps.generated"
  | .stepsRejected _ _ => "steps.rejected"
  | .parserUnavailable _ => "parser_http.unavailable"

def fields : Event → List (String × Json)
  | .requestStart method path | .requestCut method path =>
    [("path", .text path), ("method", .text method)]
  | .requestEnd method path status =>
    [("path", .text path), ("method", .text method), ("status_code", .nat status)]
  | .parseFailed code message => [("error_type", .text code), ("error_message", .text message)]
  | .stepsGenerated operation count =>
    [("operation", .text operation.name), ("step_count", .nat count)]
  | .stepsRejected operation message =>
    [("operation", .text operation), ("error_message", .text message)]
  | .parserUnavailable url => [("url", .text url)]

end Event

/-- An event with the id of the request during which it happened. -/
structure Record where
  requestId : String
  event : Event
deriving DecidableEq, Repr, Inhabited

/-- The records of events that are grave enough. -/
def records (threshold : Nat) (requestId : String) (events : List Event) : List Record :=
  (events.filter fun e => threshold ≤ e.level.gravity).map (⟨requestId, ·⟩)

/-- What everything that is done for a request can read: the id that is bound, if one is. -/
structure Context where
  bound : Option String := none
deriving DecidableEq, Repr, Inhabited

namespace Context

/-- The context with an id bound, and what was bound before (`bind_request_id`). -/
def bind (c : Context) (id : String) : Context × Option String :=
  ({ c with bound := some id }, c.bound)

/-- The context with what was bound before bound again (`unbind_request_id`). -/
def unbind (c : Context) (before : Option String) : Context :=
  { c with bound := before }

def id (c : Context) : String :=
  c.bound.getD ""

/-- The records of events. A dash stands for the id if none is bound. -/
def records (c : Context) (threshold : Nat) (events : List Event) : List Record :=
  Service.records threshold (if c.id.isEmpty then "-" else c.id) events

end Context

end Longhand.Service
