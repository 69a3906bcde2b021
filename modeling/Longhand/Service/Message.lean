import Longhand.Remote
import Longhand.Text.Blank
/-!
# Requests and replies

What a client sends and what it gets back, as far as the service looks at it.
-/

namespace Longhand.Service

/-- A request. Names of headers count without regard to case. -/
structure Request where
  method : String
  path : String
  params : List (String × String) := []
  headers : List (String × String) := []
  body : List UInt8 := []
deriving Inhabited, Repr

namespace Request

/-- The value of a header; the name is given in lower case. -/
def header? (r : Request) (name : String) : Option String :=
  (r.headers.find? fun h => String.ofList (Text.lower h.1.toList) = name).map (·.2)

/-- The value of a query parameter; the last one counts. -/
def param? (r : Request) (name : String) : Option String :=
  r.params.reverse.lookup name

/-- Whether the body is declared to be JSON, as it is if nothing else is said. -/
def declaresJson (r : Request) : Bool :=
  match r.header? "content-type" with
  | none => true
  | some s =>
    if s.isEmpty then true
    else
      let kind := Text.trim ((Text.lower s.toList).takeWhile (· ≠ ';'))
      let main := kind.takeWhile (· ≠ '/')
      let sub := (kind.dropWhile (· ≠ '/')).tail
      main = "application".toList && !sub.contains '/' &&
        (sub = "json".toList || "+json".toList.isSuffixOf sub)

end Request

/-- The body of a reply. -/
inductive ReplyBody where
  /-- A value of the form that is declared for the answer. It is always sent, with null in place of a
  number that is not finite. -/
  | model (j : Json)
  | json (j : Json)
  | text (s : String)
deriving Inhabited, Repr

namespace ReplyBody

def sent : ReplyBody → ReplyBody
  | .model j => .json j.standard
  | body => body

/-- Why a body cannot be sent, where there is room for so many nested values. -/
def sendError? (body : ReplyBody) (room : Nat) : Option Json.SendError :=
  match body with
  | .json j => j.sendError? room
  | .model _ | .text _ => none

end ReplyBody

/-- A reply before the headers for web origins and the request id are put in. -/
structure Reply where
  status : Nat
  body : ReplyBody
  /-- The method that would be allowed. -/
  allow : Option String := none
  /-- The path where the answer is found instead. -/
  location : Option String := none
deriving Inhabited, Repr

namespace Reply

def json (status : Nat) (j : Json) : Reply :=
  { status, body := .json j }

/-- The answer to what was asked, in the form declared for it. -/
def model (j : Json) : Reply :=
  { status := 200, body := .model j }

/-- A reply that says in words what is wrong. -/
def detail (status : Nat) (message : String) : Reply :=
  json status (.object [("detail", .text message)])

/-- The reply to a request that cannot be read. It repeats what was sent where the issue is. -/
def ofIssues (input : Issue → Json) (issues : List Issue) : Reply :=
  let item := fun (i : Issue) =>
    Json.object [("loc", .array (i.loc.map .text)), ("type", .text i.kind.name), ("input", input i)]
  json 422 (.object [("detail", .array (issues.map item))])

/-- The reply that tells an error of the service, with the id of the request
(`AppError.to_payload`). -/
def ofError (traceId : String) (status : Nat) (code : String) (message : Json)
    (details : List (String × Json)) : Reply :=
  let details := if details.isEmpty then [] else [("details", Json.object details)]
  json status (.object [("error", .object
    ([("type", .text code), ("message", message)] ++ details ++ [("traceId", .text traceId)]))])

end Reply

end Longhand.Service
