import Longhand.Expression.Extract
import Longhand.Problem.Expression
import Longhand.Service.Log
import Longhand.Service.Message
import Longhand.Step.Encode
/-!
# What the service does

The service parses an expression, finds one in a text, works a calculation given by its operands or
by an expression, and tells that it is well. Each handler gives a reply, the events to be logged and
the calls made to a remote parser.
-/

namespace Longhand.Service

/-- Why a request gets no reply. -/
inductive Failure where
  | arithmetic (e : ArithmeticError)
  /-- A token of a remote parser is no numeral. -/
  | notNumeral (text : String)
  /-- The reply cannot be sent. -/
  | unsendable (why : Json.SendError)
  /-- The answer of a remote parser is nested too deep to be read. -/
  | nestedTooDeep
  /-- The call to a remote parser was ended by the client. -/
  | aborted (exception : String)
  /-- The body of the request, which the reply would repeat, is no text. -/
  | undecodable
deriving DecidableEq, Repr

/-- A reply with what happened on the way to it. -/
structure Handled where
  reply : Reply
  events : List Event := []
  calls : List RemoteCall := []
deriving Inhabited, Repr

/-- A page about the service itself, and the methods by which it is had. -/
structure Page where
  body : String
  allow : String
deriving DecidableEq, Repr, Inhabited

/-- The service as configured and as it runs: its settings, the least gravity that is logged, what a
remote parser would answer, the room there is for nested values, and the pages about the service that
the framework adds under paths of their own. -/
structure App where
  settings : Settings
  threshold : Nat
  remote : RemoteCall → RemoteAnswer
  room : Json.Room
  page? : String → Option Page

namespace App

/-- The service for settings, if their log level is known. -/
def ofSettings? (settings : Settings) (remote : RemoteCall → RemoteAnswer) (room : Json.Room)
    (page? : String → Option Page) : Option App :=
  (LogLevel.threshold? settings.logLevel).map (⟨settings, ·, remote, room, page?⟩)

end App

/-! ## Handlers -/

def missingParam (name : String) : Handled :=
  ⟨.ofIssues (fun _ => .null) [⟨["query", name], .missing⟩], [], []⟩

/-- A local parse, and the event of its failure. -/
def parseLocally (app : App) (s : List Char) :
    Except Failure (ParseResult × List Event) :=
  match Expression.parse app.settings.limits s with
  | .error e => .error (.arithmetic e)
  | .ok (.valid ts result) => .ok (.valid ts result, [])
  | .ok (.invalid ts message code) =>
    .ok (.invalid ts message code, [.parseFailed (code.getD "") message])

/-- `GET /parse`: the parse result of an expression. It is always found here, never asked of a
remote parser. -/
def handleParse (app : App) (query : String) : Except Failure Handled := do
  let (result, events) ← parseLocally app query.toList
  .ok ⟨.model result.toJson.withoutNulls, events, []⟩

/-- `GET /extract`: the expression found in a text. -/
def handleExtract (text : String) : Handled :=
  let found := (Expression.extract? text.toList).map String.ofList
  ⟨.model (.object [("text", .text text), ("expression", Json.ofOption .text found)]), [], []⟩

/-- The steps, with the expression that they work if there is one. -/
def stepsBody (expression : Option String) (steps : List Step) : Json :=
  (Json.object [("expression", Json.ofOption .text expression),
    ("steps", .array (steps.map Step.toJson))]).withoutNulls

def stepFault (id : String) (f : StepFault) : Reply :=
  .ofError id 422 StepFault.code (.text f.message) f.details

/-- The code of a parse failure; an empty one does not count. -/
def failureCode (code : Option String) : String :=
  match code with
  | some c => if c.isEmpty then "EXPRESSION_ERROR" else c
  | none => "EXPRESSION_ERROR"

/-- The steps of a parsed expression. -/
def stepsOfResult (id query : String) : ParseResult → Except Failure Handled
  | .invalid _ message code => .ok ⟨.ofError id 400 (failureCode code) (.text message) [], [], []⟩
  | .valid ts result =>
    match (ParseResult.valid ts result).task with
    | .error (.fault f) => .ok ⟨stepFault id f, [], []⟩
    | .error (.arithmetic e) => .error (.arithmetic e)
    | .error (.notNumeral text) => .error (.notNumeral text)
    | .ok task =>
      match task.steps with
      | .error e => .error (.arithmetic e)
      | .ok steps =>
        let events : List Event :=
          match task with
          | .problem p => [.stepsGenerated p.operation steps.length]
          | .numeral _ => []
        .ok ⟨.model (stepsBody (some query) steps), events, []⟩

/-- The steps of an expression that is parsed here. -/
def stepsLocally (app : App) (id query : String) : Except Failure Handled := do
  let (result, events) ← parseLocally app query.toList
  let h ← stepsOfResult id query result
  .ok { h with events := events ++ h.events }

def remoteFault (id : String) (f : RemoteFault) : Reply :=
  .ofError id 502 RemoteFault.code f.message f.details

/-- The value of the first operator among the tokens in the JSON form of a parse result. -/
def sentOperator? (sent : Json) : Option Json := do
  let items ← match sent.get? "tokens" with
    | some (.array items) => some items
    | _ => none
  let operator ← items.find? fun t =>
    match t.get? "type" with
    | some (.text name) => name = TokenKind.operator.name
    | _ => false
  operator.get? "value"

/-- The texts that the steps of a parse result repeat, as they were sent: what is wrong with the
expression, or an operation that is not known. -/
def repeated (sent : Json) : ParseResult → List Json
  | .invalid _ _ _ => (sent.get? "error").toList ++ (sent.get? "errorType").toList
  | .valid ts result =>
    match (ParseResult.valid ts result).task with
    | .error (.fault (.unsupported _)) => (sentOperator? sent).toList
    | _ => []

/-- Whether the steps of a parse result, sent as JSON, repeat a text with half a pair alone in it. -/
def repeatsUnpaired (sent? : Option Json) (result : ParseResult) : Bool :=
  match sent? with
  | some sent => (repeated sent result).any (·.isUnpaired)
  | none => false

/-- The steps of an expression that a remote parser parses. -/
def stepsRemotely (app : App) (parser : RemoteParser) (id query : String) :
    Except Failure Handled :=
  let calls := (parser.call? query.toList).toList
  match parser.parse app.room.reading app.remote query.toList with
  | .error (.fault f) =>
    let events := match f with
      | .unavailable => [Event.parserUnavailable parser.url]
      | _ => []
    .ok ⟨remoteFault id f, events, calls⟩
  | .error .nestedTooDeep => .error .nestedTooDeep
  | .error (.aborted exception) => .error (.aborted exception)
  | .ok result => do
    let h ← stepsOfResult id query result
    if repeatsUnpaired (parser.sent? app.room.reading app.remote query.toList) result then
      .error (.unsendable .unpaired)
    else .ok { h with calls := calls ++ h.calls }

/-- `GET /steps`: the steps of an expression. A remote parser must be configured before the query is
looked at. -/
def handleExpressionSteps (app : App) (id : String) (query : Option String) :
    Except Failure Handled :=
  match app.settings.parserMode with
  | .local =>
    match query with
    | none => .ok (missingParam "query")
    | some query => stepsLocally app id query
  | .remote =>
    match RemoteParser.ofSettings app.settings with
    | .error f => .ok ⟨remoteFault id f, [], []⟩
    | .ok parser =>
      match query with
      | none => .ok (missingParam "query")
      | some query => stepsRemotely app parser id query

/-! ## A calculation given by its operands -/

/-- An operation with its operands, as sent. -/
structure Task where
  operation : String
  left : Float
  right : Option Float
deriving DecidableEq, Repr, Inhabited

namespace Task

open Checked

/-- The name of an operation, which must not be empty. -/
def readOperation (j : Json) : Checked String := do
  let s ← Read.string j
  if j.isUnpaired then fail .stringUnicode
  else if s.isEmpty then fail .stringTooShort
  else .ok s

def ofFields (ms : List (String × Json)) : Checked Task :=
  (fun (operation, left, right) => ⟨operation, left, right⟩) <$>
    both (Read.required ms "operation" readOperation)
      (both (Read.required ms "left" Read.float)
        (Read.optional ms "right" none (Read.nullable Read.float)))

def read : Json → Checked Task
  | .null => fail .missing
  | .object ms => ofFields ms
  | _ => fail .modelAttributesType

def problem (t : Task) : Except StepError Problem :=
  Problem.ofTask (.written t.operation) (.number (.float t.left))
    (t.right.map fun x => .number (.float x))

end Task

/-- What was sent where an issue with a value is: a part of it, or all of it where a part is missing. -/
def inputOf (j : Json) (i : Issue) : Json :=
  match i.loc with
  | [_, name] => if i.kind = .missing then j else (j.get? name).getD j
  | _ => j

/-- A request is refused for issues with a value, unless what is to be repeated of that is nested too
deep. -/
def refuse (app : App) (j : Json) (issues : List Issue) : Except Failure Handled :=
  if issues.any fun i => app.room.repeating < (inputOf j i).depth then
    .error (.unsendable .nestedTooDeep)
  else .ok ⟨.ofIssues (inputOf j) issues, [], []⟩

/-- The steps of a task given as JSON. A task that cannot be worked is logged. -/
def handleTask (app : App) (id : String) (j : Json) : Except Failure Handled :=
  match (Task.read j).within "body" with
  | .error issues => refuse app j issues
  | .ok task =>
    match task.problem with
    | .error (.fault f) =>
      .ok ⟨stepFault id f, [.stepsRejected task.operation f.message], []⟩
    | .error (.arithmetic e) => .error (.arithmetic e)
    | .error (.notNumeral text) => .error (.notNumeral text)
    | .ok p =>
      .ok ⟨.model (stepsBody none p.steps), [.stepsGenerated p.operation p.steps.length], []⟩

/-- `POST /steps`: the steps of a calculation. A body that is not declared to be JSON is taken for a
text, which is no task. -/
def handleSteps (app : App) (id : String) (r : Request) : Except Failure Handled :=
  if r.body.isEmpty then refuse app .null [⟨["body"], .missing⟩]
  else if r.declaresJson then
    match Json.readOctets app.room.reading r.body with
    | .ok j => handleTask app id j
    | .error (.syntaxAt position) =>
      refuse app (.object []) [⟨["body", String.ofList (intText position)], .jsonInvalid⟩]
    | .error _ => .ok ⟨.detail 400 "There was an error parsing the body", [], []⟩
  else
    match Text.ofUtf8? r.body with
    | some s => refuse app (.text s) [⟨["body"], .modelAttributesType⟩]
    | none => .error .undecodable

/-! ## Routes -/

inductive Route where
  | parse
  | extract
  | steps
  | expressionSteps
  | health
deriving DecidableEq, Repr, Inhabited

/-- The paths with their methods, in the order in which they are looked at. -/
def routes : List (String × String × Route) :=
  [("/parse", "GET", .parse), ("/extract", "GET", .extract), ("/steps", "POST", .steps),
   ("/steps", "GET", .expressionSteps), ("/health", "GET", .health)]

/-- The path without the slashes at its end, if there is something under it. -/
def redirect? (app : App) (path : String) : Option String :=
  let short := Settings.withoutSlashes path
  if short ≠ path ∧ (routes.any (·.1 = short) ∨ (app.page? short).isSome) then some short else none

def pageReply (method : String) (page : Page) : Reply :=
  if method = "GET" ∨ method = "HEAD" then { status := 200, body := .text page.body }
  else { Reply.detail 405 "Method Not Allowed" with allow := some page.allow }

/-- The reply to a request that is for nothing the service does: for a page, for a path whose methods
do not include that of the request, or for a path with nothing under it. -/
def unrouted (app : App) (r : Request) : Reply :=
  match routes.find? (·.1 = r.path) with
  | some (_, method, _) => { Reply.detail 405 "Method Not Allowed" with allow := some method }
  | none =>
    match app.page? r.path with
    | some page => pageReply r.method page
    | none =>
      match redirect? app r.path with
      | some location => { status := 307, body := .text "", location }
      | none => .detail 404 "Not Found"

/-- The answer to a request with an id. -/
def dispatch (app : App) (id : String) (r : Request) : Except Failure Handled :=
  match routes.find? fun x => x.1 = r.path ∧ x.2.1 = r.method with
  | none => .ok ⟨unrouted app r, [], []⟩
  | some (_, _, route) =>
    match route with
    | .parse =>
      match r.param? "query" with
      | some query => handleParse app query
      | none => .ok (missingParam "query")
    | .extract =>
      match r.param? "text" with
      | some text => .ok (handleExtract text)
      | none => .ok (missingParam "text")
    | .steps => handleSteps app id r
    | .expressionSteps => handleExpressionSteps app id (r.param? "query")
    | .health => .ok ⟨.model (.object [("status", .text "ok")]), [], []⟩

end Longhand.Service
