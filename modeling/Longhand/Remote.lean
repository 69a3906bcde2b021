import Longhand.Expression.Encode
import Longhand.Json.Read
import Longhand.Settings.Basic
/-!
# The remote parser

Parsing can be left to another service, which is asked once for each expression that is not blank.
Its answer is a parse result only if it succeeds and its body is one; almost everything else is a
fault. Two things are not caught: the client may end the call in its own way, as it does for an
address that it cannot use, and a body may be nested too deep to be read.
-/

namespace Longhand

/-- What comes of a call to a remote service. -/
inductive RemoteAnswer where
  | unreachable
  /-- The client ends the call with an exception that does not count as a failed request. -/
  | aborted (exception : String)
  | answered (status : Nat) (body : List UInt8)
deriving Inhabited, Repr

/-- What is asked of a remote parser: the address, the expression, and how long to wait. -/
structure RemoteCall where
  url : String
  query : String
  timeout : Number
deriving DecidableEq, Repr, Inhabited

/-- Why a remote parser gave no parse result: an `ExpressionParserHttpError`. -/
inductive RemoteFault where
  /-- No address is configured. -/
  | unconfigured
  | unavailable
  /-- The remote service failed, with its own message if it gave one. -/
  | failed (message : Option Json) (status : Nat)
  /-- The body is no parse result. -/
  | unreadable
deriving Repr

namespace RemoteFault

/-- The message for the reader; a remote service may have sent something else than text. -/
def message : RemoteFault → Json
  | .unconfigured => .text "PARSER_HTTP_BASE_URL is not configured."
  | .unavailable => .text "Parser service is unavailable."
  | .failed (some j) _ => j
  | .failed none _ => .text "Parser request failed."
  | .unreadable => .text "Parser response was not a valid parse result."

def details : RemoteFault → List (String × Json)
  | .failed _ status => [("status", .nat status)]
  | _ => []

def code : String := "PARSER_HTTP_ERROR"

end RemoteFault

/-- Why a call ends without a parse result. -/
inductive RemoteError where
  | fault (f : RemoteFault)
  /-- The body of the answer is nested too deep to be read. -/
  | nestedTooDeep
  | aborted (exception : String)
deriving Repr

/-- A remote parser (`ExpressionParserHttpService`). -/
structure RemoteParser where
  baseUrl : String
  timeout : Number
deriving DecidableEq, Repr, Inhabited

namespace RemoteParser

/-- The remote parser that is configured. -/
def ofSettings (s : Settings) : Except RemoteFault RemoteParser :=
  let url := s.parserBaseUrl.getD ""
  if url.isEmpty then .error .unconfigured
  else .ok ⟨Settings.withoutSlashes url, .float s.parserTimeout⟩

def url (p : RemoteParser) : String :=
  p.baseUrl ++ "/parse"

/-- The call for an expression; a blank one needs none. -/
def call? (p : RemoteParser) (s : List Char) : Option RemoteCall :=
  if s.all Text.isBlank then none
  else some ⟨p.url, String.ofList (Text.trim s), p.timeout⟩

def failureMessage? (j : Json) : Option Json := do
  let error ← j.get? "error"
  error.get? "message"

/-- What a body is taken for, with room for so many nested values: `ofJson` of its JSON value, or
`otherwise` if it has none. -/
def interpretBody (room : Nat) (body : List UInt8) (ofJson : Json → Except RemoteFault ParseResult)
    (otherwise : RemoteFault) : Except RemoteError ParseResult :=
  match Json.readOctets room body with
  | .ok j => (ofJson j).mapError .fault
  | .error .nestedTooDeep => .error .nestedTooDeep
  | .error _ => .error (.fault otherwise)

/-- The parse result in an answer. -/
def interpret (room : Nat) : RemoteAnswer → Except RemoteError ParseResult
  | .unreachable => .error (.fault .unavailable)
  | .aborted exception => .error (.aborted exception)
  | .answered 200 body =>
    interpretBody room body (fun j => (ParseResult.read j).mapError fun _ => .unreadable)
      .unreadable
  | .answered status body =>
    interpretBody room body (fun j => .error (.failed (failureMessage? j) status))
      (.failed none status)

/-- The parse result of an expression, where `remote` answers calls. -/
def parse (p : RemoteParser) (room : Nat) (remote : RemoteCall → RemoteAnswer) (s : List Char) :
    Except RemoteError ParseResult :=
  match p.call? s with
  | none => .ok (.ofFault .empty)
  | some call => interpret room (remote call)

/-- The JSON value of the answer to the call for an expression. -/
def sent? (p : RemoteParser) (room : Nat) (remote : RemoteCall → RemoteAnswer) (s : List Char) :
    Option Json :=
  match remote <$> p.call? s with
  | some (.answered _ body) => (Json.readOctets room body).toOption
  | _ => none

end RemoteParser

/-! ## Addresses -/

/-- What follows the scheme of an address, if it has one. -/
def afterScheme? : List Char → Option (List Char)
  | ':' :: '/' :: '/' :: rest => some rest
  | _ :: rest => afterScheme? rest
  | [] => none

/-- The host that an authority names, without a user before it and a port after it. -/
def hostName (authority : List Char) : List Char :=
  let host := (authority.reverse.takeWhile (· ≠ '@')).reverse
  let name :=
    if host.head? = some '[' then host.tail.takeWhile (· ≠ ']') else host.takeWhile (· ≠ ':')
  Text.lower name

/-- The host and the path of an address; a query after the path is left out. An address without a
scheme names no host. -/
def splitUrl (url : String) : String × String :=
  let beforeQuery := url.toList.takeWhile fun c => c ≠ '?' && c ≠ '#'
  match afterScheme? beforeQuery with
  | some rest =>
    let authority := rest.takeWhile (· ≠ '/')
    let path := rest.drop authority.length
    (String.ofList (hostName authority), if path.isEmpty then "/" else String.ofList path)
  | none => ("", String.ofList ('/' :: beforeQuery.dropWhile (· = '/')))

end Longhand
