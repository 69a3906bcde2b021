import Longhand.Expression.Parse
/-!
# Settings

What can be configured: the limits of the parser, where parsing is done, which web origins may use
the service and how much is logged.
-/

namespace Longhand

/-- Where expressions to be worked are parsed. -/
inductive ParserMode where
  | local
  | remote
deriving DecidableEq, Repr, Inhabited

namespace ParserMode

def name : ParserMode → String
  | .local => "local"
  | .remote => "http"

def all : List ParserMode :=
  [.local, .remote]

def ofName? (s : String) : Option ParserMode :=
  all.find? (·.name = s)

end ParserMode

/-- The settings of the service (`AppSettings`). -/
structure Settings where
  title : String := "Math Stepper API"
  version : String := "0.1.0"
  logLevel : String := "INFO"
  maxExpressionLength : Int := 200
  resultPlaces : Int := 2
  parserMode : ParserMode := .local
  parserBaseUrl : Option String := none
  parserTimeout : Float := 5
  corsOrigins : List String := ["http://localhost:5173", "http://127.0.0.1:5173"]
  frontendOrigin : Option String := none
deriving DecidableEq, Repr, Inhabited

namespace Settings

def withoutSlashes (s : String) : String :=
  String.ofList (Text.trimEndWhile (· = '/') s.toList)

/-- The members of a list, each once, in the order of their first occurrence. -/
def distinct : List String → List String
  | [] => []
  | s :: rest => s :: (distinct rest).filter (· ≠ s)

/-- The web origins that may use the service (`resolved_cors_origins`): those configured and that of
the user interface, without slashes at the end, each once. -/
def allowedOrigins (s : Settings) : List String :=
  let candidates := s.corsOrigins ++ s.frontendOrigin.toList
  distinct ((candidates.filter (· ≠ "")).map withoutSlashes)

def limits (s : Settings) : ParseLimits :=
  ⟨s.maxExpressionLength, s.resultPlaces⟩

end Settings

end Longhand
