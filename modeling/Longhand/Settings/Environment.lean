import Longhand.Json.Read
import Longhand.Settings.Basic
import Longhand.Validation.Basic
/-!
# Settings from the environment

Each setting may be given by an environment variable, whose name counts without regard to case. All
values are texts; the list of origins is written in JSON, where null stands for the default.
-/

namespace Longhand

/-- Why the environment gives no settings. -/
inductive SettingsError where
  /-- The list of origins is not written in JSON. -/
  | unreadable
  /-- The list of origins is nested too deep to be read. -/
  | nestedTooDeep
  | invalid (issues : List Issue)
deriving DecidableEq, Repr

namespace Settings

open Checked

abbrev Environment := List (String × String)

/-- The value of a variable; the name is given in lower case, and the last value counts. -/
def lookup (env : Environment) (name : String) : Option String :=
  (env.reverse.find? fun v => String.ofList (Text.lower v.1.toList) = name).map (·.2)

/-- The setting of a variable, or a default. -/
def setting (env : Environment) (name : String) (default : α) (read : Json → Checked α) :
    Checked α :=
  match lookup env name with
  | some s => within name (read (.text s))
  | none => .ok default

def readMode : Json → Checked ParserMode
  | .text s =>
    match ParserMode.ofName? s with
    | some m => .ok m
    | none => fail .literal
  | _ => fail .literal

def readOrigins : Json → Checked (List String)
  | .array js => list Read.string 0 js
  | _ => fail .listType

/-- The JSON value of the list of origins, if one is given. -/
def originsJson (room : Nat) (env : Environment) : Except SettingsError (Option Json) :=
  match lookup env "cors_origins" with
  | none => .ok none
  | some s =>
    match Json.read room s.toList with
    | .ok .null => .ok none
    | .ok j => .ok (some j)
    | .error .nestedTooDeep => .error .nestedTooDeep
    | .error _ => .error .unreadable

/-- The settings, with the list of origins already read as JSON. -/
def ofVariables (env : Environment) (origins : Option Json) : Checked Settings :=
  let default : Settings := {}
  let text := fun name absent => (lookup env name).getD absent
  (fun (length, places, mode, timeout, origins) =>
    { title := text "api_title" default.title
      version := text "api_version" default.version
      logLevel := text "log_level" default.logLevel
      maxExpressionLength := length
      resultPlaces := places
      parserMode := mode
      parserBaseUrl := lookup env "parser_http_base_url"
      parserTimeout := timeout
      corsOrigins := origins
      frontendOrigin := lookup env "frontend_origin" }) <$>
    both (setting env "max_expression_length" default.maxExpressionLength (Read.intFrom 1))
      (both (setting env "result_decimal_places" default.resultPlaces (Read.intFrom 0))
        (both (setting env "parser_mode" default.parserMode readMode)
          (both (setting env "parser_http_timeout_sec" default.parserTimeout Read.float)
            (match origins with
              | some j => within "cors_origins" (readOrigins j)
              | none => .ok default.corsOrigins))))

/-- The settings that an environment gives, where the list of origins is read with room for so many
nested values. -/
def ofEnvironment (room : Nat) (env : Environment) : Except SettingsError Settings := do
  let origins ← originsJson room env
  (ofVariables env origins).mapError .invalid

end Settings

end Longhand
