import Longhand.Expression.Parse
import Longhand.Validation.Basic
/-!
# Parse results as JSON

Writing a parse result and reading one back. What is read must be consistent: a valid expression
carries a result and no error, an invalid one an error message and no result.
-/

namespace Longhand

open Checked

namespace Token

def toJson (t : Token) : Json :=
  .object [("type", .text t.kind.name), ("value", .text t.value), ("position", .nat t.position)]

def readKind : Json → Checked TokenKind
  | .text s =>
    match TokenKind.ofName? s with
    | some k => .ok k
    | none => fail .enumeration
  | _ => fail .enumeration

def readFields (ms : List (String × Json)) : Checked Token :=
  (fun (kind, value, position) => ⟨kind, value, position.toNat⟩) <$>
    both (Read.required ms "type" readKind)
      (both (Read.required ms "value" Read.string)
        (Read.required ms "position" (Read.intFrom 0)))

def read : Json → Checked Token
  | .object ms => readFields ms
  | _ => fail .modelType

end Token

namespace ParseResult

/-- The JSON form of a parse result; what does not apply is null. -/
def toJson : ParseResult → Json
  | .valid ts result =>
    .object [("tokens", .array (ts.map Token.toJson)), ("isValid", .bool true), ("error", .null),
      ("errorType", .null), ("result", .number result)]
  | .invalid ts message code =>
    .object [("tokens", .array (ts.map Token.toJson)), ("isValid", .bool false),
      ("error", .text message), ("errorType", Json.ofOption .text code), ("result", .null)]

/-- The fields of a parse result before they are checked against each other. -/
structure Fields where
  tokens : List Token
  isValid : Bool
  error : Option String
  code : Option String
  result : Option Number
deriving DecidableEq, Repr

def readTokens : Json → Checked (List Token)
  | .array js => list Token.read 0 js
  | _ => fail .listType

def readFields (ms : List (String × Json)) : Checked Fields :=
  (fun (tokens, isValid, error, code, result) => ⟨tokens, isValid, error, code, result⟩) <$>
    both (Read.optional ms "tokens" [] readTokens)
      (both (Read.required ms "isValid" Read.bool)
        (both (Read.optional ms "error" none (Read.nullable Read.string))
          (both (Read.optional ms "errorType" none (Read.nullable Read.string))
            (Read.optional ms "result" none (Read.nullable Read.number)))))

/-- An issue with the outcome as a whole. -/
def inconsistent (message : String) : Checked α :=
  fail (.valueError ("Value error, " ++ message))

/-- The parse result with given fields, which must be consistent (`validate_outcome`). -/
def ofFields (f : Fields) : Checked ParseResult :=
  if f.isValid then
    if f.error.isSome || f.code.isSome then
      inconsistent "A valid expression cannot carry an error."
    else
      match f.result with
      | some result => .ok (.valid f.tokens result)
      | none => inconsistent "A valid expression must carry a result."
  else
    let message := f.error.getD ""
    if message.isEmpty then inconsistent "An invalid expression must carry an error message."
    else if f.result.isSome then inconsistent "An invalid expression cannot carry a result."
    else .ok (.invalid f.tokens message f.code)

def read : Json → Checked ParseResult
  | .object ms => readFields ms >>= ofFields
  | _ => fail .modelType

end ParseResult

end Longhand
