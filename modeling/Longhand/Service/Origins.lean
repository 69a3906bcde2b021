import Longhand.Service.Message
/-!
# Web origins

A browser tells from which origin a request comes and shows the answer to the page only if the
service allows that origin. Before some requests it asks first. Without any allowed origin the
service takes no notice of origins.
-/

namespace Longhand.Service

/-- The headers about origins in a reply. -/
structure OriginHeaders where
  allowOrigin : Option String := none
  allowCredentials : Option String := none
deriving DecidableEq, Repr, Inhabited

namespace Origins

def methods : List String :=
  ["DELETE", "GET", "HEAD", "OPTIONS", "PATCH", "POST", "PUT"]

def allowsAll (allowed : List String) : Bool :=
  allowed.contains "*"

def allows (allowed : List String) (origin : String) : Bool :=
  allowsAll allowed || allowed.contains origin

/-- The headers of an answer to a request that comes from an origin. -/
def headers (allowed : List String) (r : Request) (origin : String) : OriginHeaders :=
  let named :=
    if allowsAll allowed then
      if (r.header? "cookie").isSome then origin else "*"
    else origin
  { allowOrigin := if allows allowed origin then some named else none
    allowCredentials := some "true" }

/-- The reply to the question whether a page may send a request with a method. -/
def preflight (allowed : List String) (origin method : String) : Reply × OriginHeaders :=
  let refused :=
    (if allows allowed origin then [] else ["origin"]) ++
      if methods.contains method then [] else ["method"]
  let reply : Reply :=
    if refused.isEmpty then { status := 200, body := .text "OK" }
    else { status := 400, body := .text ("Disallowed CORS " ++ ", ".intercalate refused) }
  (reply,
    { allowOrigin := if allows allowed origin then some origin else none
      allowCredentials := some "true" })

end Origins

end Longhand.Service
