import Longhand.Service.Origins
import Longhand.Service.Routes
/-!
# Sessions

A sequence of requests and their answers. Every request has an id, its own or a new one, which is
bound while it is handled. The id stands in the answer, in the body of an error and in every record
written meanwhile, of which the first and the last tell the start and the end of the request.
-/

namespace Longhand.Service

/-- An answer as the client gets it. -/
structure Response where
  status : Nat
  body : ReplyBody
  allow : Option String
  origins : OriginHeaders
  requestId : String
deriving Inhabited, Repr

/-- An answer with the records written and the remote calls made for it. -/
structure Exchange where
  response : Response
  records : List Record
  calls : List RemoteCall
  /-- The path where the answer is found instead. -/
  location : Option String
deriving Inhabited, Repr

/-- The id of a request: its own, unless it has none or an empty one. -/
def requestId (r : Request) (new : String) : String :=
  match r.header? "x-request-id" with
  | some id => if id.isEmpty then new else id
  | none => new

/-- What is done for a request with an id, with the headers about origins. -/
def handle (app : App) (id : String) (r : Request) : Except Failure (Handled × OriginHeaders) :=
  let allowed := app.settings.allowedOrigins
  match r.header? "origin" with
  | none => (·, {}) <$> dispatch app id r
  | some origin =>
    if allowed.isEmpty then (·, {}) <$> dispatch app id r
    else
      match r.header? "access-control-request-method" with
      | some method =>
        if r.method = "OPTIONS" then
          let (reply, headers) := Origins.preflight allowed origin method
          .ok (⟨reply, [], []⟩, headers)
        else (·, Origins.headers allowed r origin) <$> dispatch app id r
      | none => (·, Origins.headers allowed r origin) <$> dispatch app id r

/-- The body that is sent: none in answer to a request for the head alone. -/
def sentBody (r : Request) (body : ReplyBody) : ReplyBody :=
  if r.method = "HEAD" then .text "" else body.sent

/-- The exchange for a request by itself, with a new id in case it has none. -/
def exchange (app : App) (new : String) (r : Request) : Except Failure Exchange := do
  let id := requestId r new
  let (h, origins) ← handle app id r
  match h.reply.body.sendError? app.room.writing with
  | some why => .error (.unsendable why)
  | none =>
    let events := .requestStart r.method r.path :: h.events ++
      [.requestEnd r.method r.path h.reply.status]
    .ok { response := ⟨h.reply.status, sentBody r h.reply.body, h.reply.allow, origins, id⟩
          records := records app.threshold id events
          calls := h.calls
          location := h.reply.location }

/-- A request that was handled, with the records written meanwhile and what came of it. -/
structure Visit where
  request : Request
  records : List Record
  outcome : Except Failure Exchange
deriving Repr

namespace Visit

/-- The path where the answer is found instead. -/
def location? (v : Visit) : Option String :=
  match v.outcome with
  | .ok e => e.location
  | .error _ => none

end Visit

/-- A request is handled, as `RequestIdMiddleware` has it. Its id is bound first and read from the
context by all that is done for it, and however it ends, what was bound before is bound again. -/
def serve (app : App) (new : String) (r : Request) (c : Context) : Visit × Context :=
  let (during, before) := c.bind (requestId r new)
  let write := during.records app.threshold
  let started := write [.requestStart r.method r.path]
  match handle app during.id r with
  | .error f =>
    (⟨r, started ++ write [.requestCut r.method r.path], .error f⟩, during.unbind before)
  | .ok (h, origins) =>
    let handled := started ++ write h.events
    match h.reply.body.sendError? app.room.writing with
    | some why =>
      (⟨r, handled ++ write [.requestCut r.method r.path], .error (.unsendable why)⟩,
        during.unbind before)
    | none =>
      let records := handled ++ write [.requestEnd r.method r.path h.reply.status]
      let response : Response :=
        ⟨h.reply.status, sentBody r h.reply.body, h.reply.allow, origins, during.id⟩
      (⟨r, records, .ok ⟨response, records, h.calls, h.reply.location⟩⟩, during.unbind before)

/-- What is done for one request of a client: it is handled and, if the answer is found elsewhere,
handled there. -/
structure Trip where
  first : Visit
  second : Option Visit
deriving Repr

namespace Trip

def visits (t : Trip) : List Visit :=
  t.first :: t.second.toList

/-- What the client has of it: the last answer, with all records and calls. -/
def outcome (t : Trip) : Except Failure Exchange := do
  let first ← t.first.outcome
  match t.second with
  | none => .ok first
  | some v =>
    let second ← v.outcome
    .ok { second with
      records := first.records ++ second.records
      calls := first.calls ++ second.calls }

end Trip

/-- The trip for a request; `new` gives new ids, of which `n` are used up. -/
def follow (app : App) (new : Nat → String) (n : Nat) (r : Request) (c : Context) :
    Trip × Context :=
  let (first, c) := serve app (new n) r c
  match first.location? with
  | none => (⟨first, none⟩, c)
  | some path =>
    let (second, c) := serve app (new (n + 1)) { r with path } c
    (⟨first, some second⟩, c)

/-- The trips for requests, one after the other. -/
def trips (app : App) (new : Nat → String) (n : Nat) (c : Context) :
    List Request → List Trip × Context
  | [] => ([], c)
  | r :: rest =>
    let (trip, c) := follow app new n r c
    let (more, c) := trips app new (n + trip.visits.length) c rest
    (trip :: more, c)

/-- The exchanges for requests, unless one of them fails. -/
def session (app : App) (new : Nat → String) (n : Nat) (requests : List Request) :
    Except Failure (List Exchange) :=
  (trips app new n {} requests).1.mapM Trip.outcome

end Longhand.Service
