import Longhand.Proofs.Outcomes
import Longhand.Service.Session
/-!
# Request ids

While a request is handled its id is bound in a context that everything reads that is done for it:
the log for its records and the replies for the errors they tell. Handlers do not look at what was
bound before and `serve` binds it again however they end (`serve_context`), so a request leaves the
context as it finds it and bears its own id throughout (`serve_ends`).

Main result, `request_ids_never_mix`: in every sequence of requests each bears the id that it sent
or, if it sent none, the one that was made for it, and at the end no id is bound.
-/

namespace Longhand.Service

/-! ## Errors told in a body -/

/-- An error that is told in a body is told with an id. -/
def ReplyBody.Traces (id : String) : ReplyBody → Prop
  | .json j | .model j => ∀ ms, j.get? "error" = some (.object ms) →
    (Json.object ms).get? "traceId" = some (.text id)
  | .text _ => True

theorem ReplyBody.Traces.of_absent {j : Json} (id : String) (h : j.get? "error" = none) :
    (ReplyBody.json j).Traces id := by
  intro ms herror
  simp [h] at herror

theorem get?_standard (j : Json) (name : String) :
    j.standard.get? name = (j.get? name).map Json.standard := by
  cases j with
  | object members =>
    change (Json.standardMembers members).lookup name = (members.lookup name).map Json.standard
    induction members with
    | nil => rfl
    | cons m members ih =>
      rw [Json.standardMembers, List.lookup_cons, List.lookup_cons, ih]
      cases name == m.1 <;> rfl
  | number n =>
    cases n with
    | int i => rfl
    | float x => by_cases hx : x.isFinite <;> simp [Json.standard, hx, Json.get?, Json.members?]
  | _ => rfl

/-- An error is told with an id also where numbers are left out. -/
theorem ReplyBody.Traces.sent {id : String} {body : ReplyBody} (h : body.Traces id) :
    body.sent.Traces id := by
  cases body with
  | model j =>
    intro ms herror
    rw [get?_standard] at herror
    obtain ⟨error, herror, hstandard⟩ := Option.map_eq_some_iff.1 herror
    cases error with
    | object members =>
      rw [← hstandard, get?_standard, h members herror]
      rfl
    | number n =>
      cases n with
      | int i => cases hstandard
      | float x => by_cases hx : x.isFinite <;> simp [Json.standard, hx] at hstandard
    | _ => cases hstandard
  | json j => exact h
  | text s => exact h

theorem ReplyBody.Traces.ofError (id : String) (status : Nat) (code : String) (message : Json)
    (details : List (String × Json)) :
    (Reply.ofError id status code message details).body.Traces id := by
  intro ms herror
  have hmembers : ms = [("type", .text code), ("message", message)] ++
      (if details.isEmpty then [] else [("details", Json.object details)]) ++
      [("traceId", .text id)] := by
    simpa [Json.get?, Json.members?, List.lookup_cons] using herror.symm
  subst hmembers
  split <;> rfl

/-- A parse result tells its error in words. -/
theorem ReplyBody.Traces.parseResult (id : String) (result : ParseResult) :
    (ReplyBody.model result.toJson.withoutNulls).Traces id := by
  intro ms herror
  cases result with
  | valid ts v =>
    simp [ParseResult.toJson, Json.withoutNulls, Json.membersWithoutNulls, Json.get?,
      Json.members?, List.lookup_cons] at herror
  | invalid ts message code =>
    simp [ParseResult.toJson, Json.withoutNulls, Json.membersWithoutNulls, Json.get?,
      Json.members?, List.lookup_cons] at herror

theorem ReplyBody.Traces.stepsBody (id : String) (expression : Option String) (steps : List Step) :
    (ReplyBody.model (stepsBody expression steps)).Traces id := by
  have habsent : (Service.stepsBody expression steps).get? "error" = none := by
    cases expression <;> rfl
  exact .of_absent id habsent

/-! ## Handlers -/

section

variable {app : App} {id query : String} {r : Request} {h : Handled}

theorem traces_stepsOfResult {result : ParseResult} (hh : stepsOfResult id query result = .ok h) :
    h.reply.body.Traces id := by
  cases result with
  | invalid ts message code =>
    obtain rfl := Except.ok.inj hh
    exact .ofError _ _ _ _ _
  | valid ts v =>
    rw [stepsOfResult] at hh
    cases htask : (ParseResult.valid ts v).task with
    | error e =>
      cases e with
      | fault f =>
        simp only [htask, Except.ok.injEq] at hh
        subst hh
        exact .ofError _ _ _ _ _
      | arithmetic e => simp [htask] at hh
      | notNumeral text => simp [htask] at hh
    | ok task =>
      simp only [htask] at hh
      cases hsteps : task.steps with
      | error e => simp [hsteps] at hh
      | ok steps =>
        simp only [hsteps, Except.ok.injEq] at hh
        subst hh
        exact .stepsBody _ _ _

theorem traces_stepsLocally (hh : stepsLocally app id query = .ok h) : h.reply.body.Traces id := by
  obtain ⟨⟨result, events⟩, -, hrest⟩ := exists_of_bind_eq_ok hh
  obtain ⟨made, hmade, hmore⟩ := exists_of_bind_eq_ok hrest
  obtain rfl := Except.ok.inj hmore
  have hreply := traces_stepsOfResult hmade
  exact hreply

theorem traces_stepsRemotely {parser : RemoteParser}
    (hh : stepsRemotely app parser id query = .ok h) : h.reply.body.Traces id := by
  unfold stepsRemotely at hh
  cases hparse : parser.parse app.room.reading app.remote query.toList with
  | error e =>
    cases e with
    | fault f =>
      simp only [hparse, Except.ok.injEq] at hh
      subst hh
      exact .ofError _ _ _ _ _
    | nestedTooDeep => simp [hparse] at hh
    | aborted exception => simp [hparse] at hh
  | ok result =>
    simp only [hparse] at hh
    obtain ⟨made, hmade, hmore⟩ := exists_of_bind_eq_ok hh
    have hreply := traces_stepsOfResult hmade
    split at hmore
    · cases hmore
    · exact Except.ok.inj hmore ▸ hreply

theorem traces_handleExpressionSteps {query : Option String}
    (hh : handleExpressionSteps app id query = .ok h) : h.reply.body.Traces id := by
  unfold handleExpressionSteps at hh
  have hmissing : (missingParam "query").reply.body.Traces id := .of_absent id rfl
  split at hh
  · cases query with
    | none => exact Except.ok.inj hh ▸ hmissing
    | some query => exact traces_stepsLocally hh
  · split at hh
    · exact Except.ok.inj hh ▸ .ofError _ _ _ _ _
    · cases query with
      | none => exact Except.ok.inj hh ▸ hmissing
      | some query => exact traces_stepsRemotely hh

/-- What is wrong with a request is told without an error of the service. -/
theorem traces_refuse {j : Json} {issues : List Issue} (hh : refuse app j issues = .ok h) :
    h.reply.body.Traces id := by
  unfold refuse at hh
  split at hh
  · cases hh
  · exact Except.ok.inj hh ▸ .of_absent id rfl

theorem traces_handleTask {j : Json} (hh : handleTask app id j = .ok h) :
    h.reply.body.Traces id := by
  unfold handleTask at hh
  split at hh
  · exact traces_refuse hh
  · split at hh
    · exact Except.ok.inj hh ▸ .ofError _ _ _ _ _
    · cases hh
    · cases hh
    · exact Except.ok.inj hh ▸ .stepsBody _ _ _

theorem traces_handleSteps (hh : handleSteps app id r = .ok h) : h.reply.body.Traces id := by
  unfold handleSteps at hh
  split at hh
  · exact traces_refuse hh
  · split at hh
    · split at hh
      · exact traces_handleTask hh
      · exact traces_refuse hh
      · exact Except.ok.inj hh ▸ .of_absent id rfl
    · split at hh
      · exact traces_refuse hh
      · cases hh

theorem traces_unrouted (app : App) (r : Request) : (unrouted app r).body.Traces id := by
  unfold unrouted pageReply
  split
  · exact .of_absent id rfl
  · split
    · split
      · exact trivial
      · exact .of_absent id rfl
    · split
      · exact trivial
      · exact .of_absent id rfl

theorem traces_preflight (allowed : List String) (origin method : String) :
    (Origins.preflight allowed origin method).1.body.Traces id := by
  have htext (b : Bool) (s t : String) :
      (if b then ReplyBody.text s else .text t).Traces id := by cases b <;> exact trivial
  simp only [Origins.preflight, apply_ite Reply.body]
  exact htext _ _ _

theorem traces_dispatch (hh : dispatch app id r = .ok h) : h.reply.body.Traces id := by
  have hmissing (name : String) : (missingParam name).reply.body.Traces id := .of_absent id rfl
  unfold dispatch at hh
  split at hh
  · exact Except.ok.inj hh ▸ traces_unrouted app r
  · next route _ =>
    cases route with
    | parse =>
      simp only at hh
      split at hh
      · obtain ⟨⟨result, events⟩, -, hmore⟩ := exists_of_bind_eq_ok hh
        exact Except.ok.inj hmore ▸ .parseResult id result
      · exact Except.ok.inj hh ▸ hmissing _
    | extract =>
      simp only at hh
      split at hh
      · next text _ =>
        have habsent (j : Json) :
            (Json.object [("text", .text text), ("expression", j)]).get? "error" = none := rfl
        exact Except.ok.inj hh ▸ .of_absent id (habsent _)
      · exact Except.ok.inj hh ▸ hmissing _
    | steps => exact traces_handleSteps hh
    | expressionSteps => exact traces_handleExpressionSteps hh
    | health => exact Except.ok.inj hh ▸ .of_absent id rfl

/-- **Every handler tells errors with the id of the request.** -/
theorem traces_handle {origins : OriginHeaders} (hh : handle app id r = .ok (h, origins)) :
    h.reply.body.Traces id := by
  have hdispatch {headers : OriginHeaders}
      (hmap : (·, headers) <$> dispatch app id r = .ok (h, origins)) : h.reply.body.Traces id := by
    obtain ⟨made, hmade, heq⟩ := exists_of_map_eq_ok hmap
    obtain ⟨rfl, -⟩ := Prod.mk.inj heq
    exact traces_dispatch hmade
  unfold handle at hh
  simp only at hh
  split at hh
  · exact hdispatch hh
  · split at hh
    · exact hdispatch hh
    · split at hh
      · split at hh
        · obtain ⟨rfl, -⟩ := Prod.mk.inj (Except.ok.inj hh)
          exact traces_preflight _ _ _
        · exact hdispatch hh
      · exact hdispatch hh

end

/-! ## One request -/

theorem records_append (threshold : Nat) (id : String) (events more : List Event) :
    records threshold id (events ++ more) =
      records threshold id events ++ records threshold id more := by
  simp [records]

theorem requestId_of_sent {r : Request} {id : String} (h : r.header? "x-request-id" = some id)
    (hid : id ≠ "") (new : String) : requestId r new = id := by
  simp [requestId, h, hid]

theorem requestId_of_unsent {r : Request} (h : (r.header? "x-request-id").getD "" = "")
    (new : String) : requestId r new = new := by
  unfold requestId
  split
  · next id hid =>
    rw [hid, Option.getD_some] at h
    simp [h]
  · rfl

/-- A request bears the id that it sent or, if it sent none, the new one. -/
theorem requestId_cases (r : Request) (new : String) :
    (requestId r new ≠ "" ∧ r.header? "x-request-id" = some (requestId r new)) ∨
      ((r.header? "x-request-id").getD "" = "" ∧ requestId r new = new) := by
  by_cases h : (r.header? "x-request-id").getD "" = ""
  · exact .inr ⟨h, requestId_of_unsent h new⟩
  · cases hsent : r.header? "x-request-id" with
    | none => simp [hsent] at h
    | some id =>
      have hid : id ≠ "" := by simpa [hsent] using h
      rw [requestId_of_sent hsent hid]
      exact .inl ⟨hid, rfl⟩

theorem requestId_ne_empty (r : Request) {new : String} (hnew : new ≠ "") :
    requestId r new ≠ "" := by
  rcases requestId_cases r new with ⟨hid, -⟩ | ⟨-, hid⟩
  · exact hid
  · rwa [hid]

theorem Context.records_bind (c : Context) {id : String} (hid : id ≠ "") (threshold : Nat)
    (events : List Event) :
    (c.bind id).1.records threshold events = Service.records threshold id events := by
  simp [Context.records, Context.bind, Context.id, hid]

/-- The records for a request: of its start, of what happens, and of its end. -/
def written (app : App) (id : String) (r : Request) (events : List Event) (last : Event) :
    List Record :=
  records app.threshold id (.requestStart r.method r.path :: events ++ [last])

/-- How a request with an id may end. -/
inductive Ends (app : App) (id : String) (r : Request) : Visit → Prop
  /-- A handler fails. -/
  | failed {f : Failure} (hhandle : handle app id r = .error f) :
      Ends app id r ⟨r, written app id r [] (.requestCut r.method r.path), .error f⟩
  /-- The reply cannot be sent. -/
  | unsendable {h : Handled} {origins : OriginHeaders} {why : Json.SendError}
      (hhandle : handle app id r = .ok (h, origins))
      (hbody : h.reply.body.sendError? app.room.writing = some why) :
      Ends app id r ⟨r, written app id r h.events (.requestCut r.method r.path),
        .error (.unsendable why)⟩
  | answered {h : Handled} {origins : OriginHeaders} {records : List Record}
      (hhandle : handle app id r = .ok (h, origins))
      (hbody : h.reply.body.sendError? app.room.writing = none)
      (hrecords : records =
        written app id r h.events (.requestEnd r.method r.path h.reply.status)) :
      Ends app id r ⟨r, records, .ok ⟨⟨h.reply.status, sentBody r h.reply.body, h.reply.allow,
        origins, id⟩, records, h.calls, h.reply.location⟩⟩

/-- What is written and answered for a request bears an id. -/
structure Visit.Bears (threshold : Nat) (id : String) (v : Visit) : Prop where
  records : ∀ record ∈ v.records, record.requestId = id
  /-- The start and the end of the request stand around all else that is written. -/
  around : threshold ≤ LogLevel.info.gravity → ∃ between last,
    v.records = ⟨id, .requestStart v.request.method v.request.path⟩ :: between ++ [⟨id, last⟩] ∧
      last.message = "request.end"
  answered : ∀ e, v.outcome = .ok e →
    e.records = v.records ∧ e.response.requestId = id ∧ e.response.body.Traces id

theorem requestId_of_mem_records {threshold : Nat} {id : String} {events : List Event}
    {record : Record} (h : record ∈ records threshold id events) : record.requestId = id := by
  obtain ⟨event, -, rfl⟩ := List.mem_map.1 h
  rfl

theorem exists_written {app : App} (h : app.threshold ≤ LogLevel.info.gravity) (id : String)
    (r : Request) (events : List Event) (last : Event) (hlast : last.level = .info) :
    ∃ between, written app id r events last =
      ⟨id, .requestStart r.method r.path⟩ :: between ++ [⟨id, last⟩] := by
  refine ⟨records app.threshold id events, ?_⟩
  have hstart : (Event.requestStart r.method r.path).level = .info := rfl
  simp [written, records, hlast, hstart, h]

theorem sentBody_traces {id : String} (r : Request) {body : ReplyBody} (h : body.Traces id) :
    (sentBody r body).Traces id := by
  unfold sentBody
  split
  · exact trivial
  · exact h.sent

theorem Ends.bears {app : App} {id : String} {r : Request} {v : Visit} (h : Ends app id r v) :
    v.Bears app.threshold id := by
  cases h with
  | failed hhandle =>
    refine ⟨fun _ => requestId_of_mem_records, fun hlevel => ?_, nofun⟩
    obtain ⟨between, heq⟩ := exists_written hlevel id r [] (.requestCut r.method r.path) rfl
    exact ⟨between, _, heq, rfl⟩
  | @unsendable h origins why hhandle hbody =>
    refine ⟨fun _ => requestId_of_mem_records, fun hlevel => ?_, nofun⟩
    obtain ⟨between, heq⟩ := exists_written hlevel id r h.events (.requestCut r.method r.path) rfl
    exact ⟨between, _, heq, rfl⟩
  | @answered h origins records hhandle hbody hrecords =>
    subst hrecords
    refine ⟨fun _ => requestId_of_mem_records, fun hlevel => ?_, fun e he => ?_⟩
    · obtain ⟨between, heq⟩ := exists_written hlevel id r h.events
        (.requestEnd r.method r.path h.reply.status) rfl
      exact ⟨between, _, heq, rfl⟩
    · obtain rfl := Except.ok.inj he
      exact ⟨rfl, rfl, sentBody_traces r (traces_handle hhandle)⟩

section

variable (app : App) {new : String} (r : Request) (c : Context)

/-- **A request leaves the context as it finds it**, whatever comes of it. -/
theorem serve_context (new : String) : (serve app new r c).2 = c := by
  unfold serve
  simp only
  split
  · rfl
  · split <;> rfl

variable (hnew : new ≠ "")

include hnew

theorem serve_ends : Ends app (requestId r new) r (serve app new r c).1 := by
  have hid := requestId_ne_empty r hnew
  have hbound : (c.bind (requestId r new)).1.id = requestId r new := rfl
  have hjoin (events : List Event) (last : Event) :
      records app.threshold (requestId r new) [.requestStart r.method r.path] ++
        (records app.threshold (requestId r new) events ++
          records app.threshold (requestId r new) [last]) =
        written app (requestId r new) r events last := by
    rw [← records_append, ← records_append]
    rfl
  unfold serve
  simp only [c.records_bind hid, hbound, List.append_assoc, hjoin]
  cases hhandle : handle app (requestId r new) r with
  | error f =>
    -- a handler that fails has written nothing
    have hcut : records app.threshold (requestId r new) [.requestStart r.method r.path] ++
          records app.threshold (requestId r new) [.requestCut r.method r.path] =
        written app (requestId r new) r [] (.requestCut r.method r.path) :=
      (records_append _ _ _ _).symm
    simp only [hcut]
    exact .failed hhandle
  | ok made =>
    obtain ⟨h, origins⟩ := made
    cases hbody : h.reply.body.sendError? app.room.writing with
    | some why =>
      simp only [hbody]
      exact .unsendable hhandle hbody
    | none =>
      simp only [hbody]
      exact .answered hhandle hbody rfl

/-- What comes of a request does not depend on the context that it finds. -/
theorem serve_outcome : (serve app new r c).1.outcome = exchange app new r := by
  have hends := serve_ends app r c hnew
  generalize (serve app new r c).1 = v at hends
  cases hends with
  | failed hhandle =>
    rw [exchange, hhandle]
    rfl
  | unsendable hhandle hbody =>
    rw [exchange, hhandle]
    simp only [bind, Except.bind, hbody]
  | answered hhandle hbody hrecords =>
    rw [exchange, hhandle, hrecords]
    simp only [bind, Except.bind, hbody]
    rfl

end

/-! ## Sequences of requests -/

theorem Ends.request_eq {app : App} {id : String} {r : Request} {v : Visit} (h : Ends app id r v) :
    v.request = r := by
  cases h <;> rfl

section

variable (app : App) (new : Nat → String)

theorem follow_context (n : Nat) (r : Request) (c : Context) : (follow app new n r c).2 = c := by
  unfold follow
  simp only [serve_context]
  split <;> rfl

/-- A sequence of requests leaves the context as it finds it. -/
theorem trips_context (n : Nat) (c : Context) (requests : List Request) :
    (trips app new n c requests).2 = c := by
  induction requests generalizing n c with
  | nil => rfl
  | cons r rest ih => simp only [trips, follow_context, ih]

variable {new} (hnew : ∀ k, new k ≠ "")

include hnew

/-- The visits of a trip bear their own ids or new ones in turn. -/
theorem follow_ends {n k : Nat} {r : Request} {c : Context} {v : Visit}
    (hv : (follow app new n r c).1.visits[k]? = some v) :
    ∃ r', Ends app (requestId r' (new (n + k))) r' v := by
  unfold follow at hv
  simp only at hv
  split at hv
  · rcases k with _ | k
    · obtain rfl := Option.some.inj hv
      exact ⟨r, serve_ends app r c (hnew n)⟩
    · simp [Trip.visits] at hv
  · next path _ =>
    rcases k with _ | _ | k
    · obtain rfl := Option.some.inj hv
      exact ⟨r, serve_ends app r c (hnew n)⟩
    · obtain rfl := Option.some.inj hv
      exact ⟨{ r with path }, serve_ends app _ _ (hnew (n + 1))⟩
    · simp [Trip.visits] at hv

/-- The visits of all trips bear their own ids or new ones in turn. -/
theorem trips_ends {n k : Nat} {c : Context} {requests : List Request} {v : Visit}
    (hv : ((trips app new n c requests).1.flatMap Trip.visits)[k]? = some v) :
    ∃ r, Ends app (requestId r (new (n + k))) r v := by
  induction requests generalizing n k c with
  | nil => simp [trips] at hv
  | cons r rest ih =>
    simp only [trips, List.flatMap_cons, List.getElem?_append] at hv
    split at hv
    · exact follow_ends app hnew hv
    · next hk =>
      obtain ⟨r', hends⟩ := ih hv
      have hplace : n + (follow app new n r c).1.visits.length +
          (k - (follow app new n r c).1.visits.length) = n + k := by omega
      rw [hplace] at hends
      exact ⟨r', hends⟩

theorem first_request (n : Nat) (c : Context) (requests : List Request) :
    (trips app new n c requests).1.map (·.first.request) = requests := by
  induction requests generalizing n c with
  | nil => rfl
  | cons r rest ih =>
    have hfirst : (follow app new n r c).1.first.request = r := by
      have hrequest := (serve_ends app r c (hnew n)).request_eq
      unfold follow
      simp only
      split <;> exact hrequest
    simp only [trips, List.map_cons, hfirst, ih]

/-! ## Main result -/

/-- **Request ids never mix**: in every sequence of requests each is handled, and what is written and
answered for it, or for the same request at the path where the answer is found, bears the id that it
sent if that is not empty, and otherwise the one that was made for it. Every record bears that id and
so do the answer and an error that is told in its body; the first and the last record tell the start
and the end of the request, unless such records are not written. At the end no id is bound. -/
theorem request_ids_never_mix (n : Nat) (requests : List Request) :
    (trips app new n {} requests).2.bound = none ∧
      (trips app new n {} requests).1.map (·.first.request) = requests ∧
      ∀ k v, ((trips app new n {} requests).1.flatMap Trip.visits)[k]? = some v →
        ∃ id, (id ≠ "" ∧ v.request.header? "x-request-id" = some id ∨
            (v.request.header? "x-request-id").getD "" = "" ∧ id = new (n + k)) ∧
          v.Bears app.threshold id := by
  refine ⟨?_, first_request app hnew n {} requests, fun k v hv => ?_⟩
  · rw [trips_context]
  · obtain ⟨r, hends⟩ := trips_ends app hnew hv
    have hbears := hends.bears
    obtain rfl := hends.request_eq
    exact ⟨_, requestId_cases v.request (new (n + k)), hbears⟩

end

/-- New ids, each longer than the one before. -/
def growingId (k : Nat) : String :=
  String.ofList (List.replicate (k + 1) 'n')

/-- A service that has a page of its own besides what it does. -/
def documentedApp : App :=
  ⟨{}, 20, fun _ => .unreachable, ⟨4, 8, 4, by decide, by decide⟩,
    fun path => if path = "/docs" then some ⟨"", "GET"⟩ else none⟩

/-- A request with an id, and after it one without that is refused. -/
def ownThenNone : List Request :=
  [⟨"GET", "/health", [], [("X-Request-ID", "own")], []⟩,
    ⟨"GET", "/steps", [("query", "(")], [], []⟩]

theorem request_ids_never_mix_refused :
    ∃ v, ((trips documentedApp growingId 0 {} ownThenNone).1.flatMap Trip.visits)[1]? = some v ∧
      v.Bears 20 "nn" := by
  have hnew (k : Nat) : growingId k ≠ "" := by
    simp [growingId, List.replicate_succ]
  have hsent : (((trips documentedApp growingId 0 {} ownThenNone).1.flatMap
      Trip.visits)[1]?.map fun v => (v.request.header? "x-request-id").getD "") = some "" := by
    decide +kernel
  obtain ⟨v, hv, hunsent⟩ := Option.map_eq_some_iff.1 hsent
  obtain ⟨id, hid, hbears⟩ := (request_ids_never_mix documentedApp hnew 0 ownThenNone).2.2 1 v hv
  obtain ⟨-, rfl⟩ : (v.request.header? "x-request-id").getD "" = "" ∧ id = "nn" := by
    refine hid.resolve_left fun hown => hown.1 ?_
    rwa [hown.2, Option.getD_some] at hunsent
  exact ⟨v, hv, hbears⟩

end Longhand.Service
