import Longhand.Proofs.SentResults
import Longhand.Proofs.SurroundingBlanks
import Longhand.Proofs.ToldErrors
/-!
# Parsing by another service

A service that leaves parsing to another one with the same settings answers a request for the steps
of an expression as one that parses for itself. There are two exceptions. The expression is sent
without the blanks around it, so where it is refused for a character, the position in the message is
counted from the first character that is no blank. And where the parser has no outcome, a service that
parses for itself gives no answer, while one that has another service parse tells that this failed.
-/

namespace Longhand

open Expression (Blanks evaluate)

def leadingBlanks (s : List Char) : Nat :=
  (s.takeWhile Text.isBlank).length

/-! ## Results with and without blanks -/

section

variable (limits : ParseLimits) (s : List Char)

/-- A text is evaluated as the text without the blanks around it, with the positions moved on. -/
theorem Expression.evaluate_trim : evaluate limits.maxLength s =
    shiftEvaluated (leadingBlanks s) (evaluate limits.maxLength (Text.trim s)) := by
  obtain ⟨lead, trail, hs, hlead⟩ := Text.exists_trim s
  have hevaluate := evaluate_blanks limits.maxLength lead trail (Text.trim s)
  have hcount : lead.chars.length = leadingBlanks s := congrArg List.length hlead
  rwa [← hs, hcount] at hevaluate

variable {s}

theorem Expression.parse_trim_of_blank (h : s.all Text.isBlank = true) :
    parse limits (Text.trim s) = .ok (.ofFault .empty) := by
  have hdrop := List.dropWhile_eq_nil_iff.2 (List.all_eq_true.1 h)
  rw [Text.trim, Text.trimWhile, hdrop]
  rfl

/-- The outcome of parsing a text is that of parsing it without the blanks around it, with the
positions moved on. -/
theorem Expression.parse_trim {result : ParseResult}
    (h : parse limits (Text.trim s) = .ok result) :
    (∃ ts x v, result = .valid ts v ∧
      evaluate limits.maxLength s = .ok (ts.map (Token.shift (leadingBlanks s)), x) ∧
      parse limits s = .ok (.valid (ts.map (Token.shift (leadingBlanks s))) v)) ∨
    ∃ f, result = .ofFault f ∧ evaluate limits.maxLength s = .error (f.shift (leadingBlanks s)) ∧
      parse limits s = .ok (.ofFault (f.shift (leadingBlanks s))) := by
  have hevaluate := evaluate_trim limits s
  unfold parse at h ⊢
  rw [hevaluate]
  cases htrim : evaluate limits.maxLength (Text.trim s) with
  | error f =>
    simp only [htrim] at h
    split at h
    · rename_i htold
      rw [← f.isTold_shift (leadingBlanks s)] at htold
      exact .inr ⟨f, (Except.ok.inj h).symm, rfl, if_pos htold⟩
    · cases h
  | ok evaluated =>
    obtain ⟨ts, x⟩ := evaluated
    rw [htrim] at h
    obtain ⟨v, hround, rfl⟩ := exists_of_map_eq_ok h
    refine .inl ⟨ts, x, v, rfl, rfl, ?_⟩
    simp only [shiftEvaluated, hround]
    rfl

/-- A text has no outcome if it has none without the blanks around it. -/
theorem Expression.parse_error_of_trim {e : ArithmeticError}
    (h : parse limits (Text.trim s) = .error e) : parse limits s = .error e := by
  have hevaluate := evaluate_trim limits s
  unfold parse at h ⊢
  rw [hevaluate]
  cases htrim : evaluate limits.maxLength (Text.trim s) with
  | error f =>
    simp only [htrim] at h
    simp only [shiftEvaluated, f.isTold_shift]
    split at h
    · cases h
    · rename_i htold
      rw [if_neg htold]
      exact congrArg Except.error (Except.error.inj h)
  | ok evaluated =>
    obtain ⟨ts, x⟩ := evaluated
    rw [htrim] at h
    simp only [shiftEvaluated, eq_error_of_map h]
    rfl

end

theorem RemoteParser.exists_ofSettings {s : Settings} (h : s.parserBaseUrl.getD "" ≠ "") :
    ∃ parser, ofSettings s = .ok parser := by
  have hempty : (s.parserBaseUrl.getD "").isEmpty = false := String.isEmpty_eq_false_iff.2 h
  simp only [ofSettings, hempty]
  exact ⟨_, rfl⟩

namespace Service

/-! ## Another service -/

/-- What is received of an answer with this status and body. A failed request is answered by the
server. -/
def receive : Except Failure (Nat × ReplyBody) → RemoteAnswer
  | .ok (status, body) => .answered status body.octets
  | .error _ => .answered 500 (Text.utf8 "Internal Server Error".toList)

/-- The request for the parse result of the expression in a call. -/
def parseRequest (call : RemoteCall) : Request :=
  { method := "GET", path := "/parse", params := [("query", call.query)] }

/-- Another service as a remote parser: what it answers to a request for the parse result of the
expression. -/
def App.answers (app : App) (new : String) (call : RemoteCall) : RemoteAnswer :=
  receive (Exchange.answer <$> exchange app new (parseRequest call))

section

variable {app : App} {call : RemoteCall} (room : Json.Room) (new : String)

theorem answers_of_ok {result : ParseResult}
    (hparse : Expression.parse app.settings.limits call.query.toList = .ok result)
    (hsendable : result.Sendable) :
    app.answers new call = .answered 200 (Text.utf8 (Json.write result.toJson.withoutNulls)) := by
  rw [App.answers, answer_parse (r := parseRequest call) ⟨rfl, rfl, rfl⟩ hparse hsendable new]
  rfl

theorem answers_of_error {e : ArithmeticError}
    (hparse : Expression.parse app.settings.limits call.query.toList = .error e) :
    app.answers new call = .answered 500 (Text.utf8 "Internal Server Error".toList) := by
  rw [App.answers, exchange_parse_of_error (r := parseRequest call) ⟨rfl, rfl, rfl⟩ hparse new]
  rfl

theorem interpret_answers {result : ParseResult}
    (hparse : Expression.parse app.settings.limits call.query.toList = .ok result)
    (hsendable : result.Sendable) :
    RemoteParser.interpret room.reading (app.answers new call) = .ok result := by
  rw [answers_of_ok new hparse hsendable]
  simp only [RemoteParser.interpret, RemoteParser.interpretBody, hsendable.readOctets_write room,
    hsendable.read_withoutNulls]
  rfl

/-- What the server says of a failed request is no JSON. -/
theorem readOctets_failed (room : Nat) :
    Json.readOctets room (Text.utf8 "Internal Server Error".toList) = .error (.syntaxAt 0) := by
  obtain ⟨rest, hrest⟩ : ∃ rest, "Internal Server Error".toList = 'I' :: 'n' :: 't' :: rest :=
    ⟨_, rfl⟩
  have hscan : Json.scanSymbol? [] 0 ('I' :: 'n' :: 't' :: rest) = none := rfl
  rw [hrest, Json.readOctets_utf8 room (by decide) (by decide) (by simp), Json.read, Json.symbols,
    if_neg (by decide), hscan]
  rfl

theorem interpret_answers_of_error {e : ArithmeticError}
    (hparse : Expression.parse app.settings.limits call.query.toList = .error e) :
    RemoteParser.interpret room.reading (app.answers new call) =
      .error (.fault (.failed none 500)) := by
  rw [answers_of_error new hparse]
  simp only [RemoteParser.interpret, RemoteParser.interpretBody, readOctets_failed]

end

section

variable (parser : RemoteParser) (room : Json.Room) {app : App} {s : List Char} (new : String)

/-- **Another service gives the parse result of the expression without the blanks around it.** -/
theorem parse_answers {result : ParseResult}
    (hparse : Expression.parse app.settings.limits (Text.trim s) = .ok result)
    (hsendable : result.Sendable) :
    parser.parse room.reading (app.answers new) s = .ok result := by
  unfold RemoteParser.parse RemoteParser.call?
  by_cases hblank : s.all Text.isBlank = true
  · rw [Expression.parse_trim_of_blank _ hblank] at hparse
    rw [if_pos hblank]
    exact congrArg Except.ok (Except.ok.inj hparse)
  · rw [if_neg hblank]
    refine interpret_answers room new ?_ hsendable
    rw [String.toList_ofList]
    exact hparse

/-- Another service without an outcome fails. -/
theorem parse_answers_of_error {e : ArithmeticError}
    (hparse : Expression.parse app.settings.limits (Text.trim s) = .error e) :
    parser.parse room.reading (app.answers new) s = .error (.fault (.failed none 500)) := by
  have hblank : ¬s.all Text.isBlank = true := by
    intro hblank
    rw [Expression.parse_trim_of_blank _ hblank] at hparse
    cases hparse
  unfold RemoteParser.parse RemoteParser.call?
  rw [if_neg hblank]
  refine interpret_answers_of_error room new (e := e) ?_
  rw [String.toList_ofList]
  exact hparse

/-- What another service sent, if it was asked, is the JSON of the parse result. -/
theorem sent_answers {result : ParseResult}
    (hparse : Expression.parse app.settings.limits (Text.trim s) = .ok result)
    (hsendable : result.Sendable) :
    ∀ j ∈ parser.sent? room.reading (app.answers new) s, j = result.toJson.withoutNulls := by
  unfold RemoteParser.sent? RemoteParser.call?
  by_cases hblank : s.all Text.isBlank = true
  · rw [if_pos hblank]
    simp
  · rw [if_neg hblank]
    have hanswer := @answers_of_ok app ⟨parser.url, String.ofList (Text.trim s), parser.timeout⟩ new
      result (by rw [String.toList_ofList]; exact hparse) hsendable
    simp only [Option.map_eq_map, Option.map_some, hanswer, hsendable.readOctets_write room,
      Except.toOption]
    simp

end

/-! ## Texts that are repeated -/

/-- The operator in the JSON of tokens is a text. -/
theorem exists_text_of_sentOperator? {ts : List Token} {result : Number} {j : Json}
    (h : sentOperator? (ParseResult.valid ts result).toJson.withoutNulls = some j) :
    ∃ s, j = .text s := by
  rw [ParseResult.withoutNulls_valid] at h
  obtain ⟨items, hitems, hrest⟩ := Option.bind_eq_some_iff.1 h
  obtain ⟨u, -, rfl⟩ := List.mem_map.1 (List.mem_of_find?_eq_some hitems)
  exact ⟨u.value, (Option.some.inj hrest).symm⟩

/-- The steps of a parse result repeat no text that cannot be sent, if it was sent by a service. -/
theorem repeatsUnpaired_eq {sent? : Option Json} {result : ParseResult}
    (h : ∀ j ∈ sent?, j = result.toJson.withoutNulls) : repeatsUnpaired sent? result = false := by
  cases sent? with
  | none => rfl
  | some sent =>
    obtain rfl := h sent rfl
    rw [repeatsUnpaired, List.any_eq_false]
    intro j hj
    cases result with
    | valid ts result =>
      unfold repeated at hj
      split at hj
      · cases hj
      · split at hj
        · obtain ⟨s, rfl⟩ := exists_text_of_sentOperator? (Option.mem_toList.1 hj)
          exact Bool.false_ne_true
        · cases hj
    | invalid ts message code =>
      rw [ParseResult.withoutNulls_invalid] at hj
      cases code with
      | none =>
        obtain rfl : j = .text message := by
          simpa [repeated, Json.get?, Json.members?, List.lookup_cons] using hj
        exact Bool.false_ne_true
      | some c =>
        obtain rfl | rfl : j = .text message ∨ j = .text c := by
          simpa [repeated, Json.get?, Json.members?, List.lookup_cons] using hj
        all_goals exact Bool.false_ne_true

/-! ## Replies -/

/-- The reply to a request for the steps of a faulty expression. -/
def faultReply (id : String) (f : ExpressionFault) : Reply :=
  .ofError id 400 f.code (.text f.message) []

theorem stepsOfResult_ofFault (id query : String) (f : ExpressionFault) :
    stepsOfResult id query (.ofFault f) = .ok ⟨faultReply id f, [], []⟩ := by
  cases f <;> rfl

theorem stepsOfResult_shift (id query : String) (k : Nat) (ts : List Token) (result : Number) :
    stepsOfResult id query (.valid (ts.map (Token.shift k)) result) =
      stepsOfResult id query (.valid ts result) := by
  simp only [stepsOfResult, ParseResult.task, ParseResult.taskOfTokens_shift]

theorem reply_stepsLocally (app : App) (id query : String) {result : ParseResult}
    (h : Expression.parse app.settings.limits query.toList = .ok result) :
    Handled.reply <$> stepsLocally app id query =
      Handled.reply <$> stepsOfResult id query result := by
  obtain ⟨events, hlocal⟩ := exists_parseLocally h
  rw [stepsLocally, hlocal]
  cases hsteps : stepsOfResult id query result with
  | error e => simp only [bind, Except.bind, hsteps]
  | ok x =>
    simp only [bind, Except.bind, hsteps]
    rfl

theorem reply_stepsRemotely (app : App) (parser : RemoteParser) (id query : String)
    {result : ParseResult}
    (h : parser.parse app.room.reading app.remote query.toList = .ok result)
    (hsent : repeatsUnpaired (parser.sent? app.room.reading app.remote query.toList) result =
      false) :
    Handled.reply <$> stepsRemotely app parser id query =
      Handled.reply <$> stepsOfResult id query result := by
  rw [stepsRemotely, h]
  cases hsteps : stepsOfResult id query result with
  | error e => simp only [bind, Except.bind, hsteps]
  | ok x =>
    simp only [bind, Except.bind, hsteps, hsent]
    rfl

/-- A request for the steps of an expression. -/
structure AsksSteps (r : Request) (query : String) : Prop where
  method : r.method = "GET"
  path : r.path = "/steps"
  query : r.param? "query" = some query

theorem dispatch_steps {r : Request} {query : String} (hr : AsksSteps r query) (app : App)
    (id : String) : dispatch app id r = handleExpressionSteps app id (some query) := by
  have hroute : (routes.find? fun x => x.1 = r.path ∧ x.2.1 = r.method) =
      some ("/steps", "GET", .expressionSteps) := by
    rw [hr.path, hr.method]
    decide
  rw [dispatch, hroute]
  simp only [hr.query]

/-- A service that parses for itself, and one with the same settings and room that has another service,
which has the same limits, do so. -/
structure Delegates (here there other : App) (new : String) : Prop where
  parsesHere : here.settings.parserMode = .local
  parsesThere : there.settings.parserMode = .remote
  limits : there.settings.limits = here.settings.limits
  room : there.room = here.room
  configured : there.settings.parserBaseUrl.getD "" ≠ ""
  remote : there.remote = other.answers new
  sameLimits : other.settings.limits = here.settings.limits

section

variable {here there other : App} {otherNew : String} (hd : Delegates here there other otherNew)
  (hplaces : 0 ≤ here.settings.resultPlaces) {r : Request} {query : String}
  (hr : AsksSteps r query) (hlength : query.length ≤ pow10 Json.maxDigits) (new : String)

include hd hr

/-- The service that delegates asks a remote parser. -/
theorem exists_dispatch_there (id : String) :
    ∃ parser, dispatch there id r = stepsRemotely there parser id query := by
  obtain ⟨parser, hparser⟩ := RemoteParser.exists_ofSettings hd.configured
  refine ⟨parser, ?_⟩
  rw [dispatch_steps hr, handleExpressionSteps, hd.parsesThere]
  simp only [hparser]

include hplaces hlength

/-- Both services reply with the steps of a parse result: of that of the expression, and of that of
the expression without the blanks around it. If there is none, one has no reply, and the other replies
that the parser failed. -/
theorem replies_cases :
    (∃ result trimmed,
      Expression.parse here.settings.limits query.toList = .ok result ∧
      Expression.parse here.settings.limits (Text.trim query.toList) = .ok trimmed ∧
      Handled.reply <$> dispatch here (requestId r new) r =
        Handled.reply <$> stepsOfResult (requestId r new) query result ∧
      Handled.reply <$> dispatch there (requestId r new) r =
        Handled.reply <$> stepsOfResult (requestId r new) query trimmed) ∨
    ∃ e, Expression.parse here.settings.limits query.toList = .error e ∧
      dispatch here (requestId r new) r = .error (.arithmetic e) ∧
      Handled.reply <$> dispatch there (requestId r new) r =
        .ok (remoteFault (requestId r new) (.failed none 500)) := by
  have hlimit := here.settings.neg_places_le hplaces
  have hshort : (Text.trim query.toList).length ≤ pow10 Json.maxDigits := by
    obtain ⟨lead, trail, hs, -⟩ := Text.exists_trim query.toList
    have hcount := congrArg List.length hs
    rw [List.length_append, List.length_append] at hcount
    have hquery : query.toList.length = query.length := rfl
    omega
  obtain ⟨parser, hthere⟩ := exists_dispatch_there hd hr (requestId r new)
  have hlocal : dispatch here (requestId r new) r = stepsLocally here (requestId r new) query := by
    rw [dispatch_steps hr, handleExpressionSteps, hd.parsesHere]
  rw [hlocal, hthere]
  rcases Expression.sendable_or_noOutcome here.settings.limits hlimit hshort with
    ⟨trimmed, htrimmed, hsendable⟩ | ⟨e, he⟩
  · have hother : Expression.parse other.settings.limits (Text.trim query.toList) = .ok trimmed := by
      rw [hd.sameLimits, htrimmed]
    have hparse : ∃ result, Expression.parse here.settings.limits query.toList = .ok result := by
      rcases Expression.parse_trim _ htrimmed with ⟨ts, x, v, -, -, hparse⟩ | ⟨f, -, -, hparse⟩ <;>
        exact ⟨_, hparse⟩
    obtain ⟨result, hparse⟩ := hparse
    refine .inl ⟨result, trimmed, hparse, htrimmed, reply_stepsLocally here _ query hparse, ?_⟩
    refine reply_stepsRemotely there parser _ query ?_ (repeatsUnpaired_eq ?_)
    · rw [hd.remote]
      exact parse_answers parser there.room otherNew hother hsendable
    · rw [hd.remote]
      exact sent_answers parser there.room otherNew hother hsendable
  · have htrimmed := he.parse_eq hlimit
    have hparse := Expression.parse_error_of_trim _ htrimmed
    refine .inr ⟨e, hparse, ?_, ?_⟩
    · rw [stepsLocally, parseLocally_of_error hparse]
      rfl
    · have hother : Expression.parse other.settings.limits (Text.trim query.toList) = .error e := by
        rw [hd.sameLimits, htrimmed]
      rw [stepsRemotely, hd.remote, parse_answers_of_error parser there.room otherNew hother]
      rfl

/-- The answers for a faulty expression. -/
theorem answers_of_fault {f : ExpressionFault}
    (hf : evaluate here.settings.limits.maxLength query.toList = .error f) (htold : f.isTold = true) :
    ∃ f', f = f'.shift (leadingBlanks query.toList) ∧
      Exchange.answer <$> exchange here new r =
        .ok (400, (faultReply (requestId r new) f).body) ∧
      Exchange.answer <$> exchange there new r =
        .ok (400, (faultReply (requestId r new) f').body) := by
  rcases replies_cases hd hplaces hr hlength new with
    ⟨result, trimmed, hparse, htrimmed, hhere, hthere⟩ | ⟨e, hparse, -, -⟩
  · have hsent (id : String) (room : Json.Room) (f : ExpressionFault) :
        (faultReply id f).body.sendError? room.writing = none :=
      sendError?_ofError_text id f.code 400 f.message (by simp) room
    rcases Expression.parse_trim here.settings.limits htrimmed with
      ⟨ts, x, v, -, hevaluate, -⟩ | ⟨f', rfl, hevaluate, hresult⟩
    · rw [hf] at hevaluate
      cases hevaluate
    · rw [hf] at hevaluate
      obtain rfl := Except.error.inj hevaluate
      rw [hresult] at hparse
      obtain rfl := Except.ok.inj hparse
      rw [stepsOfResult_ofFault] at hhere hthere
      exact ⟨f', rfl, answer_of_reply hr.method hhere (hsent _ _ _),
        answer_of_reply hr.method hthere (hsent _ _ _)⟩
  · rw [Expression.parse, hf] at hparse
    simp only [htold] at hparse
    cases hparse

/-- The answers are the same unless a position is told that the blanks in front count for. -/
theorem answers_eq_of_place {result : ParseResult}
    (hparse : Expression.parse here.settings.limits query.toList = .ok result)
    (hplace : (∀ c position, evaluate here.settings.limits.maxLength query.toList ≠
      .error (.invalidCharacter c position)) ∨ leadingBlanks query.toList = 0) :
    Exchange.answer <$> exchange there new r = Exchange.answer <$> exchange here new r := by
  rcases replies_cases hd hplaces hr hlength new with
    ⟨result', trimmed, hparse', htrimmed, hhere, hthere⟩ | ⟨e, hnone, -, -⟩
  · obtain rfl := Except.ok.inj (hparse.symm.trans hparse')
    refine answer_eq_of_reply hr.method hd.room ?_
    rw [hhere, hthere]
    rcases Expression.parse_trim here.settings.limits htrimmed with
      ⟨ts, x, v, rfl, -, hresult⟩ | ⟨f, rfl, hevaluate, hresult⟩
    · rw [hresult] at hparse
      obtain rfl := Except.ok.inj hparse
      rw [stepsOfResult_shift]
    · rw [hresult] at hparse
      obtain rfl := Except.ok.inj hparse
      have hmessage : (f.shift (leadingBlanks query.toList)).message = f.message := by
        rcases hplace with hother | hnone
        · refine f.message_shift _ fun c position hf => ?_
          rw [hevaluate, hf] at hother
          exact hother c _ rfl
        · rw [hnone, f.shift_zero]
      rw [stepsOfResult_ofFault, stepsOfResult_ofFault, faultReply, faultReply, f.code_shift,
        hmessage]
  · cases hparse.symm.trans hnone

/-- Without a parse result there is no answer here, and there the answer is that the other service
failed. -/
theorem answers_of_noOutcome {e : ArithmeticError}
    (he : Expression.NoOutcome here.settings.limits query.toList e) :
    exchange here new r = .error (.arithmetic e) ∧
      Exchange.answer <$> exchange there new r =
        .ok (502, (remoteFault (requestId r new) (.failed none 500)).body) := by
  have hnone := he.parse_eq (here.settings.neg_places_le hplaces)
  rcases replies_cases hd hplaces hr hlength new with
    ⟨result, trimmed, hparse, -, -, -⟩ | ⟨e', hparse, hhere, hthere⟩
  · cases hparse.symm.trans hnone
  · obtain rfl := Except.error.inj (hnone.symm.trans hparse)
    constructor
    · have hanswer := answer_of_get hr.method here new
      rw [hhere] at hanswer
      exact eq_error_of_map hanswer
    · have hreply : Handled.reply <$> dispatch there (requestId r new) r = Handled.reply <$>
          (.ok ⟨remoteFault (requestId r new) (.failed none 500), [], []⟩ :
            Except Failure Handled) := hthere
      refine answer_of_reply hr.method hreply ?_
      exact sendError?_ofError_text _ RemoteFault.code 502 "Parser request failed."
        (by simp [RemoteFault.details, Json.IsPlain.nat]) there.room

/-! ## Main result -/

/-- **Parsing by another service is as good as parsing here**, for every query and all settings with
which the query has a parse result: the status and the body of the answer are the same, unless the
query starts with blanks and is refused for a character. Then both answers refuse it for that
character, but where the service parses for itself the position counts from the start of the query, and
where another one does, from the first character that is no blank. A query without a parse result is
not answered where the service parses for itself, and where another one does, the answer is that it
failed. -/
theorem remote_parsing_transparent :
    (∀ result, Expression.parse here.settings.limits query.toList = .ok result →
      (∀ c position, evaluate here.settings.limits.maxLength query.toList ≠
        .error (.invalidCharacter c position)) ∨ leadingBlanks query.toList = 0 →
      Exchange.answer <$> exchange there new r = Exchange.answer <$> exchange here new r) ∧
    (∀ c position, evaluate here.settings.limits.maxLength query.toList =
        .error (.invalidCharacter c position) →
      leadingBlanks query.toList ≤ position ∧
      Exchange.answer <$> exchange here new r = .ok (400,
        (faultReply (requestId r new) (.invalidCharacter c position)).body) ∧
      Exchange.answer <$> exchange there new r = .ok (400,
        (faultReply (requestId r new)
          (.invalidCharacter c (position - leadingBlanks query.toList))).body)) ∧
    ∀ e, Expression.NoOutcome here.settings.limits query.toList e →
      exchange here new r = .error (.arithmetic e) ∧
      Exchange.answer <$> exchange there new r =
        .ok (502, (remoteFault (requestId r new) (.failed none 500)).body) := by
  refine ⟨fun result hparse hplace => ?_, fun c position hf => ?_, fun e he => ?_⟩
  · exact answers_eq_of_place hd hplaces hr hlength new hparse hplace
  · obtain ⟨f', hshift, hhere, hthere⟩ := answers_of_fault hd hplaces hr hlength new hf rfl
    cases f' with
    | invalidCharacter c' position' =>
      obtain ⟨rfl, rfl⟩ := ExpressionFault.invalidCharacter.inj hshift
      rw [Nat.add_sub_cancel]
      exact ⟨Nat.le_add_left _ _, hhere, hthere⟩
    | _ => cases hshift
  · exact answers_of_noOutcome hd hplaces hr hlength new he

end

def plainApp : App :=
  localApp {}

/-- A service that has the one with the default settings parse. -/
def delegatingApp : App :=
  { plainApp with
    settings := { parserMode := .remote, parserBaseUrl := some "http://parser.internal" }
    remote := plainApp.answers "other" }

theorem delegates_delegatingApp : Delegates plainApp delegatingApp plainApp "other" :=
  ⟨rfl, rfl, rfl, rfl, by decide, rfl, rfl⟩

set_option maxRecDepth 10000 in
/-- A sum with blanks around it. -/
theorem remote_parsing_transparent_sum :
    Exchange.answer <$> exchange delegatingApp "id"
        ⟨"GET", "/steps", [("query", " 2 + 3 ")], [], []⟩ =
      Exchange.answer <$> exchange plainApp "id"
        ⟨"GET", "/steps", [("query", " 2 + 3 ")], [], []⟩ := by
  have hvalue : (evaluate 200 " 2 + 3 ".toList).toOption.isSome = true := by decide +kernel
  have hparse : (Expression.parse {} " 2 + 3 ".toList).toOption.isSome = true := by decide +kernel
  obtain ⟨result, hresult⟩ := Option.isSome_iff_exists.1 hparse
  refine (remote_parsing_transparent delegates_delegatingApp (by decide) ⟨rfl, rfl, rfl⟩
    (by decide +kernel) "id").1 result (eq_ok_of_toOption hresult) (.inl fun c position hfault => ?_)
  have hnone : evaluate 200 " 2 + 3 ".toList = .error (.invalidCharacter c position) := hfault
  rw [hnone] at hvalue
  cases hvalue

set_option maxRecDepth 10000 in
/-- The character that is refused stands at one position of the query, and in the message of a
service that has another one parse it stands at another. -/
theorem remote_position_differs :
    Exchange.answer <$> exchange plainApp "id"
        ⟨"GET", "/steps", [("query", " 2=3")], [], []⟩ =
      .ok (400, (Reply.ofError "id" 400 "INVALID_CHARACTER"
        (.text "Invalid character '=' at position 2") []).body) ∧
    Exchange.answer <$> exchange delegatingApp "id"
        ⟨"GET", "/steps", [("query", " 2=3")], [], []⟩ =
      .ok (400, (Reply.ofError "id" 400 "INVALID_CHARACTER"
        (.text "Invalid character '=' at position 1") []).body) ∧
    "Invalid character '=' at position 2" ≠ "Invalid character '=' at position 1" := by
  have hfault : evaluate 200 " 2=3".toList = .error (.invalidCharacter '=' 2) :=
    (Expression.FirstFault.tokens ⟨by decide +kernel, by decide +kernel⟩ (by decide +kernel)
      (by decide +kernel)).evaluate_eq
  have hblanks : leadingBlanks " 2=3".toList = 1 := by decide
  have hsecond : (ExpressionFault.invalidCharacter '=' 2).message =
      "Invalid character '=' at position 2" := by decide +kernel
  have hfirst : (ExpressionFault.invalidCharacter '=' 1).message =
      "Invalid character '=' at position 1" := by decide +kernel
  obtain ⟨f, hshift, hhere, hthere⟩ := answers_of_fault delegates_delegatingApp (by decide)
    (r := ⟨"GET", "/steps", [("query", " 2=3")], [], []⟩) ⟨rfl, rfl, rfl⟩ (by decide +kernel)
    "id" hfault rfl
  rw [hblanks] at hshift
  cases f with
  | invalidCharacter c position =>
    obtain ⟨rfl, hposition⟩ := ExpressionFault.invalidCharacter.inj hshift
    obtain rfl : position = 1 := (Nat.succ.inj hposition).symm
    rw [faultReply, hsecond] at hhere
    rw [faultReply, hfirst] at hthere
    exact ⟨hhere, hthere, by decide⟩
  | _ => cases hshift

end Service

end Longhand
