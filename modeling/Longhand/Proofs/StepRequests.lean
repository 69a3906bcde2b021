import Longhand.Proofs.BalancedParentheses
import Longhand.Proofs.PostOrderTrees
import Longhand.Proofs.ShortNumerals
/-!
# Requests for the steps of an expression

A query that has a parse result is answered with it. The results of the service itself can all be
answered: the numerals of a valid expression are read, and a lone one is finite
(`Expression.not_unanswerable`). A remote parser may send any tokens, any value in place of an error
message, and texts that cannot be sent on.

Main results, `steps_answered_here` where the service parses for itself, and `steps_answered_remotely`
where a remote parser does.
-/

namespace Longhand

/-! ## Expressions that are parsed here -/

namespace TokenTree

/-- The numerals of a sound tree are read. -/
theorem Sound.isSome_read? {e : TokenTree} (he : e.Sound) :
    ∀ t ∈ e.postOrder, t.kind = .number → (Double.read? t.value.toList).isSome = true := by
  induction e with
  | numeral t h => simpa [postOrder, Sound] using fun _ => he
  | negation t h operand ih =>
    intro u hu hkind
    rcases List.mem_append.1 hu with hu | hu
    · exact ih he u hu hkind
    · obtain rfl := List.mem_singleton.1 hu
      cases (Token.kind_of_negation h).symm.trans hkind
  | binary t op h left right ihl ihr =>
    obtain ⟨hleft, hright, -⟩ := he
    intro u hu hkind
    simp only [postOrder, List.mem_append, List.mem_singleton] at hu
    rcases hu with (hu | hu) | rfl
    · exact ihl hleft u hu hkind
    · exact ihr hright u hu hkind
    · cases (Token.operator_of_binary h).1.symm.trans hkind

/-- A tree of numbers alone is a numeral. -/
theorem exists_eq_numeral {e : TokenTree} (h : ∀ t ∈ e.postOrder, t.kind = .number) :
    ∃ t hkind, e = numeral t hkind := by
  cases e with
  | numeral t hkind => exact ⟨t, hkind, rfl⟩
  | negation t hop operand =>
    cases (Token.kind_of_negation hop).symm.trans (h t (by simp [postOrder]))
  | binary t op hop left right =>
    cases (Token.operator_of_binary hop).1.symm.trans (h t (by simp [postOrder]))

end TokenTree

namespace Expression

open ParseResult

section

variable {maxLength : Int} {s : List Char} {ts : List Token} {x : Float}
  (h : Evaluated maxLength s ts x)

include h

/-- The tokens of an expression with a value, but for the parentheses, are those of a tree. -/
theorem exists_tree_of_evaluated : ∃ e : TokenTree, e.Sound ∧ e.value = x ∧
    ∀ t, t ∈ e.postOrder ↔ t ∈ ts ∧ t.kind ≠ .parenthesis := by
  have hts := scanned_of_scan h.tokens
  obtain ⟨post, horder, hvalue⟩ := h.value
  have hmem : ∀ t, t ∈ post ↔ t ∈ ts ∧ t.kind ≠ .parenthesis := by
    intro t
    by_cases ht : t.kind = .parenthesis
    · exact iff_of_false (fun hpost => (ordered_of_scan h.tokens horder t hpost).not_parenthesis ht)
        fun hts => hts.2 ht
    · rw [mem_ofTokens_iff hts horder ht, and_iff_left ht]
  have hknown : ∀ t ∈ post, t.kind = .operator → (Operator.ofSymbol? t.value).isSome = true :=
    fun t ht => (hts t ((hmem t).1 ht).1).known
  rcases TokenTree.value_cases hknown with ⟨e, he, rfl, heq⟩ | ⟨f, -, heq⟩ | ⟨-, heq⟩
  · exact ⟨e, he, Except.ok.inj (heq.symm.trans hvalue), hmem⟩
  · cases heq.symm.trans hvalue
  · cases heq.symm.trans hvalue

/-- The numbers of an expression with a value are read. -/
theorem isSome_read?_of_evaluated {t : Token} (ht : t ∈ ts) (hkind : t.kind = .number) :
    (Double.read? t.value.toList).isSome = true := by
  obtain ⟨e, he, -, hmem⟩ := exists_tree_of_evaluated h
  exact he.isSome_read? t ((hmem t).2 ⟨ht, by simp [hkind]⟩) hkind

/-- A lone numeral is the value. -/
theorem eq_of_lone_numeral (hops : ∀ u ∈ ts, u.kind ≠ .operator)
    (hsigns : ∀ u ∈ ts, u.kind ≠ .unaryMinus) {t : Token} (ht : t ∈ ts) (hkind : t.kind = .number)
    {y : Float} (hy : Double.read? t.value.toList = some y) : y = x := by
  obtain ⟨e, he, rfl, hmem⟩ := exists_tree_of_evaluated h
  have hnumbers : ∀ u ∈ e.postOrder, u.kind = .number := by
    intro u hu
    obtain ⟨hu, hparen⟩ := (hmem u).1 hu
    have hop := hops u hu
    have hsign := hsigns u hu
    cases hkind : u.kind <;> simp_all
  obtain ⟨u, hu, rfl⟩ := TokenTree.exists_eq_numeral hnumbers
  obtain rfl : t = u := by simpa [TokenTree.postOrder] using (hmem t).2 ⟨ht, by simp [hkind]⟩
  simp [TokenTree.value, hy]

/-- **An expression that is parsed here can be answered.** -/
theorem not_unanswerable (hx : x.isFinite = true) (e : Service.Failure) : ¬Unanswerable ts e := by
  intro hu
  have hcases := taskOf_taskOfTokens ts
  cases hu with
  | notNumeral htask =>
    rw [htask] at hcases
    cases hcases with
    | notNumeral ht hkind hnone =>
      have hsome := isSome_read?_of_evaluated h ht hkind
      rw [hnone] at hsome
      cases hsome
  | infinite htask hy =>
    rw [htask] at hcases
    cases hcases with
    | numeral hops hsigns ht hkind hread =>
      obtain rfl := eq_of_lone_numeral h hops hsigns ht hkind hread
      obtain ⟨d, hexact, -⟩ := Double.moderate_exact hx
      cases hexact.symm.trans hy

/-- **The steps of an expression that is parsed here are sent with all their numbers**, unless the
problem overflows. -/
theorem sent_steps_iff (hx : x.isFinite = true) {task : ExpressionTask} {steps : List Step}
    (htask : taskOfTokens ts = .ok task) (hsteps : task.steps = .ok steps) :
    (∀ s ∈ steps, s.sent = s.toJson.withoutNulls) ↔ ∀ p, task = .problem p → ¬p.Overflows := by
  have hcases := taskOf_taskOfTokens ts
  rw [htask] at hcases
  cases task with
  | problem p =>
    obtain ⟨hdoubles, hcheck⟩ := hcases.problem
    obtain rfl := Except.ok.inj hsteps
    simp only [ExpressionTask.problem.injEq, forall_eq']
    exact Problem.sent_steps_iff hdoubles hcheck
  | numeral y =>
    refine iff_of_true ?_ (by simp)
    cases hcases with
    | numeral hops hsigns ht hkind hread =>
      obtain rfl := eq_of_lone_numeral h hops hsigns ht hkind hread
      rcases ExpressionTask.numeralSteps_cases y with ⟨s, hs, hfinite, -⟩ | ⟨negative, -, he⟩
      · obtain rfl := Except.ok.inj (hs.symm.trans hsteps)
        simpa [s.sent_eq_iff, hfinite] using hx
      · cases he.symm.trans hsteps

end

end Expression

namespace ParseResult

/-- The expression is valid and asks for a quotient that is too large for a double. -/
def Overflows (r : ParseResult) : Prop :=
  ∃ ts result p, r = .valid ts result ∧ taskOfTokens ts = .ok (.problem p) ∧ p.Overflows

end ParseResult

namespace Service

open ParseResult

section

variable {app : App} {r : Request} {query : String} (hr : AsksSteps r query) (new : String)

include hr

theorem answer_here (hlocal : app.settings.parserMode = .local) {result : ParseResult}
    (hparse : Expression.parse app.settings.limits query.toList = .ok result) :
    Exchange.answer <$> exchange app new r =
      sent app.room.writing (stepsOfResult (requestId r new) query result) := by
  rw [answer_of_get hr.method, dispatch_steps hr, handleExpressionSteps, hlocal]
  exact sent_congr (reply_stepsLocally app _ query hparse) _

theorem error_here (hlocal : app.settings.parserMode = .local) {e : ArithmeticError}
    (hparse : Expression.parse app.settings.limits query.toList = .error e) :
    exchange app new r = .error (.arithmetic e) := by
  have hanswer := answer_of_get hr.method app new
  rw [dispatch_steps hr, handleExpressionSteps, hlocal, stepsLocally,
    parseLocally_of_error hparse] at hanswer
  exact eq_error_of_map hanswer

/-- **A request for steps where the service parses for itself** is answered, for every query and all
settings with which the query has a parse result. The answer is the steps, of which there are some, or
the fault of the task, if the expression is valid, and else the fault of the expression, with its
message and code. The steps are sent with all their numbers, unless the expression asks for a quotient
that is too large for a double, which none of at most 300 characters does. Only if the parser has no
outcome is there no answer. -/
theorem steps_answered_here (hlocal : app.settings.parserMode = .local)
    (hplaces : 0 ≤ app.settings.resultPlaces) :
    (∃ result a, Expression.parse app.settings.limits query.toList = .ok result ∧
      Exchange.answer <$> exchange app new r = .ok a ∧ Answers (requestId r new) query result a ∧
      (∀ ts message code, result = .invalid ts message code → code = some (failureCode code)) ∧
      (∀ ts value task steps, result = .valid ts value → taskOfTokens ts = .ok task →
        task.steps = .ok steps →
        ((∀ s ∈ steps, s.sent = s.toJson.withoutNulls) ↔ ¬result.Overflows)) ∧
      (app.settings.maxExpressionLength ≤ 300 → ¬result.Overflows)) ∨
    ∃ e, Expression.NoOutcome app.settings.limits query.toList e ∧
      exchange app new r = .error (.arithmetic e) := by
  have hlimit := app.settings.neg_places_le hplaces
  rcases Expression.parse_eq app.settings.limits hlimit query.toList with
    ⟨ts, x, d, he, hexact, -, hparse⟩ | ⟨f, -, hparse⟩ | ⟨e, he⟩
  · have hx := Double.isFinite_of_exact hexact
    obtain ⟨a, ha, hanswers⟩ := exists_answer_of_answerable app.room (requestId r new) query ts
      (Number.ofDecimal (d.atExponent (-app.settings.limits.places)))
      (Expression.not_unanswerable he hx)
    refine .inl ⟨_, a, hparse, (answer_here hr new hlocal hparse).trans ha, hanswers, by simp, ?_, ?_⟩
    · rintro ts' value task steps hvalid htask hsteps
      obtain ⟨rfl, -⟩ := ParseResult.valid.inj hvalid
      rw [Expression.sent_steps_iff he hx htask hsteps]
      constructor
      · rintro hfits ⟨ts', value', p, hvalid', htask', hp⟩
        obtain ⟨rfl, -⟩ := ParseResult.valid.inj hvalid'
        exact hfits p (Except.ok.inj (htask.symm.trans htask')) hp
      · rintro hfits p rfl hp
        exact hfits ⟨ts, _, p, rfl, htask, hp⟩
    · rintro hmax ⟨ts', value, p, hvalid, htask, hp⟩
      obtain ⟨rfl, -⟩ := ParseResult.valid.inj hvalid
      exact Expression.not_overflows_of_short he hmax htask hp
  · have hanswer := (answer_here hr new hlocal hparse).trans
      (sent_of_invalid app.room _ query [] f.message (some f.code))
    refine .inl ⟨_, _, hparse, hanswer, .faulty .., ?_, by simp [ParseResult.ofFault], ?_⟩
    · rintro ts message code heq
      obtain ⟨-, -, rfl⟩ := ParseResult.invalid.inj heq
      cases f <;> rfl
    · rintro - ⟨ts, value, p, hvalid, -⟩
      cases hvalid
  · exact .inr ⟨e, he, error_here hr new hlocal (he.parse_eq hlimit)⟩

end

set_option maxRecDepth 10000 in
/-- The operator that comes first stands before a group. -/
theorem steps_answered_here_before_group :
    Exchange.answer <$> exchange plainApp "id"
        ⟨"GET", "/steps", [("query", "2×(3+4)")], [], []⟩ =
      .ok (422, (stepFault "id" .unsuitable).body) := by
  let ts : List Token := [⟨.number, "2", 0⟩, ⟨.operator, "×", 1⟩, ⟨.parenthesis, "(", 2⟩,
    ⟨.number, "3", 3⟩, ⟨.operator, "+", 4⟩, ⟨.number, "4", 5⟩, ⟨.parenthesis, ")", 6⟩]
  have hvalid : Expression.parse {} "2×(3+4)".toList = .ok (.valid ts (.int 14)) := by
    decide +kernel
  have htask : taskOfTokens ts = .error (.fault .unsuitable) := by decide +kernel
  rcases @steps_answered_here plainApp ⟨"GET", "/steps", [("query", "2×(3+4)")], [], []⟩ "2×(3+4)"
      ⟨rfl, rfl, rfl⟩ "id" rfl (by decide) with
    ⟨result, a, hparse, ha, hanswers, -, -, -⟩ | ⟨e, he, -⟩
  · obtain rfl := Except.ok.inj (hvalid.symm.trans hparse)
    cases hanswers with
    | worked hworked => cases hworked.symm.trans htask
    | refused hrefused =>
      obtain rfl := StepError.fault.inj (Except.error.inj (htask.symm.trans hrefused))
      exact ha
  · cases hvalid.symm.trans (he.parse_eq (by decide))

/-- **An expression whose steps are not told**, for the settings ask for more places than a calculation
keeps digits. -/
theorem steps_with_all_places_fail :
    exchange (localApp { resultPlaces := 10 ^ 18 }) "id"
        ⟨"GET", "/steps", [("query", "2/3")], [], []⟩ =
      .error (.arithmetic (.precisionTooLarge (10 ^ 18 + 1))) :=
  error_here ⟨rfl, rfl, rfl⟩ "id" rfl (by decide +kernel)

/-! ## Expressions that a remote parser parses -/

/-- What leaves a request without an answer that a remote parser was asked for, and how it ends: the
client or the body of the remote answer, a message or a text that cannot be sent on, or tokens whose
steps cannot be told. -/
inductive Fails (room : Json.Room) (sent? : Option Json) :
    Except RemoteError ParseResult → Failure → Prop
  | message {j : Json} (status : Nat) {why : Json.SendError}
      (h : j.sendError? (room.writing - 2) = some why) :
      Fails room sent? (.error (.fault (.failed (some j) status))) (.unsendable why)
  | tooDeep : Fails room sent? (.error .nestedTooDeep) .nestedTooDeep
  | aborted (exception : String) : Fails room sent? (.error (.aborted exception)) (.aborted exception)
  | tokens {ts : List Token} (result : Number) {e : Failure} (h : Unanswerable ts e) :
      Fails room sent? (.ok (.valid ts result)) e
  | repeated {result : ParseResult}
      (hresult : ∀ ts value e, result = .valid ts value → ¬Unanswerable ts e)
      (h : repeatsUnpaired sent? result = true) : Fails room sent? (.ok result) (.unsendable .unpaired)

/-- The message of a remote failure is something else than a text. -/
inductive Wordless : Except RemoteError ParseResult → Prop
  | message {j : Json} (status : Nat) (hj : ∀ s, j ≠ .text s) :
      Wordless (.error (.fault (.failed (some j) status)))

/-- An answer with steps, or with an error that is told in words. -/
inductive Told (id query : String) : Nat × ReplyBody → Prop
  | steps {steps : List Step} (h : steps ≠ []) : Told id query (200, .json (sentSteps query steps))
  | error {status : Nat} (h : status = 400 ∨ status = 422 ∨ status = 502) (code message : String)
      (details : List (String × Json)) :
      Told id query (status, (Reply.ofError id status code (.text message) details).body)

theorem Answers.told {id query : String} {result : ParseResult} {a : Nat × ReplyBody}
    (h : Answers id query result a) : Told id query a := by
  cases h with
  | worked _ _ hne => exact .steps hne
  | @refused _ _ f _ => exact .error (.inr (.inl rfl)) StepFault.code f.message f.details
  | faulty ts message code => exact .error (.inl rfl) _ message []

/-- What is answerable has an answer, in words. -/
theorem exists_told_of_answerable (room : Json.Room) (id query : String)
    {result : ParseResult}
    (h : ∀ ts value e, result = .valid ts value → ¬Unanswerable ts e) :
    ∃ a, sent room.writing (stepsOfResult id query result) = .ok a ∧ Told id query a := by
  cases result with
  | valid ts value =>
    obtain ⟨a, ha, hanswers⟩ := exists_answer_of_answerable room id query ts value
      fun e => h ts value e rfl
    exact ⟨a, ha, hanswers.told⟩
  | invalid ts message code =>
    exact ⟨_, sent_of_invalid room id query ts message code, (Answers.faulty ts message code).told⟩

/-- An error is told in words only if its message is a text. -/
theorem exists_text_of_told {id query code : String} {message : Json}
    {details : List (String × Json)}
    (h : Told id query (502, (Reply.ofError id 502 code message details).body)) :
    ∃ s, message = .text s := by
  generalize ha : (502, (Reply.ofError id 502 code message details).body) = a at h
  cases h with
  | steps hne => cases (Prod.mk.inj ha).1
  | error hstatus code' message' details' =>
    obtain ⟨rfl, hbody⟩ := Prod.mk.inj ha
    refine ⟨message', ?_⟩
    simp only [Reply.ofError, Reply.json, ReplyBody.json.injEq, Json.object.injEq] at hbody
    simp at hbody
    exact hbody.2.1

/-- A fault of the remote parser is told in words exactly if its message is a text. -/
theorem told_remoteFault_iff (id query : String) (f : RemoteFault) :
    Told id query (502, (remoteFault id f).body) ↔ ¬Wordless (.error (.fault f)) := by
  have hwordless : Wordless (.error (.fault f)) ↔ ∀ s, f.message ≠ .text s := by
    constructor
    · intro h
      cases h with
      | message status hj => exact hj
    · intro h
      cases f with
      | failed message status =>
        cases message with
        | none => exact absurd rfl (h _)
        | some j => exact .message status h
      | _ => exact absurd rfl (h _)
  rw [hwordless]
  constructor
  · intro h hother
    obtain ⟨s, hs⟩ := exists_text_of_told h
    exact hother s hs
  · intro h
    obtain ⟨message, hmessage⟩ := not_forall_not.1 h
    rw [remoteFault, hmessage]
    exact .error (.inr (.inr rfl)) _ message f.details

/-- Only its message may stop a fault of the remote parser from being told. -/
theorem sendError?_remoteFault (id : String) (f : RemoteFault) (room : Json.Room) :
    (remoteFault id f).body.sendError? room.writing = f.message.sendError? (room.writing - 2) := by
  have hdetails : ∀ m ∈ f.details, m.2.IsPlain := by
    cases f <;> simp [RemoteFault.details, Json.IsPlain.nat]
  have hroom : 3 ≤ room.writing := Nat.le_trans (by decide) room.eight_le_writing
  obtain ⟨n, hn⟩ := Nat.exists_eq_add_of_le' hroom
  rw [hn, remoteFault, sendError?_ofError _ _ _ _ hdetails, Nat.add_sub_assoc (by decide)]

section

variable {app : App} {r : Request} {query : String} (hr : AsksSteps r query) (new : String)
  (hremote : app.settings.parserMode = .remote) {parser : RemoteParser}
  (hparser : RemoteParser.ofSettings app.settings = .ok parser)

include hr hremote hparser

theorem answer_remotely : Exchange.answer <$> exchange app new r =
    sent app.room.writing (stepsRemotely app parser (requestId r new) query) := by
  rw [answer_of_get hr.method, dispatch_steps hr, handleExpressionSteps, hremote]
  simp only [hparser]

theorem answer_of_remote_fault {f : RemoteFault}
    (hparse : parser.parse app.room.reading app.remote query.toList = .error (.fault f)) :
    Exchange.answer <$> exchange app new r =
      match f.message.sendError? (app.room.writing - 2) with
      | some why => .error (.unsendable why)
      | none => .ok (502, (remoteFault (requestId r new) f).body) := by
  rw [answer_remotely hr new hremote hparser, stepsRemotely, hparse,
    ← sendError?_remoteFault (requestId r new) f]
  rfl

theorem answer_of_remote_result {result : ParseResult}
    (hparse : parser.parse app.room.reading app.remote query.toList = .ok result)
    (hsent : repeatsUnpaired (parser.sent? app.room.reading app.remote query.toList) result =
      false) :
    Exchange.answer <$> exchange app new r =
      sent app.room.writing (stepsOfResult (requestId r new) query result) := by
  rw [answer_remotely hr new hremote hparser]
  exact sent_congr (reply_stepsRemotely app parser _ query hparse hsent) _

/-- **What a request is left without an answer for.** -/
theorem error_of_fails {e : Failure}
    (h : Fails app.room (parser.sent? app.room.reading app.remote query.toList)
      (parser.parse app.room.reading app.remote query.toList) e) :
    exchange app new r = .error e := by
  apply eq_error_of_map (f := Exchange.answer)
  generalize hsent? : parser.sent? app.room.reading app.remote query.toList = sent? at h
  generalize hparse : parser.parse app.room.reading app.remote query.toList = outcome at h
  cases h with
  | @message j status why h =>
    have hmessage : (RemoteFault.failed (some j) status).message = j := rfl
    rw [answer_of_remote_fault hr new hremote hparser hparse, hmessage, h]
  | tooDeep =>
    rw [answer_remotely hr new hremote hparser, stepsRemotely, hparse]
    rfl
  | aborted exception =>
    rw [answer_remotely hr new hremote hparser, stepsRemotely, hparse]
    rfl
  | @tokens ts result e h =>
    rw [answer_remotely hr new hremote hparser, stepsRemotely, hparse]
    simp only [error_of_unanswerable (requestId r new) query ts result h]
    rfl
  | @repeated result hresult h =>
    obtain ⟨a, ha, -⟩ := exists_told_of_answerable app.room (requestId r new) query hresult
    obtain ⟨made, hmade, -⟩ := exists_of_bind_eq_ok ha
    rw [answer_remotely hr new hremote hparser, stepsRemotely, hparse, hsent?]
    simp only [hmade, bind, Except.bind, h]
    rfl

/-- **Any other request is answered**, in words if the remote parser used words. -/
theorem exists_answer_of_not_fails
    (h : ∀ e, ¬Fails app.room (parser.sent? app.room.reading app.remote query.toList)
      (parser.parse app.room.reading app.remote query.toList) e) :
    ∃ a, Exchange.answer <$> exchange app new r = .ok a ∧
      (Told (requestId r new) query a ↔
        ¬Wordless (parser.parse app.room.reading app.remote query.toList)) := by
  cases hparse : parser.parse app.room.reading app.remote query.toList with
  | error e =>
    rw [hparse] at h
    cases e with
    | fault f =>
      have hfault := answer_of_remote_fault hr new hremote hparser hparse
      cases hsend : f.message.sendError? (app.room.writing - 2) with
      | none =>
        rw [hsend] at hfault
        exact ⟨_, hfault, told_remoteFault_iff _ _ f⟩
      | some why =>
        cases f with
        | failed message status =>
          cases message with
          | none => cases hsend
          | some j => exact absurd (.message status hsend) (h _)
        | _ => cases hsend
    | nestedTooDeep => exact absurd .tooDeep (h _)
    | aborted exception => exact absurd (.aborted exception) (h _)
  | ok result =>
    rw [hparse] at h
    have hresult : ∀ ts value e, result = .valid ts value → ¬Unanswerable ts e := by
      rintro ts value e rfl hu
      exact h e (.tokens value hu)
    have hsent : repeatsUnpaired (parser.sent? app.room.reading app.remote query.toList) result =
        false := by
      rw [← Bool.not_eq_true]
      exact fun hrepeats => h _ (.repeated hresult hrepeats)
    have hworded : ¬Wordless (.ok result) := by
      intro hmessage
      cases hmessage
    obtain ⟨a, ha, htold⟩ := exists_told_of_answerable app.room (requestId r new) query hresult
    rw [answer_of_remote_result hr new hremote hparser hparse hsent]
    exact ⟨a, ha, iff_of_true htold hworded⟩

omit hparser in
/-- **A request for steps where a remote parser parses** is answered with steps, or with an error
that is told in words and has the status 400, 422 or 502, for every query, all settings and every
remote parser, unless it is left without an answer or the remote parser failed with a message that is
no text, which is passed on as it is. -/
theorem steps_answered_remotely (hurl : app.settings.parserBaseUrl.getD "" ≠ "") :
    ∃ parser, RemoteParser.ofSettings app.settings = .ok parser ∧
      let outcome := parser.parse app.room.reading app.remote query.toList
      let sent? := parser.sent? app.room.reading app.remote query.toList
      ((∃ a, Exchange.answer <$> exchange app new r = .ok a ∧ Told (requestId r new) query a) ↔
        (∀ e, ¬Fails app.room sent? outcome e) ∧ ¬Wordless outcome) ∧
      (∀ e, exchange app new r = .error e ↔ Fails app.room sent? outcome e) ∧
      ∀ j status, outcome = .error (.fault (.failed (some j) status)) →
        j.sendError? (app.room.writing - 2) = none →
        Exchange.answer <$> exchange app new r =
          .ok (502, (remoteFault (requestId r new) (.failed (some j) status)).body) := by
  obtain ⟨parser, hparser⟩ := RemoteParser.exists_ofSettings hurl
  refine ⟨parser, hparser, ?_⟩
  intro outcome sent?
  have hfails {e : Failure} (h : Fails app.room sent? outcome e) : exchange app new r = .error e :=
    error_of_fails hr new hremote hparser h
  have hanswer (h : ∀ e, ¬Fails app.room sent? outcome e) :=
    exists_answer_of_not_fails hr new hremote hparser h
  refine ⟨⟨?_, ?_⟩, fun e => ⟨?_, hfails⟩, ?_⟩
  · rintro ⟨a, ha, htold⟩
    have hnone : ∀ e, ¬Fails app.room sent? outcome e := by
      intro e he
      rw [hfails he] at ha
      cases ha
    obtain ⟨a', ha', hiff⟩ := hanswer hnone
    obtain rfl := Except.ok.inj (ha.symm.trans ha')
    exact ⟨hnone, hiff.1 htold⟩
  · rintro ⟨hnone, hworded⟩
    obtain ⟨a, ha, hiff⟩ := hanswer hnone
    exact ⟨a, ha, hiff.2 hworded⟩
  · intro herror
    by_contra hnot
    obtain ⟨a, ha, -⟩ := hanswer fun e' he' => by
      obtain rfl := Except.error.inj (herror.symm.trans (hfails he'))
      exact hnot he'
    rw [herror] at ha
    cases ha
  · intro j status hparse hsend
    have hmessage : (RemoteFault.failed (some j) status).message = j := rfl
    rw [answer_of_remote_fault hr new hremote hparser hparse, hmessage, hsend]

end

/-- A service whose remote parser gives one answer to everything. -/
def remoteApp (answer : RemoteAnswer) : App :=
  { plainApp with
    settings := { parserMode := .remote, parserBaseUrl := some "http://parser.internal" }
    remote := fun _ => answer }

/-- The answer of a remote parser with a token and a value. -/
def validAnswer (t : Token) : RemoteAnswer :=
  .answered 200 (Text.utf8 (Json.write (ParseResult.valid [t] (.int 1)).toJson.withoutNulls))

theorem Token.short_zero (kind : TokenKind) (value : String) : Token.Short ⟨kind, value, 0⟩ := by
  change (Digits.ofNat 0).length ≤ Json.maxDigits
  decide +kernel

section

variable (parser : RemoteParser) (room : Json.Room) (t : Token) (ht : t.Short)

include ht

/-- One token and a value are what the remote parser gives, and its JSON is what it sent. -/
theorem parse_validAnswer :
    parser.parse room.reading (fun _ => validAnswer t) "1".toList = .ok (.valid [t] (.int 1)) ∧
      parser.sent? room.reading (fun _ => validAnswer t) "1".toList =
        some (ParseResult.valid [t] (.int 1)).toJson.withoutNulls := by
  have hsendable : (ParseResult.valid [t] (.int 1)).Sendable :=
    .valid (by simpa using ht) (.int (by decide +kernel))
  have hread := hsendable.readOctets_write room
  constructor
  · change RemoteParser.interpret room.reading (validAnswer t) = _
    simp only [validAnswer, RemoteParser.interpret, RemoteParser.interpretBody, hread,
      hsendable.read_withoutNulls]
    rfl
  · change (Json.readOctets room.reading
      (Text.utf8 (Json.write (ParseResult.valid [t] (.int 1)).toJson.withoutNulls))).toOption = _
    rw [hread]
    rfl

end

/-- A token that no expression has. -/
theorem steps_answered_remotely_stray :
    ∃ a, Exchange.answer <$> exchange (remoteApp (validAnswer ⟨.parenthesis, "abc", 0⟩)) "id"
        ⟨"GET", "/steps", [("query", "1")], [], []⟩ = .ok a ∧ Told "id" "1" a := by
  let t : Token := ⟨.parenthesis, "abc", 0⟩
  let app := remoteApp (validAnswer t)
  obtain ⟨parser, hparser, htold, -, -⟩ := @steps_answered_remotely app
    ⟨"GET", "/steps", [("query", "1")], [], []⟩ "1" ⟨rfl, rfl, rfl⟩ "id" rfl (by decide)
  obtain ⟨hparse, hsent⟩ : parser.parse app.room.reading app.remote "1".toList =
        .ok (.valid [t] (.int 1)) ∧
      parser.sent? app.room.reading app.remote "1".toList =
        some (ParseResult.valid [t] (.int 1)).toJson.withoutNulls :=
    parse_validAnswer parser app.room t (Token.short_zero _ _)
  have hpaired : repeatsUnpaired (parser.sent? app.room.reading app.remote "1".toList)
      (.valid [t] (.int 1)) = false :=
    repeatsUnpaired_eq fun j hj => (Option.some.inj (hsent.symm.trans hj)).symm
  have htask : taskOfTokens [t] = .error (.fault .unsuitable) := rfl
  refine htold.2 ⟨fun e he => ?_, fun hwordless => ?_⟩
  · rw [hparse] at he
    cases he with
    | tokens _ h =>
      cases h with
      | notNumeral h => cases htask.symm.trans h
      | infinite h _ => cases htask.symm.trans h
    | repeated _ h => cases h.symm.trans hpaired
  · rw [hparse] at hwordless
    cases hwordless

/-- What a remote parser may say that failed: its message is a number. -/
def numberedFailure : Json :=
  .object [("error", .object [("message", .nat 5)])]

/-- **Remote parsers that do harm**: one whose message is a number, and one whose token is no
numeral. -/
theorem remote_parsers_harm :
    Exchange.answer <$> exchange
        (remoteApp (.answered 500 (Text.utf8 (Json.write numberedFailure)))) "id"
        ⟨"GET", "/steps", [("query", "1")], [], []⟩ =
      .ok (502, (Reply.ofError "id" 502 "PARSER_HTTP_ERROR" (.nat 5) [("status", .nat 500)]).body) ∧
    (∀ message, Json.nat 5 ≠ .text message) ∧
    exchange (remoteApp (validAnswer ⟨.number, "abc", 0⟩)) "id"
        ⟨"GET", "/steps", [("query", "1")], [], []⟩ = .error (.notNumeral "abc") := by
  let r : Request := ⟨"GET", "/steps", [("query", "1")], [], []⟩
  have hr : AsksSteps r "1" := ⟨rfl, rfl, rfl⟩
  obtain ⟨parser, hparser⟩ : ∃ parser, RemoteParser.ofSettings (remoteApp .unreachable).settings =
      .ok parser := ⟨_, rfl⟩
  refine ⟨?_, fun message h => Json.noConfusion h, ?_⟩
  · have hmessage : Json.Readable (.object [("message", .nat 5)]) :=
      .object (by decide) (by simpa using .int (by decide +kernel))
    have hread : Json.readOctets 900 (Text.utf8 (Json.write numberedFailure)) = .ok numberedFailure :=
      Json.readOctets_write (.object (by decide) (by simpa using hmessage)) (by decide)
    refine @answer_of_remote_fault (remoteApp (.answered 500 _)) r "1" hr "id" rfl parser hparser
      (.failed (some (.nat 5)) 500) ?_
    change RemoteParser.interpret 900 (.answered 500 _) = _
    simp only [RemoteParser.interpret, RemoteParser.interpretBody, hread]
    rfl
  · refine @error_of_fails (remoteApp (validAnswer _)) r "1" hr "id" rfl parser hparser _ ?_
    have hparse := parse_validAnswer parser plainApp.room ⟨.number, "abc", 0⟩ (Token.short_zero _ _)
    change Fails _ _ (parser.parse plainApp.room.reading (fun _ => validAnswer _) "1".toList) _
    rw [hparse.1]
    exact .tokens _ (.notNumeral rfl)

end Service

end Longhand
