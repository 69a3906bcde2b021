import Longhand.Proofs.ParseOutcome
import Longhand.Proofs.WrittenJson
import Longhand.Proofs.WrittenNumbers
import Longhand.Service.Session
/-!
# Parse results survive being sent

The answer of the service to a request for a parse result holds the result in JSON, without the
fields that do not apply. What is sent is read back as the result that the parser gave: no parse
result is inconsistent (`ParseResult.Sendable.read_withoutNulls`), and all its numbers are written as
they are read (`ParseResult.Sendable.readable`). A request is left without an answer only where the
parser has no result to give.
-/

namespace Longhand

/-! ## The size of numbers -/

/-- A decimal of moderate size is far from an integer too long to be read, wherever it is rounded. -/
theorem Decimal.Moderate.abs_atExponent_lt {d : Decimal} (h : d.Moderate) (e : Int) :
    |(d.atExponent e).toRat| < 10 ^ 1300 := by
  have hcoefficient : (d.coefficient : ℚ) ≤ 10 ^ 17 := by exact_mod_cast h.coefficient_le
  have hlow := h.low
  have hhigh := h.high
  have hpow {n m : Nat} (hnm : n + m < 1300) : (10 : ℚ) ^ n * 10 ^ (m : Int) < 10 ^ 1300 := by
    rw [zpow_natCast, ← pow_add]
    exact pow_lt_pow_right₀ (by norm_num) hnm
  rw [abs_toRat]
  rcases le_or_gt e d.exponent with hle | hgt
  · have hscale : (pow10 (d.exponent - e).toNat : ℚ) * 10 ^ e = 10 ^ d.exponent := by
      rw [pow10_toNat (by omega), ← ten_zpow_add, sub_add_cancel]
    rw [atExponent_of_le hle]
    push_cast
    rw [mul_assoc, hscale]
    calc (d.coefficient : ℚ) * 10 ^ d.exponent ≤ 10 ^ 17 * 10 ^ (1200 : Int) :=
          mul_le_mul hcoefficient (zpow_le_zpow_right₀ (by norm_num) hhigh) (ten_zpow_pos _).le
            (by positivity)
      _ < 10 ^ 1300 := hpow (by norm_num)
  · rw [atExponent_of_lt hgt]
    simp only
    by_cases hfar : d.exponent + 18 < e
    · have hunit : 10 ^ 19 ≤ pow10 (e - d.exponent).toNat :=
        Nat.pow_le_pow_right (by norm_num) (by omega)
      have hsmall : 2 * d.coefficient < pow10 (e - d.exponent).toNat := by
        have hc := h.coefficient_le
        omega
      rw [divHalfUp_of_lt hsmall]
      norm_num
    · have hrounded : (divHalfUp d.coefficient (pow10 (e - d.exponent).toNat) : ℚ) ≤ 10 ^ 18 := by
        have hle := divHalfUp_le d.coefficient (pow10 (e - d.exponent).toNat)
        have hc := h.coefficient_le
        exact_mod_cast hle.trans (by omega : d.coefficient + 1 ≤ 10 ^ 18)
      calc (divHalfUp d.coefficient (pow10 (e - d.exponent).toNat) : ℚ) * 10 ^ e
          ≤ 10 ^ 18 * 10 ^ (1220 : Int) :=
            mul_le_mul hrounded (zpow_le_zpow_right₀ (by norm_num) (by omega)) (ten_zpow_pos _).le
              (by positivity)
        _ < 10 ^ 1300 := hpow (by norm_num)

/-- A rounded number is written as it is read. -/
theorem Decimal.Moderate.readable_atExponent {d : Decimal} (h : d.Moderate) (e : Int) :
    Json.Readable (.number (Number.ofDecimal (d.atExponent e))) := by
  have hfinite := h.isFinite_atExponent e
  unfold Number.ofDecimal at hfinite ⊢
  split at hfinite
  · rename_i i hi
    have hvalue := ((d.atExponent e).toInt?_eq_some_iff i).1 hi
    have hsize : i.natAbs < pow10 1300 := by
      have hlt := h.abs_atExponent_lt e
      rw [hvalue] at hlt
      have hcast : ((i.natAbs : Nat) : ℚ) < (pow10 1300 : Nat) := by
        rw [pow10_eq, Nat.cast_natAbs, Int.cast_abs]
        exact hlt
      exact_mod_cast hcast
    exact .int ((Digits.length_ofNat_le (by norm_num) hsize).trans (by decide))
  · exact .float hfinite

/-! ## Fields -/

namespace Read

variable {α : Type} {members : List (String × Json)} {name : String} {read : Json → Checked α}

theorem required_of_lookup {j : Json} {a : α} (hlookup : members.lookup name = some j)
    (hread : read j = .ok a) : required members name read = .ok a := by
  rw [required, hlookup]
  change Checked.within name (read j) = _
  rw [hread]
  rfl

theorem optional_of_lookup {j : Json} {a : α} (absent : α)
    (hlookup : members.lookup name = some j) (hread : read j = .ok a) :
    optional members name absent read = .ok a := by
  rw [optional, hlookup]
  change Checked.within name (read j) = _
  rw [hread]
  rfl

theorem optional_of_absent (absent : α) (hlookup : members.lookup name = none) :
    optional members name absent read = .ok absent := by
  rw [optional, hlookup]

end Read

/-! ## Tokens -/

namespace Token

theorem readKind_name (k : TokenKind) : readKind (.text k.name) = .ok k := by
  cases k <;> decide

theorem read_toJson (t : Token) : read t.toJson = .ok t := by
  obtain ⟨kind, value, position⟩ := t
  let members := [("type", Json.text kind.name), ("value", .text value),
    ("position", .nat position)]
  have hkind : Read.required members "type" readKind = .ok kind :=
    Read.required_of_lookup rfl (readKind_name kind)
  have hvalue : Read.required members "value" Read.string = .ok value :=
    Read.required_of_lookup rfl rfl
  have hint : Read.intFrom 0 (.nat position) = .ok (position : Int) := by
    simp [Read.intFrom, Read.int, Json.nat, Json.int, bind, Except.bind]
  have hposition : Read.required members "position" (Read.intFrom 0) = .ok (position : Int) :=
    Read.required_of_lookup rfl hint
  change readFields members = _
  rw [readFields, hkind, hvalue, hposition]
  rfl

/-- The position is written in digits that are all read. -/
def Short (t : Token) : Prop :=
  (Digits.ofNat t.position).length ≤ Json.maxDigits

theorem Short.readable {t : Token} (h : t.Short) : Json.Readable t.toJson := by
  refine .object (by simp) fun m hm => ?_
  simp only [List.mem_cons, List.not_mem_nil, or_false] at hm
  rcases hm with rfl | rfl | rfl
  · exact .text _
  · exact .text _
  · exact .int h

end Token

theorem Checked.list_read_toJson (ts : List Token) (index : Nat) :
    list Token.read index (ts.map Token.toJson) = .ok ts := by
  induction ts generalizing index with
  | nil => rfl
  | cons t ts ih =>
    rw [List.map_cons, list, ih, Token.read_toJson]
    rfl

theorem Json.itemsWithoutNulls_tokens (ts : List Token) :
    itemsWithoutNulls (ts.map Token.toJson) = ts.map Token.toJson := by
  induction ts with
  | nil => rfl
  | cons t ts ih =>
    rw [List.map_cons, itemsWithoutNulls, ih]
    rfl

/-! ## Parse results -/

namespace ParseResult

/-- A parse result that is consistent, with numbers that are written as they are read. -/
inductive Sendable : ParseResult → Prop
  | valid {ts : List Token} {result : Number} (hts : ∀ t ∈ ts, t.Short)
      (hresult : Json.Readable (.number result)) : Sendable (.valid ts result)
  | invalid {ts : List Token} {message : String} (code : Option String) (hts : ∀ t ∈ ts, t.Short)
      (hmessage : message ≠ "") : Sendable (.invalid ts message code)

theorem withoutNulls_valid (ts : List Token) (result : Number) :
    (valid ts result).toJson.withoutNulls = .object [("tokens", .array (ts.map Token.toJson)),
      ("isValid", .bool true), ("result", .number result)] := by
  simp [toJson, Json.withoutNulls, Json.membersWithoutNulls, Json.itemsWithoutNulls_tokens]

theorem withoutNulls_invalid (ts : List Token) (message : String) (code : Option String) :
    (invalid ts message code).toJson.withoutNulls = .object (
      [("tokens", .array (ts.map Token.toJson)), ("isValid", .bool false),
        ("error", .text message)] ++ (code.map fun c => ("errorType", Json.text c)).toList) := by
  cases code <;>
    simp [toJson, Json.ofOption, Json.withoutNulls, Json.membersWithoutNulls,
      Json.itemsWithoutNulls_tokens]

variable {r : ParseResult}

/-- **A parse result is read back from its fields that are not null.** -/
theorem Sendable.read_withoutNulls (h : r.Sendable) : read r.toJson.withoutNulls = .ok r := by
  have hread : ∀ {ms : List (String × Json)} {f : Fields},
      Read.optional ms "tokens" [] readTokens = .ok f.tokens →
      Read.required ms "isValid" Read.bool = .ok f.isValid →
      Read.optional ms "error" none (Read.nullable Read.string) = .ok f.error →
      Read.optional ms "errorType" none (Read.nullable Read.string) = .ok f.code →
      Read.optional ms "result" none (Read.nullable Read.number) = .ok f.result →
      read (.object ms) = ofFields f := by
    intro ms f htokens hvalid herror hcode hresult
    rw [read, readFields, htokens, hvalid, herror, hcode, hresult]
    rfl
  cases h with
  | @valid ts result hts hresult =>
    rw [withoutNulls_valid]
    exact hread (f := ⟨ts, true, none, none, some result⟩)
      (Read.optional_of_lookup [] rfl (Checked.list_read_toJson ts 0))
      (Read.required_of_lookup rfl rfl) (Read.optional_of_absent none rfl)
      (Read.optional_of_absent none rfl) (Read.optional_of_lookup none rfl rfl)
  | @invalid ts message code hts hmessage =>
    have hfields : ofFields ⟨ts, false, some message, code, none⟩ =
        .ok (.invalid ts message code) := by
      simp [ofFields, hmessage]
    rw [withoutNulls_invalid, ← hfields]
    cases code with
    | none =>
      exact hread (f := ⟨ts, false, some message, none, none⟩)
        (Read.optional_of_lookup [] rfl (Checked.list_read_toJson ts 0))
        (Read.required_of_lookup rfl rfl) (Read.optional_of_lookup none rfl rfl)
        (Read.optional_of_absent none rfl) (Read.optional_of_absent none rfl)
    | some c =>
      exact hread (f := ⟨ts, false, some message, some c, none⟩)
        (Read.optional_of_lookup [] rfl (Checked.list_read_toJson ts 0))
        (Read.required_of_lookup rfl rfl) (Read.optional_of_lookup none rfl rfl)
        (Read.optional_of_lookup none rfl rfl) (Read.optional_of_absent none rfl)

theorem Sendable.readable (h : r.Sendable) : Json.Readable r.toJson.withoutNulls := by
  have htokens : ∀ {ts : List Token}, (∀ t ∈ ts, t.Short) →
      Json.Readable (.array (ts.map Token.toJson)) := by
    intro ts hts
    refine .array fun j hj => ?_
    obtain ⟨t, ht, rfl⟩ := List.mem_map.1 hj
    exact (hts t ht).readable
  cases h with
  | valid hts hresult =>
    rw [withoutNulls_valid]
    refine .object (by simp) fun m hm => ?_
    simp only [List.mem_cons, List.not_mem_nil, or_false] at hm
    rcases hm with rfl | rfl | rfl
    · exact htokens hts
    · exact .bool true
    · exact hresult
  | invalid code hts hmessage =>
    rw [withoutNulls_invalid]
    cases code with
    | none =>
      refine .object (by simp) fun m hm => ?_
      simp at hm
      rcases hm with rfl | rfl | rfl
      · exact htokens hts
      · exact .bool false
      · exact .text _
    | some c =>
      refine .object (by simp) fun m hm => ?_
      simp at hm
      rcases hm with rfl | rfl | rfl | rfl
      · exact htokens hts
      · exact .bool false
      · exact .text _
      · exact .text c

end ParseResult

/-! ## Parsing -/

namespace Expression

/-- Tokens stand inside the text. -/
theorem CutInto.position_lt {position : Nat} {s : List Char} {ts : List Token}
    (h : CutInto position s ts) : ∀ t ∈ ts, t.position < position + s.length := by
  induction h with
  | nil => simp
  | blank hblank hrest ih =>
    intro t ht
    have hlt := ih t ht
    rw [List.length_cons]
    omega
  | @number _ _ rest _ hblank hdigit hrest ih =>
    have hsplit : rest.length = (rest.takeWhile Token.isNumeric).length +
        (rest.dropWhile Token.isNumeric).length := by
      rw [← List.length_append, List.takeWhile_append_dropWhile]
    refine List.forall_mem_cons.2 ⟨by simp, fun t ht => ?_⟩
    have hlt := ih t ht
    simp only [List.length_cons] at hlt ⊢
    omega
  | symbol hblank hc hrest ih =>
    refine List.forall_mem_cons.2 ⟨by simp, fun t ht => ?_⟩
    have hlt := ih t ht
    rw [List.length_cons]
    omega

/-- What a parse result holds: the tokens and the rounded value, or the fault, unless there is none. -/
theorem parse_eq (limits : ParseLimits) (hplaces : -limits.places ≤ maxAdjusted) (s : List Char) :
    (∃ ts x d, Evaluated limits.maxLength (normalize s) ts x ∧ Double.exact x = .finite d ∧
      d.Moderate ∧ parse limits s =
        .ok (.valid ts (Number.ofDecimal (d.atExponent (-limits.places))))) ∨
    (∃ f, evaluate limits.maxLength s = .error f ∧ parse limits s = .ok (.ofFault f)) ∨
    ∃ e, NoOutcome limits s e := by
  rcases evaluated_or_firstFault limits.maxLength (normalize s) with
    ⟨ts, x, he, hx⟩ | ⟨stage, f, hf⟩
  · obtain ⟨d, hexact, hd⟩ := Double.moderate_exact hx
    by_cases hprecision : maxPrecision < (Double.exact x).workingPrecision limits.places
    · exact .inr (.inr ⟨_, .places he hx hprecision⟩)
    · refine .inl ⟨ts, x, d, he, hexact, hd, ?_⟩
      rw [hexact] at hprecision
      rw [parse_of_evaluated he hx, hexact, hd.roundHalfUp_eq hplaces, if_neg hprecision]
      rfl
  · by_cases htold : f.isTold = true
    · refine .inr (.inl ⟨f, hf.evaluate_eq, ?_⟩)
      rw [parse_of_firstFault hf, if_pos htold]
      rfl
    · exact .inr (.inr ⟨_, hf.noOutcome htold⟩)

/-- **The parse result of a text can be sent**, if its length has no more digits than are read. -/
theorem sendable_or_noOutcome (limits : ParseLimits) (hplaces : -limits.places ≤ maxAdjusted)
    {s : List Char} (hlength : s.length ≤ pow10 Json.maxDigits) :
    (∃ r, parse limits s = .ok r ∧ r.Sendable) ∨ ∃ e, NoOutcome limits s e := by
  rcases parse_eq limits hplaces s with ⟨ts, x, d, he, -, hd, hparse⟩ | ⟨f, -, hparse⟩ | h
  · refine .inl ⟨_, hparse, .valid (fun t ht => ?_) (hd.readable_atExponent _)⟩
    have hlt := (cutInto_of_scan he.tokens).position_lt t ht
    rw [Nat.zero_add, normalize, List.length_map] at hlt
    exact Digits.length_ofNat_le (by decide) (hlt.trans_le hlength)
  · exact .inl ⟨_, hparse, .invalid _ (by simp) f.message_ne_empty⟩
  · exact .inr h

end Expression

/-! ## The service -/

namespace Json

theorem standardItems_eq (items : List Json) : standardItems items = items.map standard := by
  induction items with
  | nil => rfl
  | cons j items ih => rw [standardItems, ih, List.map_cons]

theorem standardMembers_eq (members : List (String × Json)) :
    standardMembers members = members.map fun m => (m.1, m.2.standard) := by
  induction members with
  | nil => rfl
  | cons m members ih => rw [standardMembers, ih, List.map_cons]

/-- The numbers of a readable value are finite. -/
theorem Readable.standard_eq {j : Json} (h : Readable j) : j.standard = j := by
  induction h with
  | float h => exact if_pos h
  | array _ ih =>
    rw [standard, standardItems_eq, List.map_congr_left ih, List.map_id']
  | @object members _ _ ih =>
    have hmembers : ∀ m ∈ members, (m.1, m.2.standard) = m := fun m hm => Prod.ext rfl (ih m hm)
    rw [standard, standardMembers_eq, List.map_congr_left hmembers, List.map_id']
  | _ => rfl

end Json

namespace ParseResult

/-- The JSON of a parse result is an object. -/
theorem exists_withoutNulls (r : ParseResult) :
    ∃ members, r.toJson.withoutNulls = .object members := by
  cases r with
  | valid ts result => exact ⟨_, withoutNulls_valid ts result⟩
  | invalid ts message code => exact ⟨_, withoutNulls_invalid ts message code⟩

theorem itemsDepth_tokens (ts : List Token) : Json.itemsDepth (ts.map Token.toJson) ≤ 1 := by
  induction ts with
  | nil => exact Nat.zero_le 1
  | cons t ts ih => exact max_le (Nat.le_refl 1) ih

theorem depth_withoutNulls (r : ParseResult) : r.toJson.withoutNulls.depth ≤ 3 := by
  have htokens : ∀ ts : List Token, (Json.array (ts.map Token.toJson)).depth ≤ 2 :=
    fun ts => Nat.succ_le_succ (itemsDepth_tokens ts)
  cases r with
  | valid ts result =>
    rw [withoutNulls_valid]
    exact Nat.succ_le_succ (max_le (htokens ts) (by simp [Json.membersDepth, Json.depth]))
  | invalid ts message code =>
    rw [withoutNulls_invalid]
    refine Nat.succ_le_succ (max_le (htokens ts) ?_)
    cases code <;> simp [Json.membersDepth, Json.depth]

/-- **What is sent for a parse result is read back as its JSON.** -/
theorem Sendable.readOctets_write {r : ParseResult} (h : r.Sendable) (room : Json.Room) :
    Json.readOctets room.reading (Text.utf8 (Json.write r.toJson.withoutNulls)) =
      .ok r.toJson.withoutNulls := by
  obtain ⟨members, hmembers⟩ := r.exists_withoutNulls
  have hreadable := h.readable
  have hdepth := r.depth_withoutNulls.trans (Nat.le_of_succ_le room.four_le_reading)
  rw [hmembers] at hreadable hdepth ⊢
  exact Json.readOctets_write hreadable hdepth

/-- The names of the fields that apply to a parse result. -/
def fieldNames : ParseResult → List String
  | .valid _ _ => ["tokens", "isValid", "result"]
  | .invalid _ _ none => ["tokens", "isValid", "error"]
  | .invalid _ _ (some _) => ["tokens", "isValid", "error", "errorType"]

theorem names_withoutNulls (r : ParseResult) {ms : List (String × Json)}
    (h : r.toJson.withoutNulls = .object ms) : ms.map Prod.fst = r.fieldNames := by
  cases r with
  | valid ts result =>
    rw [withoutNulls_valid] at h
    exact Json.object.inj h ▸ rfl
  | invalid ts message code =>
    rw [withoutNulls_invalid] at h
    cases code <;> exact Json.object.inj h ▸ rfl

end ParseResult

/-- Rounding to places after the point stays within all bounds. -/
theorem Settings.neg_places_le (s : Settings) (h : 0 ≤ s.resultPlaces) :
    -s.limits.places ≤ maxAdjusted := by
  simp only [limits, maxAdjusted]
  omega

namespace Service

/-- A request for the parse result of a query. -/
structure AsksParse (r : Request) (query : String) : Prop where
  method : r.method = "GET"
  path : r.path = "/parse"
  query : r.param? "query" = some query

/-- Only a request for the options of a path is answered for the sake of its origin. -/
theorem exists_handle {r : Request} (hmethod : r.method ≠ "OPTIONS") (app : App) (id : String) :
    ∃ origins, handle app id r = (·, origins) <$> dispatch app id r := by
  unfold handle
  simp only [hmethod, if_false]
  split
  · exact ⟨_, rfl⟩
  · split
    · exact ⟨_, rfl⟩
    · split <;> exact ⟨_, rfl⟩

def Exchange.answer (x : Exchange) : Nat × ReplyBody :=
  (x.response.status, x.response.body)

/-- What is sent of what was done for a request: the reply, if it can be, where there is room for so
many nested values. -/
def sent (room : Nat) (x : Except Failure Handled) : Except Failure (Nat × ReplyBody) := do
  let h ← x
  match h.reply.body.sendError? room with
  | some why => .error (.unsendable why)
  | none => .ok (h.reply.status, h.reply.body.sent)

/-- Nothing else than the reply is sent. -/
theorem sent_congr {x y : Except Failure Handled} (h : Handled.reply <$> x = Handled.reply <$> y)
    (room : Nat) : sent room x = sent room y := by
  cases x with
  | error e => rw [eq_error_of_map h.symm]
  | ok handled =>
    obtain ⟨other, rfl, hreply⟩ := exists_of_map_eq_ok h.symm
    simp only [sent, bind, Except.bind, hreply]

theorem answer_of_get {r : Request} (hmethod : r.method = "GET") (app : App) (new : String) :
    Exchange.answer <$> exchange app new r =
      sent app.room.writing (dispatch app (requestId r new) r) := by
  have hother : r.method ≠ "OPTIONS" ∧ r.method ≠ "HEAD" := by
    rw [hmethod]
    decide
  obtain ⟨origins, horigins⟩ := exists_handle hother.1 app (requestId r new)
  simp only [exchange, horigins]
  cases dispatch app (requestId r new) r with
  | error e => rfl
  | ok h =>
    have hbody : sentBody r h.reply.body = h.reply.body.sent := if_neg hother.2
    simp only [Functor.map, Except.map, bind, Except.bind, hbody, sent]
    cases h.reply.body.sendError? app.room.writing <;> rfl

theorem answer_of_reply {r : Request} (hmethod : r.method = "GET") {app : App} {new : String}
    {h : Handled} (hreply : Handled.reply <$> dispatch app (requestId r new) r =
      Handled.reply <$> (.ok h : Except Failure Handled))
    (hsent : h.reply.body.sendError? app.room.writing = none) :
    Exchange.answer <$> exchange app new r = .ok (h.reply.status, h.reply.body.sent) := by
  rw [answer_of_get hmethod, sent_congr hreply]
  simp only [sent, bind, Except.bind, hsent]

/-- Services that give the same reply and have the same room send the same answer. -/
theorem answer_eq_of_reply {r : Request} (hmethod : r.method = "GET") {app app' : App} {new : String}
    (hroom : app.room = app'.room) (h : Handled.reply <$> dispatch app (requestId r new) r =
      Handled.reply <$> dispatch app' (requestId r new) r) :
    Exchange.answer <$> exchange app new r = Exchange.answer <$> exchange app' new r := by
  rw [answer_of_get hmethod, answer_of_get hmethod, sent_congr h, hroom]

theorem dispatch_parse {r : Request} {query : String} (hr : AsksParse r query) (app : App)
    (id : String) : dispatch app id r = handleParse app query := by
  have hroute : (routes.find? fun x => x.1 = r.path ∧ x.2.1 = r.method) =
      some ("/parse", "GET", .parse) := by
    rw [hr.path, hr.method]
    decide
  rw [dispatch, hroute]
  simp only [hr.query]

def ReplyBody.octets : ReplyBody → List UInt8
  | .json j | .model j => Text.utf8 (Json.write j)
  | .text s => Text.utf8 s.toList

theorem exists_parseLocally {app : App} {s : List Char} {result : ParseResult}
    (h : Expression.parse app.settings.limits s = .ok result) :
    ∃ events, parseLocally app s = .ok (result, events) := by
  unfold parseLocally
  rw [h]
  cases result <;> exact ⟨_, rfl⟩

theorem parseLocally_of_error {app : App} {s : List Char} {e : ArithmeticError}
    (h : Expression.parse app.settings.limits s = .error e) :
    parseLocally app s = .error (.arithmetic e) := by
  unfold parseLocally
  rw [h]

/-- The answer to a request for a parse result holds it. -/
theorem answer_parse {r : Request} {query : String} (hr : AsksParse r query) {app : App}
    {result : ParseResult} (hparse : Expression.parse app.settings.limits query.toList = .ok result)
    (hsendable : result.Sendable) (new : String) :
    Exchange.answer <$> exchange app new r = .ok (200, .json result.toJson.withoutNulls) := by
  obtain ⟨events, hlocal⟩ := exists_parseLocally hparse
  have hstandard := hsendable.readable.standard_eq
  rw [answer_of_get hr.method, dispatch_parse hr, handleParse, hlocal]
  exact congrArg (fun j => Except.ok (200, ReplyBody.json j)) hstandard

/-- A text without a parse result leaves a request for it without an answer. -/
theorem exchange_parse_of_error {r : Request} {query : String} (hr : AsksParse r query) {app : App}
    {e : ArithmeticError} (hparse : Expression.parse app.settings.limits query.toList = .error e)
    (new : String) : exchange app new r = .error (.arithmetic e) := by
  have hanswer := answer_of_get hr.method app new
  rw [dispatch_parse hr, handleParse, parseLocally_of_error hparse] at hanswer
  exact eq_error_of_map hanswer

/-! ## Main result -/

/-- **A parse result survives being sent.** For every query and all settings, the answer to a request
for its parse result holds a JSON object with the fields that apply and no others, and reading this
object gives back the result of parsing the query: all tokens, the outcome, and the value as a number
of the same kind. Only if the parser itself has no outcome is there no answer. -/
theorem parse_result_survives (app : App) (hplaces : 0 ≤ app.settings.resultPlaces) {r : Request}
    {query : String} (hr : AsksParse r query) (hlength : query.length ≤ pow10 Json.maxDigits)
    (new : String) :
    (∃ result x ms, Expression.parse app.settings.limits query.toList = .ok result ∧
      exchange app new r = .ok x ∧ x.response.status = 200 ∧
      Json.readOctets app.room.reading x.response.body.octets = .ok (.object ms) ∧
      ms.map Prod.fst = result.fieldNames ∧ ParseResult.read (.object ms) = .ok result) ∨
    ∃ e, Expression.NoOutcome app.settings.limits query.toList e ∧
      exchange app new r = .error (.arithmetic e) := by
  have hlimit := app.settings.neg_places_le hplaces
  rcases Expression.sendable_or_noOutcome app.settings.limits hlimit hlength with
    ⟨result, hparse, hsendable⟩ | ⟨e, he⟩
  · left
    obtain ⟨x, hx, hanswer⟩ := exists_of_map_eq_ok (answer_parse hr hparse hsendable new)
    obtain ⟨hstatus, hbody⟩ := Prod.mk.inj hanswer
    obtain ⟨ms, hms⟩ := result.exists_withoutNulls
    have hnames := result.names_withoutNulls hms
    refine ⟨result, x, ms, hparse, hx, hstatus, ?_, hnames, hms ▸ hsendable.read_withoutNulls⟩
    rw [hbody, ← hms]
    exact hsendable.readOctets_write app.room
  · exact .inr ⟨e, he, exchange_parse_of_error hr (he.parse_eq hlimit) new⟩

/-- A service with a parser of its own and room for some nested values. -/
def localApp (settings : Settings) : App :=
  ⟨settings, 20, fun _ => .unreachable, ⟨900, 900, 300, by decide, by decide⟩, fun _ => none⟩

set_option maxRecDepth 10000 in
/-- A quotient that is no integer. -/
theorem parse_result_survives_seven_halves :
    ∃ ts x ms, exchange (localApp {}) "id" ⟨"GET", "/parse", [("query", "7 ÷ 2")], [], []⟩ = .ok x ∧
      x.response.status = 200 ∧
      Json.readOctets 900 x.response.body.octets = .ok (.object ms) ∧
      ms.map Prod.fst = ["tokens", "isValid", "result"] ∧
      ParseResult.read (.object ms) = .ok (.valid ts (.float 3.5)) := by
  have hanswer : (Expression.parse ⟨200, 2⟩ "7 ÷ 2".toList).toOption.map ParseResult.answer =
      some (.inl (.float 3.5)) := by
    decide +kernel
  rcases parse_result_survives (localApp {}) (by decide)
      (r := ⟨"GET", "/parse", [("query", "7 ÷ 2")], [], []⟩) ⟨rfl, rfl, rfl⟩
      (by decide +kernel) "id" with
    ⟨result, x, ms, hparse, hx, hstatus, hj, hnames, hread⟩ | ⟨e, he, -⟩
  · have hresult : Expression.parse ⟨200, 2⟩ "7 ÷ 2".toList = .ok result := hparse
    rw [hresult] at hanswer
    cases result with
    | invalid ts message code => cases hanswer
    | valid ts value =>
      obtain rfl : value = .float 3.5 := Sum.inl.inj (Option.some.inj hanswer)
      exact ⟨ts, x, ms, hx, hstatus, hj, hnames, hread⟩
  · have hnone : Expression.parse ⟨200, 2⟩ "7 ÷ 2".toList = .error e := he.parse_eq (by decide)
    rw [hnone] at hanswer
    cases hanswer

/-- The settings may ask for more places than a calculation keeps digits. -/
theorem parse_result_lost :
    exchange (localApp { resultPlaces := 10 ^ 18 }) "id"
        ⟨"GET", "/parse", [("query", "2/3")], [], []⟩ =
      .error (.arithmetic (.precisionTooLarge (10 ^ 18 + 1))) :=
  exchange_parse_of_error ⟨rfl, rfl, rfl⟩ (by decide +kernel) "id"

end Service

end Longhand
