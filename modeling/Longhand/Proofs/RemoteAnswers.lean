import Longhand.Proofs.SurroundingBlanks
import Longhand.Proofs.WrittenJson
import Longhand.Remote
/-!
# Answers of a remote parser

A remote parser is asked once for an expression, without the blanks around it, and not at all for a
blank one. What it answers may be anything. A parse result comes of it only if the status is 200
and the body describes one (`ParseResult.read_eq_ok_iff`): an object with the fields of a parse
result, which must not contradict each other. Everything else is a fault, and only that of a failed
request has particulars: its status.
-/

namespace Longhand

/-! ## Values with issues -/

namespace Checked

variable {α β : Type}

theorem both_eq_ok_iff {x : Checked α} {y : Checked β} {p : α × β} :
    both x y = .ok p ↔ x = .ok p.1 ∧ y = .ok p.2 := by
  cases x <;> cases y <;> simp [both, Prod.ext_iff]

theorem within_eq_ok_iff {name : String} {x : Checked α} {a : α} :
    within name x = .ok a ↔ x = .ok a := by
  constructor
  · exact eq_ok_of_mapError
  · rintro rfl
    rfl

theorem list_eq_ok_iff {read : Json → Checked α} {index : Nat} {js : List Json} {as : List α} :
    list read index js = .ok as ↔ List.Forall₂ (fun j a => read j = .ok a) js as := by
  induction js generalizing index as with
  | nil => simp [list, eq_comm]
  | cons j js ih =>
    simp only [list, map_eq_ok_iff, both_eq_ok_iff, within_eq_ok_iff, ih,
      List.forall₂_cons_left_iff]
    constructor
    · rintro ⟨p, ⟨hhead, htail⟩, rfl⟩
      exact ⟨p.1, p.2, hhead, htail, rfl⟩
    · rintro ⟨a, as, hhead, htail, rfl⟩
      exact ⟨(a, as), ⟨hhead, htail⟩, rfl⟩

end Checked

/-! ## Fields that describe values -/

namespace Json

variable {α : Type} (R : Json → α → Prop)

/-- There is a field, and it describes the value. -/
def Field (ms : List (String × Json)) (name : String) (a : α) : Prop :=
  ∃ j, ms.lookup name = some j ∧ R j a

/-- There is a field that describes the value, or none and the value is that for its absence. -/
def FieldOr (absent : α) (ms : List (String × Json)) (name : String) (a : α) : Prop :=
  ms.lookup name = none ∧ a = absent ∨ Field R ms name a

/-- The value is a text, which may have half a pair alone in it. -/
def Says (j : Json) (s : String) : Prop :=
  j = .text s ∨ j = .unpaired (.text s)

/-- Null describes no value. -/
inductive Nullable : Json → Option α → Prop
  | null : Nullable .null none
  | value {j : Json} {a : α} (hj : j ≠ .null) (h : R j a) : Nullable j (some a)

end Json

namespace Read

variable {α : Type} {R : Json → α → Prop} {read : Json → Checked α}
  (h : ∀ j a, read j = .ok a ↔ R j a) {ms : List (String × Json)} {name : String}

theorem string_eq_ok_iff (j : Json) (s : String) : string j = .ok s ↔ j.Says s := by
  unfold Json.Says string
  split <;> simp_all [Checked.fail]

include h

theorem required_eq_ok_iff {a : α} : required ms name read = .ok a ↔ Json.Field R ms name a := by
  rw [required, Checked.within_eq_ok_iff, Json.Field]
  cases hlookup : ms.lookup name with
  | none => simp [Checked.fail]
  | some j => simp [h]

theorem optional_eq_ok_iff {absent a : α} :
    optional ms name absent read = .ok a ↔ Json.FieldOr R absent ms name a := by
  rw [optional, Json.FieldOr, Json.Field]
  cases hlookup : ms.lookup name with
  | none => simp [eq_comm]
  | some j => simp [Checked.within_eq_ok_iff, h]

theorem nullable_eq_ok_iff (j : Json) (a : Option α) :
    nullable read j = .ok a ↔ Json.Nullable R j a := by
  by_cases hj : j = .null
  · subst hj
    constructor
    · intro hnone
      obtain rfl := Except.ok.inj hnone
      exact .null
    · intro hnull
      cases hnull with
      | null => rfl
      | value hj _ => exact absurd rfl hj
  · have hsome : nullable read j = some <$> read j := by
      unfold nullable
      split
      · exact absurd rfl hj
      · rfl
    rw [hsome, map_eq_ok_iff]
    constructor
    · rintro ⟨b, hb, rfl⟩
      exact .value hj ((h j b).1 hb)
    · intro hvalue
      cases hvalue with
      | null => exact absurd rfl hj
      | value _ hb => exact ⟨_, (h j _).2 hb, rfl⟩

end Read

/-! ## Tokens and parse results -/

/-- The object describes a token. -/
inductive Token.Described : Json → Token → Prop
  | object {ms : List (String × Json)} {kind : TokenKind} {value : String} {position : Nat}
      {j : Json} (hkind : ms.lookup "type" = some (.text kind.name))
      (hvalue : Json.Field Json.Says ms "value" value)
      (hposition : ms.lookup "position" = some j) (hint : Read.int j = .ok (position : Int)) :
      Described (.object ms) ⟨kind, value, position⟩

theorem Token.readKind_eq_ok_iff (j : Json) (kind : TokenKind) :
    readKind j = .ok kind ↔ j = .text kind.name := by
  constructor
  · intro h
    cases j with
    | text s =>
      cases hname : TokenKind.ofName? s with
      | none => simp [readKind, hname, Checked.fail] at h
      | some k =>
        simp only [readKind, hname] at h
        obtain rfl := Except.ok.inj h
        have hfound := List.find?_some hname
        rw [of_decide_eq_true hfound]
    | _ => cases h
  · rintro rfl
    cases kind <;> decide

theorem Read.intFrom_zero_eq_ok_iff {j : Json} {n : Int} :
    intFrom 0 j = .ok n ↔ int j = .ok n ∧ 0 ≤ n := by
  unfold intFrom
  cases int j with
  | error e => simp [bind, Except.bind]
  | ok m =>
    simp only [bind, Except.bind, Except.ok.injEq]
    constructor
    · intro h
      split at h
      · rename_i hm
        obtain rfl := Except.ok.inj h
        exact ⟨rfl, hm⟩
      · cases h
    · rintro ⟨rfl, hn⟩
      rw [if_pos hn]

theorem Token.read_eq_ok_iff (j : Json) (t : Token) : read j = .ok t ↔ Described j t := by
  cases j with
  | object ms =>
    simp only [read, readFields, map_eq_ok_iff, Checked.both_eq_ok_iff,
      Read.required_eq_ok_iff readKind_eq_ok_iff, Read.required_eq_ok_iff Read.string_eq_ok_iff,
      Read.required_eq_ok_iff fun _ _ => Read.intFrom_zero_eq_ok_iff]
    constructor
    · rintro ⟨⟨kind, value, n⟩, ⟨⟨_, hkind, rfl⟩, hvalue, j, hposition, hint, hn⟩, rfl⟩
      exact .object hkind hvalue hposition (by rw [hint, Int.toNat_of_nonneg hn])
    · rintro ⟨hkind, hvalue, hposition, hint⟩
      exact ⟨(_, _, _), ⟨⟨_, hkind, rfl⟩, hvalue, _, hposition, hint, Int.natCast_nonneg _⟩, rfl⟩
  | _ =>
    constructor
    · intro h
      cases h
    · intro h
      cases h

namespace ParseResult

def TokensDescribed (j : Json) (ts : List Token) : Prop :=
  ∃ js, j = .array js ∧ List.Forall₂ Token.Described js ts

/-- The fields describe a parse result, be it consistent or not. -/
structure Fields.Described (ms : List (String × Json)) (f : Fields) : Prop where
  tokens : Json.FieldOr TokensDescribed [] ms "tokens" f.tokens
  isValid : Json.Field (fun j b => Read.bool j = .ok b) ms "isValid" f.isValid
  error : Json.FieldOr (Json.Nullable Json.Says) none ms "error" f.error
  code : Json.FieldOr (Json.Nullable Json.Says) none ms "errorType" f.code
  result : Json.FieldOr (Json.Nullable fun j n => Read.number j = .ok n) none ms "result" f.result

/-- A valid expression has a result and no error, an invalid one a message and no result. -/
structure Fields.Consistent (f : Fields) : Prop where
  valid : f.isValid = true → f.error = none ∧ f.code = none ∧ ∃ n, f.result = some n
  invalid : f.isValid = false → (∃ message, f.error = some message ∧ message ≠ "") ∧ f.result = none

def fields : ParseResult → Fields
  | .valid ts result => ⟨ts, true, none, none, some result⟩
  | .invalid ts message code => ⟨ts, false, some message, code, none⟩

theorem readTokens_eq_ok_iff (j : Json) (ts : List Token) :
    readTokens j = .ok ts ↔ TokensDescribed j ts := by
  unfold TokensDescribed
  cases j with
  | array js => simp [readTokens, Checked.list_eq_ok_iff, Token.read_eq_ok_iff]
  | _ => simp [readTokens, Checked.fail]

theorem readFields_eq_ok_iff {ms : List (String × Json)} {f : Fields} :
    readFields ms = .ok f ↔ f.Described ms := by
  have htext := Read.nullable_eq_ok_iff Read.string_eq_ok_iff
  have hnumber := Read.nullable_eq_ok_iff fun j n => Iff.refl (Read.number j = .ok n)
  simp only [readFields, map_eq_ok_iff, Checked.both_eq_ok_iff,
    Read.optional_eq_ok_iff readTokens_eq_ok_iff, Read.required_eq_ok_iff fun _ _ => Iff.rfl,
    Read.optional_eq_ok_iff htext, Read.optional_eq_ok_iff hnumber]
  constructor
  · rintro ⟨⟨tokens, isValid, error, code, result⟩, ⟨htokens, hvalid, herror, hcode, hresult⟩, rfl⟩
    exact ⟨htokens, hvalid, herror, hcode, hresult⟩
  · rintro ⟨htokens, hvalid, herror, hcode, hresult⟩
    exact ⟨(_, _, _, _, _), ⟨htokens, hvalid, herror, hcode, hresult⟩, rfl⟩

/-- **Fields make a parse result exactly if they are consistent.** -/
theorem ofFields_eq_ok_iff {f : Fields} {r : ParseResult} :
    ofFields f = .ok r ↔ f.Consistent ∧ r.fields = f := by
  obtain ⟨tokens, isValid, error, code, result⟩ := f
  constructor
  · intro h
    cases isValid with
    | true =>
      cases error <;> cases code <;> cases result <;>
        simp [ofFields, inconsistent, Checked.fail] at h
      subst h
      exact ⟨⟨by simp, by simp⟩, rfl⟩
    | false =>
      cases error with
      | none => simp [ofFields, inconsistent, Checked.fail] at h
      | some message =>
        by_cases hmessage : message = ""
        · simp [ofFields, hmessage, inconsistent, Checked.fail] at h
        · cases result <;> simp [ofFields, hmessage, inconsistent, Checked.fail] at h
          subst h
          exact ⟨⟨by simp, fun _ => ⟨⟨message, rfl, hmessage⟩, rfl⟩⟩, rfl⟩
  · rintro ⟨hconsistent, hfields⟩
    cases r with
    | valid ts result =>
      cases hfields
      rfl
    | invalid ts message code =>
      cases hfields
      obtain ⟨⟨_, heq, hmessage⟩, -⟩ := hconsistent.invalid rfl
      obtain rfl := Option.some.inj heq
      simp [ofFields, hmessage]

/-- **A JSON value is read as a parse result** exactly if it is an object that describes it, and the
fields are consistent. -/
theorem read_eq_ok_iff {j : Json} {r : ParseResult} :
    read j = .ok r ↔ ∃ ms, j = .object ms ∧ r.fields.Described ms ∧ r.fields.Consistent := by
  constructor
  · intro h
    cases j with
    | object ms =>
      obtain ⟨f, hf, hr⟩ := exists_of_bind_eq_ok h
      obtain ⟨hconsistent, rfl⟩ := ofFields_eq_ok_iff.1 hr
      exact ⟨ms, rfl, readFields_eq_ok_iff.1 hf, hconsistent⟩
    | _ => cases h
  · rintro ⟨ms, rfl, hdescribed, hconsistent⟩
    rw [read, readFields_eq_ok_iff.2 hdescribed]
    exact ofFields_eq_ok_iff.2 ⟨hconsistent, rfl⟩

end ParseResult

/-! ## Answers -/

/-- The body is JSON that can be read, and it is an object that describes the parse result. -/
def BodyHolds (room : Nat) (body : List UInt8) (r : ParseResult) : Prop :=
  ∃ ms, Json.readOctets room body = .ok (.object ms) ∧ r.fields.Described ms ∧ r.fields.Consistent

/-- The body is nested too deep to be read. -/
def BodyTooDeep (room : Nat) (body : List UInt8) : Prop :=
  Json.readOctets room body = .error .nestedTooDeep

/-- What is made of the answer of a remote service, with room for so many nested values. -/
inductive RemoteAnswer.Taken (room : Nat) : RemoteAnswer → Except RemoteError ParseResult → Prop
  | unreachable : Taken room .unreachable (.error (.fault .unavailable))
  | aborted (exception : String) : Taken room (.aborted exception) (.error (.aborted exception))
  | tooDeep (status : Nat) {body : List UInt8} (h : BodyTooDeep room body) :
      Taken room (.answered status body) (.error .nestedTooDeep)
  | failed {status : Nat} (hstatus : status ≠ 200) {body : List UInt8} (h : ¬BodyTooDeep room body) :
      Taken room (.answered status body) (.error (.fault
        (.failed ((Json.readOctets room body).toOption.bind RemoteParser.failureMessage?) status)))
  | unreadable {body : List UInt8} (h : ¬BodyTooDeep room body) (hbody : ∀ r, ¬BodyHolds room body r) :
      Taken room (.answered 200 body) (.error (.fault .unreadable))
  | result {body : List UInt8} {r : ParseResult} (hbody : BodyHolds room body r) :
      Taken room (.answered 200 body) (.ok r)

/-- The particulars of the fault that an answer makes: a status other than 200. -/
def RemoteAnswer.particulars : RemoteAnswer → List (String × Json)
  | .unreachable | .aborted _ => []
  | .answered status _ => if status = 200 then [] else [("status", .nat status)]

/-- An answer that is taken for a parse result or for a fault: the client does not end the call in its
own way, and the body is not nested too deep. -/
inductive RemoteAnswer.Regular (room : Nat) : RemoteAnswer → Prop
  | unreachable : Regular room .unreachable
  | answered (status : Nat) {body : List UInt8} (h : ¬BodyTooDeep room body) :
      Regular room (.answered status body)

section

variable {room : Nat} {a : RemoteAnswer}

theorem RemoteAnswer.Taken.consistent {r : ParseResult} (h : a.Taken room (.ok r)) :
    r.fields.Consistent := by
  cases h with
  | result hbody =>
    obtain ⟨_, -, -, hconsistent⟩ := hbody
    exact hconsistent

theorem RemoteAnswer.Taken.details_eq {f : RemoteFault} (h : a.Taken room (.error (.fault f))) :
    f.details = a.particulars := by
  cases h with
  | unreachable => rfl
  | failed hstatus h => exact (if_neg hstatus).symm
  | unreadable h hbody => rfl

/-- **A regular answer makes a parse result or a fault.** -/
theorem RemoteAnswer.Taken.classified {x : Except RemoteError ParseResult} (h : a.Taken room x)
    (ha : a.Regular room) : (∃ r, x = .ok r) ∨ ∃ f, x = .error (.fault f) := by
  cases h with
  | unreachable => exact .inr ⟨_, rfl⟩
  | aborted exception => cases ha
  | tooDeep status h =>
    cases ha with
    | answered _ hroom => exact absurd h hroom
  | failed hstatus h => exact .inr ⟨_, rfl⟩
  | unreadable h hbody => exact .inr ⟨_, rfl⟩
  | result hbody => exact .inl ⟨_, rfl⟩

end

namespace RemoteParser

variable {room : Nat} {body : List UInt8}

theorem bodyHolds_iff {r : ParseResult} : BodyHolds room body r ↔
    ∃ j, Json.readOctets room body = .ok j ∧ ParseResult.read j = .ok r := by
  constructor
  · rintro ⟨ms, hjson, hr⟩
    exact ⟨_, hjson, ParseResult.read_eq_ok_iff.2 ⟨ms, rfl, hr⟩⟩
  · rintro ⟨j, hjson, hread⟩
    obtain ⟨ms, rfl, hr⟩ := ParseResult.read_eq_ok_iff.1 hread
    exact ⟨ms, hjson, hr⟩

theorem interpret_of_holds {r : ParseResult} (h : BodyHolds room body r) :
    interpret room (.answered 200 body) = .ok r := by
  obtain ⟨j, hjson, hread⟩ := bodyHolds_iff.1 h
  simp only [interpret, interpretBody, hjson, hread]
  rfl

theorem interpret_of_tooDeep (h : BodyTooDeep room body) (status : Nat) :
    interpret room (.answered status body) = .error .nestedTooDeep := by
  have hbody : Json.readOctets room body = .error .nestedTooDeep := h
  by_cases hstatus : status = 200
  · subst hstatus
    simp only [interpret, interpretBody, hbody]
  · simp [interpret, interpretBody, hbody]

theorem interpret_of_not_holds (hdeep : ¬BodyTooDeep room body) (h : ∀ r, ¬BodyHolds room body r) :
    interpret room (.answered 200 body) = .error (.fault .unreadable) := by
  simp only [interpret, interpretBody]
  cases hjson : Json.readOctets room body with
  | error e =>
    cases e with
    | nestedTooDeep => exact absurd hjson hdeep
    | _ => rfl
  | ok j =>
    cases hread : ParseResult.read j with
    | error issues => simp only [hread, Except.mapError]
    | ok r => exact absurd (bodyHolds_iff.2 ⟨j, hjson, hread⟩) (h r)

theorem interpret_of_ne {status : Nat} (h : status ≠ 200) (hdeep : ¬BodyTooDeep room body) :
    interpret room (.answered status body) = .error (.fault
      (.failed ((Json.readOctets room body).toOption.bind failureMessage?) status)) := by
  have hinterpret : interpret room (.answered status body) = interpretBody room body
      (fun j => .error (.failed (failureMessage? j) status)) (.failed none status) := by
    simp [interpret]
  rw [hinterpret, interpretBody]
  cases hjson : Json.readOctets room body with
  | error e =>
    cases e with
    | nestedTooDeep => exact absurd hjson hdeep
    | _ => rfl
  | ok j => rfl

/-- **Every answer is taken in one way.** -/
theorem interpret_eq_iff {a : RemoteAnswer} {x : Except RemoteError ParseResult} :
    interpret room a = x ↔ a.Taken room x := by
  constructor
  · rintro rfl
    cases a with
    | unreachable => exact .unreachable
    | aborted exception => exact .aborted exception
    | answered status body =>
      by_cases hdeep : BodyTooDeep room body
      · rw [interpret_of_tooDeep hdeep]
        exact .tooDeep status hdeep
      by_cases hstatus : status = 200
      · subst hstatus
        by_cases hholds : ∃ r, BodyHolds room body r
        · obtain ⟨r, hr⟩ := hholds
          rw [interpret_of_holds hr]
          exact .result hr
        · have hnone := not_exists.1 hholds
          rw [interpret_of_not_holds hdeep hnone]
          exact .unreadable hdeep hnone
      · rw [interpret_of_ne hstatus hdeep]
        exact .failed hstatus hdeep
  · intro h
    cases h with
    | unreachable => rfl
    | aborted exception => rfl
    | tooDeep status h => exact interpret_of_tooDeep h status
    | failed hstatus h => exact interpret_of_ne hstatus h
    | unreadable h hbody => exact interpret_of_not_holds h hbody
    | result hbody => exact interpret_of_holds hbody

end RemoteParser

/-! ## Expressions -/

open Expression (Blanks)

namespace RemoteParser

variable (p : RemoteParser) (room : Nat) (remote : RemoteCall → RemoteAnswer)

/-- What becomes of an expression: the calls that are made for it, and the parse result or the
fault. -/
inductive Outcome : List Char → List RemoteCall → Except RemoteError ParseResult → Prop
  | blank (b : Blanks) :
      Outcome b.chars [] (.ok (.invalid [] "Empty expression" (some "EMPTY_EXPRESSION")))
  | asked (lead trail : Blanks) {query : List Char} (hne : query ≠ [])
      (hquery : Text.Trimmed query) {x : Except RemoteError ParseResult}
      (hx : (remote ⟨p.baseUrl ++ "/parse", String.ofList query, p.timeout⟩).Taken room x) :
      Outcome (lead.chars ++ (query ++ trail.chars))
        [⟨p.baseUrl ++ "/parse", String.ofList query, p.timeout⟩] x

variable {p room remote} {s : List Char}

theorem all_isBlank_eq_false {lead trail : Blanks} {query : List Char} (hne : query ≠ [])
    (hquery : Text.Trimmed query) :
    (lead.chars ++ (query ++ trail.chars)).all Text.isBlank = false := by
  cases query with
  | nil => exact absurd rfl hne
  | cons c query =>
    have hc := hquery.head c rfl
    simp [hc]

/-- **What becomes of an expression** is told by the call for it and the result. -/
theorem outcome_iff {calls : List RemoteCall} {x : Except RemoteError ParseResult} :
    Outcome p room remote s calls x ↔
      (p.call? s).toList = calls ∧ p.parse room remote s = x := by
  constructor
  · intro h
    cases h with
    | blank b =>
      have hcall : p.call? b.chars = none := if_pos (List.all_eq_true.2 b.blank)
      rw [parse, hcall]
      exact ⟨rfl, rfl⟩
    | @asked lead trail query hne hquery x hx =>
      have hcall : p.call? (lead.chars ++ (query ++ trail.chars)) =
          some ⟨p.baseUrl ++ "/parse", String.ofList query, p.timeout⟩ := by
        rw [call?, all_isBlank_eq_false hne hquery, if_neg Bool.false_ne_true, Text.trim_blanks,
          hquery.trim_eq]
        rfl
      rw [parse, hcall]
      exact ⟨rfl, interpret_eq_iff.2 hx⟩
  · rintro ⟨rfl, rfl⟩
    obtain ⟨lead, trail, hs, -⟩ := Text.exists_trim s
    by_cases hblank : s.all Text.isBlank = true
    · have hcall : p.call? s = none := if_pos hblank
      rw [parse, hcall]
      exact .blank ⟨s, List.all_eq_true.1 hblank⟩
    · have hcall : p.call? s =
          some ⟨p.baseUrl ++ "/parse", String.ofList (Text.trim s), p.timeout⟩ := if_neg hblank
      have hne : Text.trim s ≠ [] := by
        intro hnil
        rw [hnil, List.nil_append] at hs
        apply hblank
        rw [hs, List.all_append, Bool.and_eq_true]
        exact ⟨List.all_eq_true.2 lead.blank, List.all_eq_true.2 trail.blank⟩
      rw [parse, hcall]
      have hasked : Outcome p room remote (lead.chars ++ (Text.trim s ++ trail.chars)) _ _ :=
        .asked lead trail hne (Text.trimmed_trim s) (interpret_eq_iff.1 rfl)
      rwa [← hs] at hasked

/-! ## Main result -/

/-- **Every answer of a remote parser is classified.** For every expression the calls and the
outcome are those of one case. A parse result is consistent, the particulars of a fault are the status
of a request that failed, and if the call is answered regularly there is a parse result or a fault. -/
theorem remote_answers_classified (p : RemoteParser) (room : Nat)
    (remote : RemoteCall → RemoteAnswer) (s : List Char) :
    (∀ calls x, Outcome p room remote s calls x ↔
        (p.call? s).toList = calls ∧ p.parse room remote s = x) ∧
      (∀ r, p.parse room remote s = .ok r → r.fields.Consistent) ∧
      (∀ f, p.parse room remote s = .error (.fault f) →
        ∃ call, p.call? s = some call ∧ f.details = (remote call).particulars) ∧
      ((∀ call, p.call? s = some call → (remote call).Regular room) →
        (∃ r, p.parse room remote s = .ok r) ∨ ∃ f, p.parse room remote s = .error (.fault f)) := by
  refine ⟨fun _ _ => outcome_iff, fun r hr => ?_, fun f hf => ?_, fun hregular => ?_⟩
  · unfold parse at hr
    split at hr
    · obtain rfl := Except.ok.inj hr
      exact ⟨by simp [ParseResult.ofFault, ParseResult.fields],
        fun _ => ⟨⟨_, rfl, by decide⟩, rfl⟩⟩
    · exact (interpret_eq_iff.1 hr).consistent
  · unfold parse at hf
    split at hf
    · cases hf
    · rename_i call hcall
      exact ⟨call, hcall, (interpret_eq_iff.1 hf).details_eq⟩
  · unfold parse
    split
    · exact .inl ⟨_, rfl⟩
    · rename_i call hcall
      exact (interpret_eq_iff.1 rfl).classified (hregular call hcall)

/-- A valid expression with an error beside its result is no parse result. -/
def contradictory : Json :=
  .object [("isValid", .bool true), ("error", .text "Overflow"), ("result", .nat 5)]

theorem readOctets_contradictory (room : Nat) (hroom : 1 ≤ room) :
    Json.readOctets room (Text.utf8 (Json.write contradictory)) = .ok contradictory := by
  refine Json.readOctets_write ?_ hroom
  refine .object (by decide) fun m hm => ?_
  simp only [List.mem_cons, List.not_mem_nil, or_false] at hm
  rcases hm with rfl | rfl | rfl
  · exact .bool true
  · exact .text _
  · exact .int (by decide +kernel)

/-- An expression with blanks around it: a service that fails, and one that contradicts itself. -/
theorem remote_answers_classified_contradictory :
    let p : RemoteParser := ⟨"http://parser.internal", .float 5.0⟩
    let body := Text.utf8 (Json.write contradictory)
    p.call? " 2+3 ".toList = some ⟨"http://parser.internal/parse", "2+3", .float 5.0⟩ ∧
      (∃ f, p.parse 900 (fun _ => .answered 503 body) " 2+3 ".toList = .error (.fault f) ∧
        f.details = [("status", .nat 503)]) ∧
      ∃ f, p.parse 900 (fun _ => .answered 200 body) " 2+3 ".toList = .error (.fault f) ∧
        f.details = [] := by
  intro p body
  have hread := readOctets_contradictory 900 (by decide)
  have hcall : p.call? " 2+3 ".toList =
      some ⟨"http://parser.internal/parse", "2+3", .float 5.0⟩ := by
    decide +kernel
  have hroom : ¬BodyTooDeep 900 body := by
    intro h
    cases hread.symm.trans h
  -- a regular answer that is taken for no parse result is taken for a fault, with its particulars
  have hfault (status : Nat) (hr : ∀ r, interpret 900 (.answered status body) ≠ .ok r) :
      ∃ f, p.parse 900 (fun _ => .answered status body) " 2+3 ".toList = .error (.fault f) ∧
        f.details = (RemoteAnswer.answered status body).particulars := by
    obtain ⟨-, -, hdetails, hregular⟩ :=
      remote_answers_classified p 900 (fun _ => .answered status body) " 2+3 ".toList
    rcases hregular fun call _ => .answered status hroom with ⟨r, h⟩ | ⟨f, hf⟩
    · rw [parse, hcall] at h
      exact absurd h (hr r)
    · obtain ⟨call, -, hf'⟩ := hdetails f hf
      exact ⟨f, hf, hf'⟩
  refine ⟨hcall, hfault 503 fun r h => ?_, hfault 200 fun r h => ?_⟩
  · cases (interpret_eq_iff.1 h)
  · cases (interpret_eq_iff.1 h) with
    | result hbody =>
      obtain ⟨j, hj, hr⟩ := bodyHolds_iff.1 hbody
      obtain rfl := Except.ok.inj (hread.symm.trans hj)
      cases hr

/-! ## Brackets -/

/-- Arrays nested in one another, `n` of them in the outermost one. -/
def nested : Nat → Json
  | 0 => .array []
  | n + 1 => .array [nested n]

theorem write_nested (n : Nat) :
    Json.write (nested n) = List.replicate (n + 1) '[' ++ List.replicate (n + 1) ']' := by
  induction n with
  | zero => rfl
  | succ n ih =>
    have hopen : List.replicate (n + 2) '[' = '[' :: List.replicate (n + 1) '[' :=
      List.replicate_succ
    have hclose : List.replicate (n + 2) ']' = List.replicate (n + 1) ']' ++ [']'] :=
      List.replicate_succ'
    rw [nested, Json.write, Json.writeItems, ih, hopen, hclose, List.cons_append, List.cons_append,
      List.append_assoc]

theorem readable_nested (n : Nat) : Json.Readable (nested n) := by
  induction n with
  | zero => exact .array (by simp)
  | succ n ih => exact .array (by simpa using ih)

theorem depth_nested (n : Nat) : (nested n).depth = n + 1 := by
  induction n with
  | zero => rfl
  | succ n ih => simp [nested, Json.depth, Json.itemsDepth, ih]

/-- **A body of brackets is read only as far as there is room.** -/
theorem readOctets_nested (room n : Nat) :
    Json.readOctets room (Text.utf8 (Json.write (nested n))) =
      if n + 1 ≤ room then .ok (nested n) else .error .nestedTooDeep := by
  have hread := Json.read_write (readable_nested n) room
  rw [depth_nested, write_nested, List.replicate_succ, List.cons_append] at hread
  rw [write_nested, List.replicate_succ, List.cons_append,
    Json.readOctets_utf8 room (by decide) (by decide) ?_, hread]
  cases n <;> simp [List.replicate_succ]

/-- **An answer that is not classified**: the remote service fails with a body of 20000 brackets, and
what comes of it is no fault. -/
theorem deep_body_escapes :
    RemoteParser.parse ⟨"http://parser.internal", .float 5.0⟩ 900
        (fun _ => .answered 500
          (Text.utf8 (List.replicate 20000 '[' ++ List.replicate 20000 ']'))) "2+3".toList =
      .error .nestedTooDeep ∧
    ∀ f, RemoteError.nestedTooDeep ≠ .fault f := by
  have hread := readOctets_nested 900 19999
  rw [write_nested, if_neg (by decide)] at hread
  have hcall : call? ⟨"http://parser.internal", .float 5.0⟩ "2+3".toList =
      some ⟨"http://parser.internal/parse", "2+3", .float 5.0⟩ := by
    decide +kernel
  refine ⟨?_, by simp⟩
  rw [parse, hcall]
  exact interpret_of_tooDeep hread 500

end RemoteParser

end Longhand
