import Longhand.Service.Message
/-!
# Errors that are told

The body of an error holds its message and, in an object of their own, its particulars. The
particulars are plain values, so what may stop the body from being sent is the message alone
(`sendError?_ofError`): a text never does, but what a remote service gave for one can be anything.
-/

namespace Longhand

namespace Json

/-- A value that holds no others and can be sent anywhere. -/
def IsPlain (j : Json) : Prop :=
  j.sendError? 0 = none

theorem IsPlain.text (s : String) : (Json.text s).IsPlain := rfl

theorem IsPlain.nat (n : Nat) : (Json.nat n).IsPlain := rfl

theorem IsPlain.hasUnpaired_eq {j : Json} (h : j.IsPlain) : j.hasUnpaired = false := by
  cases hj : j.hasUnpaired with
  | false => rfl
  | true => simp [IsPlain, sendError?, hj] at h

theorem IsPlain.obstacle?_eq {j : Json} (h : j.IsPlain) (room : Nat) : j.obstacle? room = none := by
  have hpaired := h.hasUnpaired_eq
  have hnone := (Option.or_eq_none_iff.1 h).1
  cases j with
  | number n => cases n <;> exact hnone
  | unpaired j => simp [hasUnpaired] at hpaired
  | array items => simp [obstacle?] at hnone
  | object members => simp [obstacle?] at hnone
  | _ => rw [obstacle?] <;> simp

section

variable {members : List (String × Json)} (h : ∀ m ∈ members, m.2.IsPlain)

include h

theorem membersObstacle?_of_plain (room : Nat) : membersObstacle? members room = none := by
  induction members with
  | nil => rfl
  | cons m members ih =>
    obtain ⟨hm, hmembers⟩ := List.forall_mem_cons.1 h
    rw [membersObstacle?, hm.obstacle?_eq, ih hmembers, Option.none_or]

theorem membersHaveUnpaired_of_plain : membersHaveUnpaired members = false := by
  induction members with
  | nil => rfl
  | cons m members ih =>
    obtain ⟨hm, hmembers⟩ := List.forall_mem_cons.1 h
    rw [membersHaveUnpaired, hm.hasUnpaired_eq, ih hmembers, Bool.false_or]

end

end Json

namespace Service

/-- **Only its message may stop an error from being told.** -/
theorem sendError?_ofError (id code : String) (status : Nat) (message : Json)
    {details : List (String × Json)} (h : ∀ m ∈ details, m.2.IsPlain) (room : Nat) :
    (Reply.ofError id status code message details).body.sendError? (room + 3) =
      message.sendError? (room + 1) := by
  have hobstacle := Json.membersObstacle?_of_plain h room
  have hpaired := Json.membersHaveUnpaired_of_plain h
  cases hempty : details.isEmpty <;>
    simp [Reply.ofError, Reply.json, ReplyBody.sendError?, Json.sendError?, Json.obstacle?,
      Json.membersObstacle?, Json.hasUnpaired, Json.membersHaveUnpaired, hempty, hobstacle, hpaired]

/-- What is told in words is always told. -/
theorem sendError?_ofError_text (id code : String) (status : Nat) (message : String)
    {details : List (String × Json)} (h : ∀ m ∈ details, m.2.IsPlain) (room : Json.Room) :
    (Reply.ofError id status code (.text message) details).body.sendError? room.writing = none := by
  have hroom : 3 ≤ room.writing := Nat.le_trans (by decide) room.eight_le_writing
  obtain ⟨n, hn⟩ := Nat.exists_eq_add_of_le' hroom
  rw [hn, sendError?_ofError _ _ _ _ h]
  rfl

end Service

end Longhand
