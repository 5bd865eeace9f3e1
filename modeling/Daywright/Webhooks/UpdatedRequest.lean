/-
# The meeting.updated request

`MeetingUpdatedWebhookRequest` validates the body of an event and hands what it has
validated to `MeetingUpdatedWebhookData`. Of the object of the payload it has a rule for
the id alone, so that the id is all that is left of it (`validated_of_accepted`): every
event is taken as one without changes, and so is right exactly if it carries none
(`delivers_iff`).

Key definitions: `MeetingUpdatedWebhookRequest.Data`, `rules`, `toDto`, `Delivers`.
Key theorems: `validated_of_accepted`, `fromArray_toArray`, `delivers_iff`.
-/
import Daywright.FormRequest
import Daywright.Webhooks.Columns

namespace Daywright

open Php

/-! ### The data object -/

namespace MeetingUpdatedWebhookRequest

open MeetingUpdatedWebhookData

variable (E : Env) (toDateTimeString : ℤ → String)

/-- `MeetingUpdatedWebhookData`, with all that it is stored with. -/
structure Data where
  meetingId : Json
  changes : List (String × Json)
  requestId : Option String
  isId : (∃ n, meetingId = .int n) ∨ ∃ s, meetingId = .str s

/-- `isset($changes['settings']['join_before_host'])`, and its boolean. -/
def joinBeforeHost (payload : Json) : Value :=
  match payload.dataGet ["settings", "join_before_host"] with
  | none | some .null => .null
  | some v => (v.filterBoolean.map Value.bool).getD .null

/-- What the normalisation reads of the object of a payload. -/
def reduced (payload : Json) : MeetingUpdatedPayload where
  id := none
  entries := payload.entries.map fun e => (e.1, e.2.toValue)
  joinBeforeHost := joinBeforeHost payload

def normalizedChanges (payload : Json) : List (String × Json) :=
  (normalizeChanges E toDateTimeString (reduced payload)).map fun f => (f.1, .ofValue f.2)

/-- `none`: the id is neither an integer nor a string. -/
def fromPayloadObject (payload : Json) (requestId : Option String) : Option Data :=
  match payload.get? "id" with
  | some (.int n) => some ⟨.int n, normalizedChanges E toDateTimeString payload, requestId, .inl ⟨n, rfl⟩⟩
  | some (.str s) => some ⟨.str s, normalizedChanges E toDateTimeString payload, requestId, .inr ⟨s, rfl⟩⟩
  | _ => none

def Data.toArray (data : Data) : Json :=
  .array [("meetingId", data.meetingId), ("changes", .array data.changes),
    ("requestId", (data.requestId.map Json.str).getD .null)]

/-- `requestId: $data['requestId'] ?? null`; another type is refused. -/
def readRequestId : Option Json → Option (Option String)
  | none | some .null => some none
  | some (.str s) => some (some s)
  | _ => none

def Data.fromArray (data : Json) : Option Data :=
  match data.get? "meetingId", data.get? "changes", readRequestId (data.get? "requestId") with
  | some (.int n), some (.array changes), some requestId => some ⟨.int n, changes, requestId, .inl ⟨n, rfl⟩⟩
  | some (.str s), some (.array changes), some requestId => some ⟨.str s, changes, requestId, .inr ⟨s, rfl⟩⟩
  | _, _, _ => none

/-- A stored event is read as it was. -/
theorem fromArray_toArray (data : Data) : Data.fromArray data.toArray = some data := by
  obtain ⟨meetingId, changes, requestId, isId⟩ := data
  rcases isId with ⟨n, rfl⟩ | ⟨s, rfl⟩ <;> cases requestId <;> rfl

/-! ### The request -/

def rules : List FieldRules :=
  [⟨["event"], [.required, .string, .ruleIn ["meeting.updated"]]⟩,
    ⟨["event_ts"], [.required, .integer]⟩,
    ⟨["payload"], [.required, .array]⟩,
    ⟨["payload", "object"], [.required, .array]⟩,
    ⟨["payload", "object", "id"], [.required, .numeric]⟩]

/-- The object of the payload of a body. -/
def payloadObject (body : Json) : Json := (body.dataGet ["payload", "object"]).getD (.array [])

/-- `requestId` is the header `x-zm-request-id`. -/
def toDto (body : Json) (requestId : Option String) : Option Data :=
  fromPayloadObject E toDateTimeString (payloadObject (Validator.validated rules body)) requestId

/-- The data of an event has its changes, and is stored and read as it is. -/
def Delivers (body : Json) (requestId : Option String) : Prop :=
  ∃ data, toDto E toDateTimeString body requestId = some data ∧
    data.changes = normalizedChanges E toDateTimeString (payloadObject body) ∧
    Data.fromArray data.toArray = some data

/-- The id of the meeting, as the body has it. -/
def meetingId (body : Json) : Json := ((payloadObject body).get? "id").getD .null

variable {E toDateTimeString} {V : ValidationEnv} {body : Json} {requestId : Option String}

/-- **Of an accepted body the id is all that is left of the object.** -/
theorem validated_of_accepted (h : Validator.passes V rules body = true) :
    payloadObject (Validator.validated rules body) = .array [("id", meetingId body)] := by
  simp only [Validator.passes, rules, List.all_cons, List.all_nil, Bool.and_true, Bool.and_eq_true] at h
  obtain ⟨he, ht, -, ho, hi⟩ := h
  obtain ⟨event, he⟩ := Validator.isSome_of_fieldPasses (by simp) (by simp) he
  obtain ⟨ts, ht⟩ := Validator.isSome_of_fieldPasses (by simp) (by simp) ht
  obtain ⟨object, ho⟩ := Validator.isSome_of_fieldPasses (by simp) (by simp) ho
  obtain ⟨id, hi⟩ := Validator.isSome_of_fieldPasses (by simp) (by simp) hi
  have hid : object.get? "id" = some id := by
    have hpath : body.dataGet (["payload", "object"] ++ ["id"]) = some id := hi
    rw [Json.dataGet_append, ho] at hpath
    simpa [Json.dataGet] using hpath
  have hmeeting : meetingId body = id := by simp [meetingId, payloadObject, ho, hid]
  have hfields : Validator.validated rules body =
      .array [("event", event), ("event_ts", ts), ("payload", .array [("object", .array [("id", id)])])] := by
    simp [Validator.validated, Validator.hasRulesBelow, rules, he, ht, hi, Json.arrSet, Json.put, Json.get?,
      Json.entries]
  rw [hfields, hmeeting]
  rfl

theorem normalizedChanges_id (id : Json) : normalizedChanges E toDateTimeString (.array [("id", id)]) = [] := by
  simp [normalizedChanges, normalizeChanges, reduced, joinBeforeHost, Json.entries, Json.dataGet, Json.get?, allowedFields,
    field, normalizedJoinBeforeHost]

/-- Every accepted body is taken for one without changes. -/
theorem toDto_of_accepted (h : Validator.passes V rules body = true) {data : Data}
    (hd : toDto E toDateTimeString body requestId = some data) : data.changes = [] := by
  simp only [toDto, validated_of_accepted h, fromPayloadObject] at hd
  have hnone : normalizedChanges E toDateTimeString (.array [("id", meetingId body)]) = [] := normalizedChanges_id _
  split at hd <;> cases hd
  · exact hnone
  · exact hnone

theorem toDto_isSome (h : Validator.passes V rules body = true) :
    (∃ data, toDto E toDateTimeString body requestId = some data) ↔
      (∃ n, meetingId body = .int n) ∨ ∃ s, meetingId body = .str s := by
  have hget : (Json.array [("id", meetingId body)]).get? "id" = some (meetingId body) := by
    simp [Json.get?, Json.entries]
  simp only [toDto, validated_of_accepted h, fromPayloadObject, hget]
  cases meetingId body <;> simp

/-- **An event is delivered** exactly if its id is an integer or a string and it carries
no change. -/
theorem delivers_iff (h : Validator.passes V rules body = true) : Delivers E toDateTimeString body requestId ↔
    ((∃ n, meetingId body = .int n) ∨ ∃ s, meetingId body = .str s) ∧
      normalizedChanges E toDateTimeString (payloadObject body) = [] := by
  constructor
  · rintro ⟨data, hd, hc, -⟩
    refine ⟨(toDto_isSome h).mp ⟨data, hd⟩, ?_⟩
    rw [← hc]
    exact toDto_of_accepted h hd
  · rintro ⟨hid, hnone⟩
    obtain ⟨data, hd⟩ := (toDto_isSome (E := E) h).mpr hid
    exact ⟨data, hd, by rw [hnone, toDto_of_accepted h hd], fromArray_toArray data⟩

/-! ### An event that carries a topic -/

namespace Sample

def updated (object : List (String × Json)) : Json :=
  .array [("event", .str "meeting.updated"), ("event_ts", .int 1719229788513),
    ("payload", .array [("object", .array object)])]

def validation : ValidationEnv := ⟨fun _ => true, fun _ => true, fun _ => true, fun _ => true⟩

def retitled : Json := updated [("id", .int 813), ("topic", .str "eye to eye like sky")]

end Sample

theorem delivers_iff_id : Delivers Meetings.Sample.env (fun _ => "") (Sample.updated [("id", .int 813)]) none := by
  have hp : Validator.passes Sample.validation rules (Sample.updated [("id", .int 813)]) = true := by decide
  exact (delivers_iff hp).mpr ⟨.inl ⟨813, rfl⟩, normalizedChanges_id _⟩

/-- The new topic is lost. -/
theorem topic_lost : Validator.passes Sample.validation rules Sample.retitled = true ∧
    ¬ Delivers Meetings.Sample.env (fun _ => "") Sample.retitled none := by
  have hp : Validator.passes Sample.validation rules Sample.retitled = true := by decide
  refine ⟨hp, ?_⟩
  rintro ⟨data, hd, hc, -⟩
  have htopic : normalizedChanges Meetings.Sample.env (fun _ => "") (payloadObject Sample.retitled) =
      [("topic", .str "eye to eye like sky")] := rfl
  rw [toDto_of_accepted hp hd, htopic] at hc
  cases hc

end MeetingUpdatedWebhookRequest
end Daywright
