/-
# Comparing a meeting with what Zoom says

`ZoomMeetingUpdatedWebhookChanges` decodes the payload of a pending update and
compares it, field by field, with a webhook or with a meeting fetched from Zoom;
values that Zoom writes in another format are compared by meaning.
`ZoomWebhookSupport` orders provider events by the provider's time.

Key definitions: `matchingOperationFields`, `zoomHasRequestedFields`,
`fieldsFromZoom`, `hasChanges`, `isStaleProviderEvent`, `predatesPendingOperation`.
-/
import Daywright.Meeting

namespace Daywright

open Php

abbrev Fields := List (String × Value)

namespace ZoomMeetingUpdatedWebhookChanges

def allowedFields : List String :=
  ["topic", "duration", "agenda", "start_time", "timezone", "password", "join_before_host", "join_url"]

/-! ### Field values -/

/-- The instant, to the second. -/
def normalizedTime (E : Env) : Value → Option ℤ
  | .str s => if s = "" then none else (E.carbonParse s).map (· / 1000000)
  | _ => none

def timeValuesMatch (E : Env) (expected actual : Value) : Bool :=
  (normalizedTime E expected).isSome && normalizedTime E expected == normalizedTime E actual

def durationValuesMatch (expected actual : Value) : Bool :=
  (numeric expected).isSome && numeric expected == numeric actual

def booleanValuesMatch (expected actual : Value) : Bool :=
  (filterBoolean expected).isSome && filterBoolean expected == filterBoolean actual

def stringValuesMatch : Value → Value → Bool
  | .str expected, .str actual => expected == actual
  | _, _ => false

def fieldValuesMatch (E : Env) (name : String) (expected actual : Value) : Bool :=
  if name = "start_time" then timeValuesMatch E expected actual
  else if name = "duration" then durationValuesMatch expected actual
  else if name = "join_before_host" then booleanValuesMatch expected actual
  else stringValuesMatch expected actual

/-! ### The pending operation -/

/-- `null`, or the array that the payload of an operation encodes. A scalar that
is not null violates the return type `?array`. -/
def decodePayload : Option SyncPayload → Except Throwable (Option Fields)
  | none => .ok none
  | some .blank => .ok none
  | some .malformed => .ok none
  | some (.scalar .null) => .ok none
  | some (.scalar _) => .error (.other none)
  | some (.json fields) => .ok (if fields.isEmpty then none else some fields)

def validateMatchingFields (E : Env) (payload webhookChanges : Fields) : Option Fields :=
  if payload.all fun f => allowedFields.contains f.1 &&
      (field f.1 webhookChanges).any fun actual => fieldValuesMatch E f.1 f.2 actual
  then some payload else none

def matchingOperationFields (E : Env) (m : Meeting) (webhookChanges : Fields) :
    Except Throwable (Option Fields) :=
  (decodePayload m.syncPayload).map fun payload =>
    payload.bind fun payload => validateMatchingFields E payload webhookChanges

theorem validateMatchingFields_eq {E : Env} {payload webhookChanges fields : Fields}
    (h : validateMatchingFields E payload webhookChanges = some fields) : fields = payload := by
  unfold validateMatchingFields at h
  split at h <;> cases h
  rfl

/-- The fields that match are those of the operation. -/
theorem decodePayload_of_matching {E : Env} {m : Meeting} {webhookChanges payload : Fields}
    (h : matchingOperationFields E m webhookChanges = .ok (some payload)) :
    decodePayload m.syncPayload = .ok (some payload) := by
  unfold matchingOperationFields at h
  cases hd : decodePayload m.syncPayload with
  | error e => simp [hd, Except.map] at h
  | ok fields =>
    cases fields with
    | none => simp [hd, Except.map] at h
    | some fields =>
      simp only [hd, Except.map, Option.bind_some, Except.ok.injEq] at h
      rw [validateMatchingFields_eq h]

/-- The properties of a `ZoomMeeting` that a payload may name. -/
def fieldsFromZoom (z : ZoomMeeting) : Fields :=
  [("topic", .str z.topic), ("duration", .int z.duration), ("agenda", .str z.agenda),
    ("start_time", .str z.startTime), ("timezone", .str z.timezone), ("password", .str z.password),
    ("join_before_host", .bool z.joinBeforeHost), ("join_url", .str z.joinUrl)]

def zoomHasRequestedFields (E : Env) (payload : Fields) (z : ZoomMeeting) : Bool :=
  payload.all fun f => allowedFields.contains f.1 &&
    (field f.1 (fieldsFromZoom z)).any fun actual => fieldValuesMatch E f.1 f.2 actual

def otherAllowedFields (operationPayload webhookChanges : Fields) : Fields :=
  webhookChanges.filter fun f => allowedFields.contains f.1 && !hasKey f.1 operationPayload

/-! ### Changes -/

/-- `$v ? Carbon::parse($v) : null`, a start time being a string in every event;
`none`: it throws. -/
def instant (E : Env) (v : Value) : Option (Option ℤ) :=
  if toBool v then
    match v with
    | .str s => (E.carbonParse s).map some
    | _ => none
  else some none

def timeHasChanged (E : Env) (current value : Value) : Option Bool :=
  match instant E current, instant E value with
  | some a, some b => some (a != b)
  | _, _ => none

def hasChanged (E : Env) (m : Meeting) (name : String) (value : Value) : Option Bool :=
  let current := m.attributes name
  if name = "start_time" then timeHasChanged E current value
  else if current.isBool || value.isBool then some (toBool value != toBool current)
  else if (numeric current).isSome && (numeric value).isSome then some (numeric value != numeric current)
  else some (value != current)

/-- The first change found decides; `none`: a date does not parse. -/
def hasChanges (E : Env) (m : Meeting) : Fields → Option Bool
  | [] => some false
  | f :: fields =>
    match hasChanged E m f.1 f.2 with
    | none => none
    | some true => some true
    | some false => hasChanges E m fields

end ZoomMeetingUpdatedWebhookChanges

/-! ### ZoomWebhookSupport -/

namespace ZoomWebhookSupport

/-- `provider_occurred_at`: the provider's time of an event, in milliseconds. -/
abbrev OccurredAt := Option ℤ

def isStaleProviderEvent (m : Meeting) (occurredAt : OccurredAt) (allowEqualTimestamp : Bool) : Bool :=
  match occurredAt with
  | none => true
  | some t =>
    m.lastZoomEventTimestamp.any fun last => if allowEqualTimestamp then t < last else t ≤ last

def requiresZoomReconciliation (m : Meeting) (occurredAt : OccurredAt) : Bool :=
  match occurredAt with
  | none => false
  | some t =>
    m.lastZoomEventTimestamp == some t || m.syncReconcileBeforeAt.any fun before => t ≤ (before : ℤ)

def predatesPendingOperation (m : Meeting) (occurredAt : OccurredAt) : Bool :=
  match occurredAt with
  | none => false
  | some t => m.syncStartedAt.any fun started => t ≤ (started : ℤ)

def ensureActiveSyncStatus (m : Meeting) : Bool := m.syncStatus.acceptsZoomRuntimeWebhook

end ZoomWebhookSupport

end Daywright
