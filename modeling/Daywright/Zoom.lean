/-
# What Zoom answers

The meeting Zoom returns (`ZoomMeeting`), the entries of its list of meetings
(`MeetingSummary`), and what a call throws (`Throwable`), with the message an
error leaves in `sync_error` (`MeetingSyncErrorFormatter.format`).

`Env` is what the model takes from outside the repository: Carbon's reading of a
date, and the configured name of the tracking field that carries the operation
id. Times are milliseconds, Carbon's instants microseconds.

Key definitions: `Env`, `ZoomMeeting`, `MeetingSummary`, `Throwable`.
-/
import Daywright.Php

namespace Daywright

open Php

/-- Milliseconds. -/
abbrev Time := ℕ

abbrev Uuid := String

/-- Zoom's meeting id, compared by its decimal digits in the source. -/
abbrev ZoomId := ℕ

def seconds (n : ℕ) : Time := 1000 * n
def minutes (n : ℕ) : Time := seconds (60 * n)

structure Env where
  /-- `Carbon::parse`, in microseconds; `none`: it throws. -/
  carbonParse : String → Option ℤ
  /-- `services.zoom.meeting_operation_tracking_field`. -/
  trackingField : String

/-! ### Meetings -/

/-- `DataTransferObjects\Zoom\Meeting`, a meeting as Zoom returns it. -/
structure ZoomMeeting where
  meetingId : ZoomId
  topic : String
  agenda : String
  duration : ℤ
  startTime : String
  startUrl : String
  joinUrl : String
  status : String
  timezone : String
  password : String
  joinBeforeHost : Bool
  trackingFields : List (String × String)
  deriving DecidableEq, Repr

structure MeetingSummary where
  meetingId : ZoomId
  trackingFields : List (String × String)
  deriving DecidableEq, Repr

def MeetingSummary.hasTrackingFields (s : MeetingSummary) : Bool := !s.trackingFields.isEmpty

def matchesTrackingFields (E : Env) (trackingFields : List (String × String)) (operationId : Option Uuid) :
    Bool :=
  operationId.isSome && (trackingFields.find? fun f => f.1 == E.trackingField).map (·.2) == operationId

def matchesOperationId (E : Env) (z : ZoomMeeting) (operationId : Option Uuid) : Bool :=
  matchesTrackingFields E z.trackingFields operationId

/-! ### Errors -/

/-- The user errors of Zoom: `ZoomUserErrorException` and its two subclasses. -/
inductive ZoomUserError where
  | request
  | unauthorized
  | notFound
  deriving DecidableEq, Repr

/-- What a call to Zoom can throw. -/
inductive Throwable where
  /-- `ZoomMeetingCreationUnknownException`. -/
  | creationUnknown
  /-- `ZoomMeetingOperationUnknownException`. -/
  | operationUnknown
  /-- `ZoomRateLimitException`. -/
  | rateLimit (retryAfter : Option ℕ) (application : Bool)
  | externalFailure
  | userError (kind : ZoomUserError) (message : String)
  /-- No exception of Zoom's; some have a public message. -/
  | other (publicMessage : Option String)
  deriving DecidableEq, Repr

namespace Throwable

/-- `ZoomException` and its subclasses; the unknown results are none. -/
def isZoomException : Throwable → Bool
  | .rateLimit .. | .externalFailure | .userError .. => true
  | .creationUnknown | .operationUnknown | .other _ => false

def status : Throwable → ℕ
  | .creationUnknown | .operationUnknown => 202
  | .rateLimit .. => 429
  | .externalFailure => 503
  | .userError .request _ => 400
  | .userError .unauthorized _ => 403
  | .userError .notFound _ => 404
  | .other _ => 500

/-- Only a positive number of seconds is kept. -/
def retryAfterSeconds : Throwable → Option ℕ
  | .rateLimit (some (n + 1)) _ => some (n + 1)
  | _ => none

def ofUserError (kind : ZoomUserError) (message : String) : String :=
  let message := message.trimAscii.toString
  if ["User is not connected to Zoom.", "Zoom account connection needs to be re-authorized."].contains message
  then message
  else match kind with
    | .request => "Zoom request failed."
    | .unauthorized => "Zoom access is forbidden."
    | .notFound => "Zoom resource not found."

def publicMessage : Throwable → Option String
  | .creationUnknown =>
    some "Meeting creation is being processed. The meeting status will be updated shortly."
  | .operationUnknown =>
    some "Meeting operation is being processed. The meeting status will be updated shortly."
  | e@(.rateLimit _ application) =>
    let message := if application then "This app is limiting Zoom requests. Please retry later."
      else "Zoom is limiting requests to its API. Please retry later."
    some (match e.retryAfterSeconds with
      | none => message
      | some n => message ++ " Try again in " ++ toString n ++ " seconds.")
  | .externalFailure => some "Zoom service is temporarily unavailable."
  | .userError kind message => some (ofUserError kind message)
  | .other message => message

end Throwable

/-- `MeetingSyncErrorFormatter::format`. -/
def formatSyncError (e : Throwable) : String :=
  let message := e.publicMessage.getD "Meeting sync failed. Please try again."
  if 1000 < message.length then (message.take 1000).toString ++ "..." else message

end Daywright
