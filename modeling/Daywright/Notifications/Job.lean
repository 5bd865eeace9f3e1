/-
# The notifications of a meeting

A meeting.started or meeting.ended webhook changes the status of the meeting and
notes, in the same update, that a notification is due (`*_notification_pending_at`);
then it dispatches the job that sends it. The job reads the meeting, notifies each
active member of the project over three channels and notes that it has
(`*_notification_sent_at`). `meetings:check-unsent-notifications` dispatches again
what has been due for ten minutes and is not noted as sent.

Dispatching takes the lock of the job (`ShouldBeUnique`), for five minutes at most;
the queue hands a job out up to three times, and again when a worker has not come
back to it for 150 seconds. A process may crash between any two of its steps, and any
call may throw, before or after it took effect, or run into the timeout of the job.

Key definitions: `SendMeetingNotificationJob`, `CheckUnsentMeetingNotifications`,
`DatabaseChannel.send`, `Notifications.program`.
-/
import Daywright.Chunk
import Daywright.Interleave
import Daywright.Table
import Daywright.Webhooks.Meeting

namespace Daywright

/-- A row of `meetings`: what its notifications read and write, beside the columns of
`Meeting`. -/
structure MeetingRow where
  id : ℕ
  projectId : ℕ
  updatedAt : Time
  meeting : Meeting
  startedNotificationSentAt : Option Time
  endedNotificationSentAt : Option Time

/-! ### The jobs -/

/-- An abstract class; its fields are what a subclass defines. -/
structure SendMeetingNotificationJob where
  uniqueIdPrefix : String
  hasAlreadySentNotification : MeetingRow → Bool
  markNotificationAsSent : Time → MeetingRow → MeetingRow

def SendMeetingStartedNotification : SendMeetingNotificationJob where
  uniqueIdPrefix := "meeting-started-notification"
  hasAlreadySentNotification r := r.startedNotificationSentAt.isSome
  markNotificationAsSent now r :=
    { r with
      startedNotificationSentAt := some now
      meeting := { r.meeting with startedNotificationPendingAt := none }
      updatedAt := now }

def SendMeetingEndedNotification : SendMeetingNotificationJob where
  uniqueIdPrefix := "meeting-ended-notification"
  hasAlreadySentNotification r := r.endedNotificationSentAt.isSome
  markNotificationAsSent now r :=
    { r with
      endedNotificationSentAt := some now
      meeting := { r.meeting with endedNotificationPendingAt := none }
      updatedAt := now }

namespace SendMeetingNotificationJob

def tries : ℕ := 3

/-- By the number of attempts; the last one counts for those after it. -/
def backoff : List ℕ := [10, 60]

def uniqueFor : Time := seconds 300

def uniqueId (J : SendMeetingNotificationJob) (meetingId : ℕ) : String :=
  J.uniqueIdPrefix ++ "-" ++ toString meetingId

end SendMeetingNotificationJob

/-- The two kinds of notification. -/
inductive MeetingNotification where
  | started
  | ended
  deriving DecidableEq, Repr

namespace MeetingNotification

def job : MeetingNotification → SendMeetingNotificationJob
  | started => SendMeetingStartedNotification
  | ended => SendMeetingEndedNotification

/-- `MeetingState`. -/
def status : MeetingNotification → String
  | started => "started"
  | ended => "ended"

def pendingAt : MeetingNotification → MeetingRow → Option Time
  | started, r => r.meeting.startedNotificationPendingAt
  | ended, r => r.meeting.endedNotificationPendingAt

def sentAt : MeetingNotification → MeetingRow → Option Time
  | started, r => r.startedNotificationSentAt
  | ended, r => r.endedNotificationSentAt

/-- The update of the webhook. -/
def transition : MeetingNotification → Meeting → Time → Commit
  | started => HandleMeetingStartedWebhook.transitionToStarted
  | ended => HandleMeetingEndedWebhook.transitionToEnded

def uniqueId (k : MeetingNotification) (meetingId : ℕ) : String := k.job.uniqueId meetingId

theorem toString_injective {m n : ℕ} (h : toString m = toString n) : m = n := by
  have hd : Nat.toDigits 10 m = Nat.toDigits 10 n := by
    have h' := congrArg String.toList h
    simpa [toString, Nat.repr] using h'
  have hm := Nat.ofDigitChars_toDigits (b := 10) (n := m) (by decide) (by decide)
  have hn := Nat.ofDigitChars_toDigits (b := 10) (n := n) (by decide) (by decide)
  rw [hd, hn] at hm
  exact hm.symm

/-- A lock is that of one kind of notification of one meeting. -/
theorem uniqueId_inj {k k' : MeetingNotification} {m m' : ℕ} (h : k.uniqueId m = k'.uniqueId m') :
    k = k' ∧ m = m' := by
  unfold uniqueId SendMeetingNotificationJob.uniqueId at h
  have hl := congrArg String.toList h
  cases k <;> cases k' <;>
    simp only [job, SendMeetingStartedNotification, SendMeetingEndedNotification, String.append_right_inj] at h hl
  · exact ⟨rfl, toString_injective h⟩
  · simp at hl
  · simp at hl
  · exact ⟨rfl, toString_injective h⟩

end MeetingNotification

/-! ### The channels -/

inductive NotificationChannel where
  | mail
  | database
  | broadcast
  deriving DecidableEq, Repr

/-- `MeetingStarted::via` and `MeetingEnded::via`. -/
def MeetingNotification.via : List NotificationChannel := [.mail, .database, .broadcast]

/-- A row of `notifications`, by the columns of its unique index. -/
structure NotificationRow where
  type : MeetingNotification
  notifiableId : ℕ
  signature : String
  deriving DecidableEq, Repr

/-- `MeetingStarted::databaseSignature` and `MeetingEnded::databaseSignature`. -/
def MeetingNotification.databaseSignature (sha256 : String → String) (meetingId : ℕ) : String :=
  sha256 ("meeting:" ++ toString meetingId)

/-- `insertOrIgnore` under the unique index. -/
def DatabaseChannel.send (n : NotificationRow) (rows : List NotificationRow) : List NotificationRow :=
  if rows.contains n then rows else rows ++ [n]

namespace Notifications

open Interleave Table

/-! ### The queue -/

/-- The lock of a unique job. -/
structure Lock where
  key : String
  expiresAt : Time
  deriving DecidableEq, Repr

structure QueuedJob where
  id : ℕ
  kind : MeetingNotification
  meetingId : ℕ
  attempts : ℕ
  availableAt : Time
  reservedAt : Option Time
  deriving DecidableEq, Repr

def QueuedJob.uniqueId (j : QueuedJob) : String := j.kind.uniqueId j.meetingId

/-- `retry_after` of the connection. -/
def retryAfter : Time := seconds 150

def QueuedJob.isAvailable (now : Time) (j : QueuedJob) : Bool :=
  match j.reservedAt with
  | none => decide (j.availableAt ≤ now)
  | some reservedAt => decide (reservedAt + retryAfter ≤ now)

/-- One attempt at a job, as its worker knows it. -/
structure Attempt where
  job : ℕ
  attempts : ℕ
  kind : MeetingNotification
  meetingId : ℕ
  deriving DecidableEq, Repr

def Attempt.uniqueId (w : Attempt) : String := w.kind.uniqueId w.meetingId

/-! ### The store -/

/-- What happened, in the order it did. -/
inductive Event where
  | transitioned (kind : MeetingNotification) (meetingId : ℕ)
  | loaded (w : Attempt) (asignees : List ℕ)
  | delivered (w : Attempt) (user : ℕ) (channel : NotificationChannel)
  | marked (w : Attempt)
  deriving DecidableEq, Repr

structure Store where
  now : Time
  meetings : List MeetingRow
  /-- The last id given to a meeting. -/
  lastMeeting : ℕ
  /-- The active members of a project; `none`: it is deleted. -/
  asignees : ℕ → Option (List ℕ)
  notifications : List NotificationRow
  locks : List Lock
  jobs : List QueuedJob
  /-- The last id given to a job. -/
  lastJob : ℕ
  log : List Event

/-- How a call ends. -/
inductive Result where
  | returned
  | threw (done : Bool)
  /-- The worker fails the job and exits. -/
  | timedOut (done : Bool)
  deriving DecidableEq, Repr

/-- Whether the call took effect. -/
def Result.done : Result → Bool
  | .returned => true
  | .threw done | .timedOut done => done

/-- The lock is taken if it is free, and then the job is queued. -/
def dispatch (kind : MeetingNotification) (meetingId : ℕ) (queued : Bool) (now : Time) (s : Store) : Store :=
  let key := kind.uniqueId meetingId
  if s.locks.any fun l => l.key == key && decide (now < l.expiresAt) then s
  else
    let lock : Lock := ⟨key, now + SendMeetingNotificationJob.uniqueFor⟩
    let locked := { s with locks := lock :: s.locks.filter (·.key != key) }
    if queued then
      { locked with
        jobs := s.jobs ++ [⟨s.lastJob + 1, kind, meetingId, 0, now, none⟩]
        lastJob := s.lastJob + 1 }
    else locked

/-- `forceRelease`: whoever holds the lock. -/
def releaseLock (key : String) (s : Store) : Store := { s with locks := s.locks.filter (·.key != key) }

/-- The queue hands the job out. -/
def reserved (id : ℕ) (now : Time) (s : Store) : Store :=
  { s with
    jobs := updateWhere (·.id == id) (fun j => { j with attempts := j.attempts + 1, reservedAt := some now }) s.jobs }

def deleteJob (id : ℕ) (s : Store) : Store := { s with jobs := s.jobs.filter (·.id != id) }

/-- The job goes back to the queue. -/
def release (w : Attempt) (now : Time) (s : Store) : Store :=
  let availableAt := now + seconds ((SendMeetingNotificationJob.backoff[w.attempts - 1]?).getD 60)
  { s with jobs := updateWhere (·.id == w.job) ({ · with availableAt, reservedAt := none }) s.jobs }

end Notifications

/-! ### meetings:check-unsent-notifications -/

namespace CheckUnsentMeetingNotifications

/-- `staleNotificationMeetings`. -/
def stale (kind : MeetingNotification) (cutoff : Time) (asignees : ℕ → Option (List ℕ)) (r : MeetingRow) :
    Bool :=
  (kind.sentAt r).isNone &&
    ((kind.pendingAt r).any (· < cutoff) ||
      ((kind.pendingAt r).isNone && r.meeting.status == some kind.status && decide (r.updatedAt < cutoff))) &&
    (asignees r.projectId).isSome

def staleNotificationMeetings (kind : MeetingNotification) (cutoff : Time) (s : Notifications.Store) :
    List MeetingRow := s.meetings.filter (stale kind cutoff s.asignees)

/-- The pages of `chunkById`. -/
def count : ℕ := 50

def page (kind : MeetingNotification) (cutoff : Time) (lastId : Option ℕ) (s : Notifications.Store) :
    List MeetingRow := (Chunk.after (·.id) lastId (staleNotificationMeetings kind cutoff s)).take count

end CheckUnsentMeetingNotifications

/-! ### The processes -/

namespace Notifications

open Interleave Table

/-- What the rest of the program does to the tables. -/
inductive Write where
  | createMeeting (r : MeetingRow)
  /-- The columns that are not the notifications' take the values of `r`. -/
  | updateMeeting (r : MeetingRow)
  | deleteMeeting (id : ℕ)
  | setAsignees (projectId : ℕ) (asignees : Option (List ℕ))
  | deleteNotification (n : NotificationRow)

/-- `r` with the other columns of `r'`. -/
def overwrite (r r' : MeetingRow) : MeetingRow :=
  { r with
    projectId := r'.projectId
    updatedAt := r'.updatedAt
    meeting := { r'.meeting with
      startedNotificationPendingAt := r.meeting.startedNotificationPendingAt
      endedNotificationPendingAt := r.meeting.endedNotificationPendingAt } }

/-- A new row, without notifications. -/
def created (id : ℕ) (r : MeetingRow) : MeetingRow where
  id := id
  projectId := r.projectId
  updatedAt := r.updatedAt
  meeting := { r.meeting with startedNotificationPendingAt := none, endedNotificationPendingAt := none }
  startedNotificationSentAt := none
  endedNotificationSentAt := none

def Write.apply (s : Store) : Write → Store
  | createMeeting r =>
    { s with meetings := s.meetings ++ [created (s.lastMeeting + 1) r], lastMeeting := s.lastMeeting + 1 }
  | updateMeeting r => { s with meetings := updateWhere (·.id == r.id) (overwrite · r) s.meetings }
  | deleteMeeting id => { s with meetings := s.meetings.filter (·.id != id) }
  | setAsignees projectId asignees =>
    { s with asignees := fun p => if p = projectId then asignees else s.asignees p }
  | deleteNotification n => { s with notifications := s.notifications.filter (· != n) }

/-- Where a process stands. -/
inductive Point where
  -- `HandleMeetingStartedWebhook`, `HandleMeetingEndedWebhook`.
  | webhook (kind : MeetingNotification) (meetingId : ZoomId)
  | transition (kind : MeetingNotification) (id : ℕ)
  | dispatchNotificationJob (kind : MeetingNotification) (id : ℕ)
  -- `CheckUnsentMeetingNotifications`; the meetings of a page still to be handled, and
  -- the last id of a full page.
  | check (kind : MeetingNotification)
  | page (kind : MeetingNotification) (cutoff : Time) (lastId : Option ℕ)
  | redispatch (kind : MeetingNotification) (cutoff : Time) (ids : List ℕ) (full : Option ℕ)
  -- A worker.
  | reserve (job : ℕ)
  | handle (w : Attempt)
  | load (w : Attempt) (r : MeetingRow)
  | send (w : Attempt) (asignees : List ℕ) (remaining : List (ℕ × NotificationChannel))
  | markNotificationAsSent (w : Attempt)
  | releaseLock (w : Attempt)
  | delete (w : Attempt)
  | threw (w : Attempt)
  | fail (w : Attempt)
  | failed (w : Attempt)
  | other (w : Write)

structure Input where
  now : Time
  result : Result
  /-- The project has its user; without one, what a notification says cannot be put
  together, which throws before anything is dispatched. -/
  hasNotifier : Bool

/-- Where an attempt goes on after a call. -/
def Result.andThen (r : Result) (w : Attempt) (p : Point) : Point :=
  match r with
  | .returned => p
  | .threw _ => .threw w
  | .timedOut _ => .fail w

/-- What the database channel inserts. -/
def notificationRow (sha256 : String → String) (w : Attempt) (user : ℕ) : NotificationRow :=
  ⟨w.kind, user, MeetingNotification.databaseSignature sha256 w.meetingId⟩

/-- A channel delivers. -/
def deliver (sha256 : String → String) (w : Attempt) (user : ℕ) (channel : NotificationChannel) (s : Store) : Store :=
  let s := { s with log := s.log ++ [.delivered w user channel] }
  match channel with
  | .database => { s with notifications := DatabaseChannel.send (notificationRow sha256 w user) s.notifications }
  | .mail | .broadcast => s

/-- The update of the webhook; nothing is dispatched unless it changed the row. -/
def transitionTo (kind : MeetingNotification) (r : MeetingRow) (now : Time) (s : Store) : Option Store :=
  (kind.transition r.meeting now).written.map fun m =>
    { s with
      meetings := updateWhere (·.id == r.id) ({ · with meeting := m, updatedAt := now }) s.meetings
      log := s.log ++ [.transitioned kind r.id] }

/-- `markNotificationAsSent`. -/
def mark (w : Attempt) (now : Time) (s : Store) : Store :=
  { s with
    meetings := updateWhere (·.id == w.meetingId) (w.kind.job.markNotificationAsSent now) s.meetings
    log := s.log ++ [.marked w] }

def act (sha256 : String → String) (s : Store) (p : Point) (e : Input) : Store × Option Point :=
  match p with
  | .webhook kind meetingId =>
    match s.meetings.find? fun r => r.meeting.sameMeetingId meetingId with
    | none => (s, none)
    | some r =>
      (s, if ZoomWebhookSupport.ensureActiveSyncStatus r.meeting then some (.transition kind r.id) else none)
  | .transition kind id =>
    -- The event that follows the update may throw as well.
    if e.result.done then
      match (s.meetings.find? (·.id == id)).bind fun r => transitionTo kind r e.now s with
      | none => (s, none)
      | some s' => (s', if e.result = .returned then some (.dispatchNotificationJob kind id) else none)
    else (s, none)
  | .dispatchNotificationJob kind id =>
    (if e.hasNotifier then dispatch kind id e.result.done e.now s else s, none)
  | .check kind => (s, some (.page kind (e.now - minutes 10) none))
  | .page kind cutoff lastId =>
    let page := CheckUnsentMeetingNotifications.page kind cutoff lastId s
    let full := if page.length = CheckUnsentMeetingNotifications.count then page.getLast?.map (·.id) else none
    (s, some (.redispatch kind cutoff (page.map (·.id)) full))
  | .redispatch kind cutoff [] (some lastId) => (s, some (.page kind cutoff (some lastId)))
  | .redispatch kind _ [] none => (s, match kind with | .started => some (.check .ended) | .ended => none)
  | .redispatch kind cutoff (id :: ids) full =>
    -- What is thrown is caught.
    (if e.hasNotifier then dispatch kind id e.result.done e.now s else s, some (.redispatch kind cutoff ids full))
  | .reserve job =>
    match s.jobs.find? fun j => j.id == job && j.isAvailable e.now with
    | none => (s, none)
    | some j =>
      let w : Attempt := ⟨j.id, j.attempts + 1, j.kind, j.meetingId⟩
      (reserved job e.now s, some (if SendMeetingNotificationJob.tries < w.attempts then .fail w else .handle w))
  | .handle w =>
    match s.meetings.find? (·.id == w.meetingId) with
    | none => (s, some (e.result.andThen w (.threw w)))
    | some r => (s, some (e.result.andThen w (.load w r)))
  | .load w r =>
    if w.kind.job.hasAlreadySentNotification r then (s, some (e.result.andThen w (.releaseLock w)))
    else
      match s.asignees r.projectId with
      | none => (s, some (e.result.andThen w (.threw w)))
      | some asignees =>
        let deliveries := asignees.flatMap fun user => MeetingNotification.via.map (user, ·)
        ({ s with log := s.log ++ [.loaded w asignees] }, some (e.result.andThen w (.send w asignees deliveries)))
  | .send w asignees ((user, channel) :: remaining) =>
    (if e.result.done then deliver sha256 w user channel s else s,
      some (e.result.andThen w (.send w asignees remaining)))
  | .send w _ [] => (s, some (e.result.andThen w (.markNotificationAsSent w)))
  | .markNotificationAsSent w =>
    (if e.result.done then mark w e.now s else s, some (e.result.andThen w (.releaseLock w)))
  | .releaseLock w => (Notifications.releaseLock w.uniqueId s, some (.delete w))
  | .delete w => (deleteJob w.job s, none)
  | .threw w =>
    if w.attempts < SendMeetingNotificationJob.tries then (release w e.now s, none) else (s, some (.fail w))
  | .fail w => (deleteJob w.job s, some (.failed w))
  | .failed w => (Notifications.releaseLock w.uniqueId s, none)
  | .other w => (w.apply s, none)

def program (sha256 : String → String) : Program Store Point Input where
  entry
    | .webhook _ _ | .check .started | .reserve _ | .other _ => true
    | _ => false
  move s p e :=
    if e.now < s.now then none
    else
      let (s', k) := act sha256 s p e
      some ({ s' with now := e.now }, k)

/-- Nothing has been created yet. -/
def start : Config Store Point := ⟨⟨0, [], 0, fun _ => none, [], [], [], 0, []⟩, []⟩

end Notifications
end Daywright
