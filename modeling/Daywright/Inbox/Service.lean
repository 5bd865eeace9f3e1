/-
# The webhook inbox

`ZoomWebhookInboxService`: a webhook is stored once (`accept`), a job claims its
row for five minutes and runs the handler (`process`), and a scheduled pass closes
and requeues what was left behind (`dispatchRecoverable`). Every database update
is a step of its own and may be the last one before a crash. The queue may lose
a job, repeat it or delay it: a job once dispatched may run any number of times.

The clock never runs backwards, and a worker draws a fresh uuid as its token.

Key definitions: `WebhookInbox`, its scopes, `ZoomWebhookInboxService`, `Inbox.program`.
-/
import Daywright.Interleave
import Daywright.Table
import Daywright.Zoom
import Mathlib.Data.List.Sort

namespace Daywright

inductive WebhookInboxState where
  | received
  | processing
  | completed
  | failed
  deriving DecidableEq, Repr

structure WebhookInbox where
  id : ℕ
  provider : String
  eventKey : String
  eventType : String
  providerRequestId : String
  /-- Milliseconds since the Unix epoch. -/
  providerOccurredAt : Option ℤ
  state : WebhookInboxState
  attempts : ℕ
  availableAt : Option Time
  claimToken : Option Uuid
  claimedAt : Option Time
  claimExpiresAt : Option Time
  completedAt : Option Time
  failedAt : Option Time
  lastErrorClass : Option String
  lastErrorCode : Option String
  createdAt : Time
  deriving DecidableEq, Repr

namespace WebhookInbox

variable (r : WebhookInbox)

/-! ### Scopes -/

def processingWithExpiredClaimAt (at' : Time) : Bool :=
  r.state == .processing && r.claimExpiresAt.any (· ≤ at')

def claimableAt (at' : Time) (maxAttempts : ℕ) : Bool :=
  decide (r.attempts < maxAttempts) &&
    ((r.state == .received && (r.availableAt.isNone || r.availableAt.any (· ≤ at'))) ||
      r.processingWithExpiredClaimAt at')

def unexpiredClaimOwnedBy (claimToken : Uuid) (at' : Time) : Bool :=
  r.state == .processing && r.claimToken == some claimToken && r.claimExpiresAt.any (at' < ·)

/-- `claim_token`, `claimed_at` and `claim_expires_at` are set to null. -/
def unclaim : WebhookInbox := { r with claimToken := none, claimedAt := none, claimExpiresAt := none }

end WebhookInbox

/-- `ZoomWebhookTimestamp::toMilliseconds`. -/
def ZoomWebhookTimestamp.toMilliseconds : Option ℤ → Option ℤ
  | none => none
  | some timestamp =>
    if timestamp < 1 then none
    else if timestamp < 100000000000 then some (timestamp * 1000)
    else some timestamp

/-- What the code reads of an exception: `$exception::class` and `getCode()`. -/
structure Failure where
  className : String
  code : String
  deriving DecidableEq, Repr

/-- How a call ends: of the handler, of the queue or of the database. -/
inductive Answer where
  | returned
  /-- The call had no effect. -/
  | throws (e : Failure)
  /-- The call took effect, and then threw. -/
  | throwsAfter (e : Failure)
  deriving DecidableEq, Repr

namespace HandlePersistedZoomWebhookAction

def eventTypes : List String :=
  ["meeting.created", "meeting.updated", "meeting.started", "meeting.ended", "meeting.deleted"]

/-- `execute`, where `handled` is how the handler of the event type ends. -/
def execute (webhookInbox : WebhookInbox) (handled : Answer) : Answer :=
  if eventTypes.contains webhookInbox.eventType then handled
  else .throws ⟨"InvalidArgumentException", "0"⟩

end HandlePersistedZoomWebhookAction

/-- The arguments of `accept`, without the payload. -/
structure Delivery where
  eventKey : String
  eventType : String
  requestId : String
  occurredAt : Option ℤ
  deriving DecidableEq, Repr

namespace ZoomWebhookInboxService

open Table

def maxAttempts : ℕ := 5

/-- `RETRY_BACKOFF`, by the number of attempts; no other key is defined. -/
def retryBackoff : List (ℕ × ℕ) := [(1, 15), (2, 30), (3, 60), (4, 120)]

/-! ### accept -/

def newInbox (id : ℕ) (d : Delivery) (now : Time) : WebhookInbox where
  id := id
  provider := "zoom"
  eventKey := d.eventKey
  eventType := d.eventType
  providerRequestId := d.requestId
  providerOccurredAt := ZoomWebhookTimestamp.toMilliseconds d.occurredAt
  state := .received
  attempts := 0
  availableAt := none
  claimToken := none
  claimedAt := none
  claimExpiresAt := none
  completedAt := none
  failedAt := none
  lastErrorClass := none
  lastErrorCode := none
  createdAt := now

def sameEvent (d : Delivery) (r : WebhookInbox) : Bool := r.provider == "zoom" && r.eventKey == d.eventKey

/-- `createOrFirst`, atomic by the unique index: the table after it, the row's id,
and `wasRecentlyCreated`. -/
def createOrFirst (d : Delivery) (now : Time) (rows : List WebhookInbox) :
    List WebhookInbox × ℕ × Bool :=
  match rows.find? (sameEvent d) with
  | some inbox => (rows, inbox.id, false)
  | none =>
    let id := nextId (rows.map (·.id))
    (rows ++ [newInbox id d now], id, true)

def isRecoverable (id : ℕ) (now : Time) (rows : List WebhookInbox) : Bool :=
  rows.any fun r => r.id == id && r.claimableAt now maxAttempts

/-! ### process -/

def claimable (id : ℕ) (claimedAt : Time) (r : WebhookInbox) : Bool :=
  r.id == id && r.claimableAt claimedAt maxAttempts

/-- `increment('attempts', 1, ..)`. -/
def claim (claimToken : Uuid) (claimedAt : Time) (r : WebhookInbox) : WebhookInbox :=
  { r with
    attempts := r.attempts + 1
    state := .processing
    claimToken := some claimToken
    claimedAt := some claimedAt
    claimExpiresAt := some (claimedAt + minutes 5) }

/-- The update of `claimForProcessing`: the table after it, and `$affected`. -/
def claimForProcessing (id : ℕ) (claimToken : Uuid) (claimedAt : Time) (rows : List WebhookInbox) :
    List WebhookInbox × ℕ :=
  (updateWhere (claimable id claimedAt) (claim claimToken claimedAt) rows,
    rows.countP (claimable id claimedAt))

/-- Its read. -/
def readClaimed (id : ℕ) (claimToken : Uuid) (rows : List WebhookInbox) : Option WebhookInbox :=
  rows.find? fun r => r.id == id && r.claimToken == some claimToken

def owned (id : ℕ) (claimToken : Uuid) (at' : Time) (r : WebhookInbox) : Bool :=
  r.id == id && r.unexpiredClaimOwnedBy claimToken at'

def complete (completedAt : Time) (r : WebhookInbox) : WebhookInbox :=
  { r.unclaim with
    state := .completed
    completedAt := some completedAt
    lastErrorClass := none
    lastErrorCode := none }

def completeActiveClaim (id : ℕ) (claimToken : Uuid) (completedAt : Time) (rows : List WebhookInbox) :
    List WebhookInbox :=
  updateWhere (owned id claimToken completedAt) (complete completedAt) rows

def shouldRetry (attempts : ℕ) : Bool := decide (attempts < maxAttempts)

/-- `$retryAt`; the outer `none` is an undefined key of `RETRY_BACKOFF`. -/
def retryAt (attempts : ℕ) (failedAt : Time) : Option (Option Time) :=
  if shouldRetry attempts then
    (retryBackoff.lookup attempts).map fun backoff => some (failedAt + seconds backoff)
  else some none

def giveBack (attempts : ℕ) (retryAt : Option Time) (failedAt : Time) (exception : Failure)
    (r : WebhookInbox) : WebhookInbox :=
  { r.unclaim with
    state := if shouldRetry attempts then .received else .failed
    availableAt := retryAt
    failedAt := if shouldRetry attempts then none else some failedAt
    lastErrorClass := some exception.className
    lastErrorCode := some exception.code }

/-- An undefined key ends the job before the update. -/
def recordProcessingFailure (id : ℕ) (claimToken : Uuid) (attempts : ℕ) (exception : Failure)
    (failedAt : Time) (rows : List WebhookInbox) : Option (List WebhookInbox) :=
  (retryAt attempts failedAt).map fun retryAt =>
    updateWhere (owned id claimToken failedAt) (giveBack attempts retryAt failedAt exception) rows

/-! ### dispatchRecoverable -/

def exhausted (at' : Time) (r : WebhookInbox) : Bool :=
  r.processingWithExpiredClaimAt at' && decide (maxAttempts ≤ r.attempts)

def close (at' : Time) (r : WebhookInbox) : WebhookInbox :=
  { r.unclaim with
    state := .failed
    failedAt := some at'
    lastErrorClass := some "lease_expired" }

def failExpiredExhaustedClaims (at' : Time) (rows : List WebhookInbox) : List WebhookInbox :=
  updateWhere (exhausted at') (close at') rows

def recoverableWebhooks (now : Time) (limit : ℕ) (rows : List WebhookInbox) : List WebhookInbox :=
  ((rows.filter (·.claimableAt now maxAttempts)).insertionSort (·.createdAt ≤ ·.createdAt)).take limit

end ZoomWebhookInboxService

/-! ### The processes -/

namespace Inbox

open Interleave ZoomWebhookInboxService

/-- Where a process stands. -/
inductive Point where
  | accept (d : Delivery)
  | checkRecoverable (id : ℕ) (wasRecentlyCreated : Bool)
  /-- The jobs still to be handed to the queue. -/
  | dispatchProcessingJob (ids : List ℕ)
  | process (id : ℕ)
  | readClaimed (id : ℕ) (claimToken : Uuid) (claimedAt : Time)
  | execute (id : ℕ) (claimToken : Uuid) (claimed : WebhookInbox)
  | completeActiveClaim (id : ℕ) (claimToken : Uuid) (claimed : WebhookInbox)
  | recordProcessingFailure (id : ℕ) (claimToken : Uuid) (attempts : ℕ) (exception : Failure)
  | dispatchRecoverable (limit : ℕ)
  | selectRecoverable (now : Time) (limit : ℕ)

/-- What the environment decides of a step. -/
structure Input where
  now : Time
  /-- The value of `Str::uuid()`. -/
  uuid : Uuid
  answer : Answer

/-- What a step leaves: the table, the job it hands to the queue, and where the
process goes on. -/
structure Outcome where
  rows : List WebhookInbox
  job : Option ℕ
  next : Option Point

/-- One step of a process. -/
def act (p : Point) (rows : List WebhookInbox) (e : Input) : Outcome :=
  match p with
  | .accept d =>
    let (rows', id, wasRecentlyCreated) := createOrFirst d e.now rows
    ⟨rows', none, some (.checkRecoverable id wasRecentlyCreated)⟩
  | .checkRecoverable id wasRecentlyCreated =>
    if wasRecentlyCreated || isRecoverable id e.now rows then
      ⟨rows, none, some (.dispatchProcessingJob [id])⟩
    else ⟨rows, none, none⟩
  | .dispatchProcessingJob [] => ⟨rows, none, none⟩
  | .dispatchProcessingJob (id :: ids) =>
    match e.answer with
    | .throws _ => ⟨rows, none, some (.dispatchProcessingJob ids)⟩
    | _ => ⟨rows, some id, some (.dispatchProcessingJob ids)⟩
  | .process id =>
    let (rows', affected) := claimForProcessing id e.uuid e.now rows
    if affected ≠ 1 then ⟨rows', none, none⟩
    else ⟨rows', none, some (.readClaimed id e.uuid e.now)⟩
  | .readClaimed id claimToken _ =>
    ⟨rows, none, (ZoomWebhookInboxService.readClaimed id claimToken rows).map (.execute id claimToken)⟩
  | .execute id claimToken claimed =>
    match HandlePersistedZoomWebhookAction.execute claimed e.answer with
    | .returned => ⟨rows, none, some (.completeActiveClaim id claimToken claimed)⟩
    | .throws x | .throwsAfter x =>
      ⟨rows, none, some (.recordProcessingFailure id claimToken claimed.attempts x)⟩
  | .completeActiveClaim id claimToken claimed =>
    -- The update stands inside the `try`.
    match e.answer with
    | .returned => ⟨completeActiveClaim id claimToken e.now rows, none, none⟩
    | .throws x => ⟨rows, none, some (.recordProcessingFailure id claimToken claimed.attempts x)⟩
    | .throwsAfter x =>
      ⟨completeActiveClaim id claimToken e.now rows, none,
        some (.recordProcessingFailure id claimToken claimed.attempts x)⟩
  | .recordProcessingFailure id claimToken attempts exception =>
    ⟨(recordProcessingFailure id claimToken attempts exception e.now rows).getD rows, none, none⟩
  | .dispatchRecoverable limit =>
    ⟨failExpiredExhaustedClaims e.now rows, none, some (.selectRecoverable e.now limit)⟩
  | .selectRecoverable now limit =>
    ⟨rows, none, some (.dispatchProcessingJob ((recoverableWebhooks now limit rows).map (·.id)))⟩

/-- The clock, the table, the jobs dispatched and the uuids drawn so far. -/
structure Store where
  now : Time
  rows : List WebhookInbox
  jobs : List ℕ
  issued : List Uuid

def Point.drawsUuid : Point → Bool
  | .process _ => true
  | _ => false

/-- A job runs only if it was dispatched. -/
def Point.dispatched (jobs : List ℕ) : Point → Bool
  | .process id => jobs.contains id
  | _ => true

def program : Program Store Point Input where
  entry
    | .accept _ | .process _ | .dispatchRecoverable _ => true
    | _ => false
  move s p e :=
    if e.now < s.now || !p.dispatched s.jobs || (p.drawsUuid && s.issued.contains e.uuid) then none
    else
      let o := act p s.rows e
      some (⟨e.now, o.rows, o.job.toList ++ s.jobs, if p.drawsUuid then e.uuid :: s.issued else s.issued⟩,
        o.next)

/-- Nothing has been accepted. -/
def start : Config Store Point := ⟨⟨0, [], [], []⟩, []⟩

/-- What a move is. -/
structure Moved (s : Store) (p : Point) (e : Input) (s' : Store) (k : Option Point) : Prop where
  later : s.now ≤ e.now
  now : s'.now = e.now
  rows : s'.rows = (act p s.rows e).rows
  next : k = (act p s.rows e).next
  issued : s'.issued = if p.drawsUuid then e.uuid :: s.issued else s.issued
  fresh : p.drawsUuid = true → e.uuid ∉ s.issued

theorem moved {s s' : Store} {p : Point} {e : Input} {k : Option Point}
    (h : program.move s p e = some (s', k)) : Moved s p e s' k := by
  simp only [program, Option.ite_none_left_eq_some, Option.some.injEq, Prod.mk.injEq] at h
  obtain ⟨hg, rfl, rfl⟩ := h
  simp only [Bool.or_eq_true, decide_eq_true_eq, not_or, Bool.and_eq_true, not_and] at hg
  exact ⟨Nat.not_lt.mp hg.1.1, rfl, rfl, rfl, rfl, fun hp => by simpa using hg.2 hp⟩

end Inbox
end Daywright
