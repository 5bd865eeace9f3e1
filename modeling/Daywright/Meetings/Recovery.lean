/-
# Recovering updates and deletions

The scheduler (`RecoverPendingZoomMeetingOperations`) claims the next due row and
dispatches a job with the operation id and the claim token; the job
(`PerformZoomMeetingRecovery`) reads the row, asks Zoom what became of the
operation and finishes, repeats, postpones or gives up.

A job checks its claim and its operation (`owns`) at every transaction that locks
the row. `withValidatedOperationLock` checks them on a copy it reads under the
cache lock, which neither webhooks nor the scheduler take; what follows works on
that copy. The cache lock is left out of the model: a job may find it taken for
too long (the step throws), and otherwise proceeds.

Key definitions: `claimNextDueOperation`, `PerformZoomMeetingRecovery.Stage`,
`PerformZoomMeetingRecovery.step`.
-/
import Daywright.Meetings.Process

namespace Daywright

open Php

/-! ### The scheduler -/

namespace RecoverPendingZoomMeetingOperations

open ZoomRecoveryPolicy

/-- The rows that the query of `claimNextDueOperation` returns. -/
def isDue (m : Meeting) (now : Time) : Bool :=
  m.readyForUpdateDeleteRecoveryAt now &&
    (m.syncClaimToken.isNone || m.syncLeaseExpiresAt.isNone || Meeting.dueBy m.syncLeaseExpiresAt now)

/-- `ORDER BY sync_available_at`: a null comes first. -/
def availableBefore (a b : Meeting) : Bool :=
  match a.syncAvailableAt, b.syncAvailableAt with
  | none, _ => true
  | some _, none => false
  | some s, some t => s ≤ t

/-- The row the query returns first. -/
def firstDue (rows : List Meeting) (now : Time) : Option Meeting :=
  ((rows.filter fun m => isDue m now).mergeSort availableBefore).head?

def isClaimable (m : Meeting) (now : Time) : Bool :=
  m.syncClaimToken.isNone || shouldSkipExpiredLease m now

/-- The transaction on the row the query returns first; `checkedAt` is the time
`isClaimable` takes for itself. -/
def claimNextDueOperation (m : Meeting) (claimToken : Uuid) (now checkedAt : Time) : Commit :=
  if isDue m now && isClaimable m checkedAt then
    .wrote { m with
      syncClaimToken := some claimToken
      syncLeaseExpiresAt := some (now + minutes 5) }
  else .unchanged

theorem claimNextDueOperation_moves {fresh : Uuid → Prop} {m m' : Meeting} {claimToken : Uuid}
    {now checkedAt : Time} (hf : fresh claimToken)
    (h : (claimNextDueOperation m claimToken now checkedAt).written = some m') : m.Moves fresh m' := by
  unfold claimNextDueOperation at h
  split at h
  · rename_i hc
    cases h
    refine ⟨.claimOperation m.sync _ hf ?_, id⟩
    simp only [isDue, Meeting.readyForUpdateDeleteRecoveryAt, Meeting.readyForUpdateRecoveryAt,
      Meeting.readyForDeleteRecoveryAt, Meeting.updatingWithExpiredLeaseAt, Meeting.updateFailedDueAt,
      Meeting.deletingWithExpiredLeaseAt, Meeting.deleteFailedDueAt, Bool.and_eq_true, Bool.or_eq_true,
      beq_iff_eq] at hc
    rcases hc.1.1 with (h | h) | (h | h)
    · exact .inl h.1
    · exact .inr (.inl h.1)
    · exact .inr (.inr (.inl h.1))
    · exact .inr (.inr (.inr h.1))
  · cases h

end RecoverPendingZoomMeetingOperations

/-! ### The job -/

/-- `RecoverZoomMeetingOperationJob`: the operation and the claim it is for. -/
structure RecoverZoomMeetingOperationJob where
  operationId : Uuid
  claimToken : Uuid
  deriving DecidableEq, Repr

namespace PerformZoomMeetingRecovery

open ZoomRecoveryPolicy ZoomMeetingUpdatedWebhookChanges

variable (E : Env) (job : RecoverZoomMeetingOperationJob)

/-- The check of every transaction of the job. -/
def owns (m : Meeting) (now : Time) : Bool :=
  isClaimValid m job.claimToken now && isOperationCurrent m job.operationId

def decodeJsonPayload : SyncPayload → Option Fields
  | .json (f :: fields) => some (f :: fields)
  | _ => none

def isValidPayloadString (payload : Option SyncPayload) : Bool :=
  payload.isSome && payload != some .blank

/-- `none`: the job goes to manual review with `invalid_payload`. -/
def decodeValidUpdatePayload (m : Meeting) : Option Fields :=
  if isValidPayloadString m.syncPayload then m.syncPayload.bind decodeJsonPayload else none

def isPasswordOperation (payload : Fields) : Bool := hasKey "password" payload

def isPermanentError (e : Throwable) : Bool := 400 ≤ e.status && e.status < 500 && e.status != 429

def getRetryDelay (e : Option Throwable) (currentAttempt : ℕ) : ℕ :=
  ((e.bind Throwable.retryAfterSeconds)).getD (backoffSeconds currentAttempt)

/-! ### Its transactions -/

/-- A transaction of the job: nothing is written unless the job owns the row. -/
def ifOwned (m : Meeting) (now : Time) (c : Commit) : Commit := if owns job m now then c else .unchanged

def applyUpdateLocally (m : Meeting) (updateData : Fields) (now : Time) : Commit :=
  ifOwned job m now <| .wrote
    { m.fill (updateData.filter fun f => allowedFields.contains f.1) with
      syncStatus := .active
      syncOperationId := none
      syncOperationType := none
      syncPayload := none
      syncError := none
      syncClaimToken := none
      syncLeaseExpiresAt := none
      syncAvailableAt := none
      syncedAt := some now
      syncReconcileBeforeAt := some now }

def finalizeMeetingAsDeleted (m : Meeting) (now : Time) : Commit :=
  ifOwned job m now <| .wrote
    { m with
      syncStatus := .deleted
      syncOperationId := none
      syncOperationType := none
      syncPayload := none
      syncError := none
      syncClaimToken := none
      syncLeaseExpiresAt := none
      syncAvailableAt := none
      syncedAt := some now
      syncReconcileBeforeAt := some now }

/-- One recovery cycle is used up; at the limit the update fails. -/
def consumeMismatchCycle (m : Meeting) (now : Time) : Commit :=
  ifOwned job m now <| .wrote <|
    if shouldRetry (m.syncAttempts + 1) then { m with syncAttempts := m.syncAttempts + 1 }
    else { m with
      syncStatus := .updateFailed
      syncError := some "max_attempts_reached"
      syncAttempts := m.syncAttempts + 1
      syncClaimToken := none
      syncLeaseExpiresAt := none
      syncAvailableAt := none }

/-- Whether the job goes on after `consumeMismatchCycle`. -/
def continuesAfterMismatch (m : Meeting) (now : Time) : Bool :=
  owns job m now && shouldRetry (m.syncAttempts + 1)

def scheduleVerification (m : Meeting) (delaySeconds : ℕ) (e : Option Throwable) (now : Time) : Commit :=
  ifOwned job m now <| .wrote
    { m with
      syncClaimToken := none
      syncLeaseExpiresAt := none
      syncAvailableAt := some (now + seconds (max 1 delaySeconds))
      syncError := e.map formatSyncError }

def manualReview (m : Meeting) (reason : String) (now : Time) : Commit :=
  let failedStatus : Option MeetingSyncStatus := match m.syncOperationType with
    | some .update => some .updateFailed
    | some .delete => some .deleteFailed
    | _ => none
  ifOwned job m now <| match failedStatus with
    | none => .unchanged
    | some failedStatus => .wrote
      { m with
        syncStatus := failedStatus
        syncError := some reason
        syncClaimToken := none
        syncLeaseExpiresAt := none
        syncAvailableAt := none }

def scheduleRetry (m : Meeting) (e : Option Throwable) (now : Time) : Commit :=
  ifOwned job m now <|
    if shouldRetry (m.syncAttempts + 1) then .wrote
      { m with
        syncAttempts := m.syncAttempts + 1
        syncError := some ((e.map formatSyncError).getD "zoom_meeting_not_found")
        syncClaimToken := none
        syncLeaseExpiresAt := none
        syncAvailableAt := some (now + seconds (max 1 (getRetryDelay e m.syncAttempts))) }
    else manualReview job m "max_attempts_reached" now

/-! ### The process -/

/-- What a job does once `withValidatedOperationLock` lets it. -/
inductive Callback where
  | finalizeMeetingAsDeleted
  | applySnapshot (z : ZoomMeeting)
  | retryUpdate
  | retryPasswordUpdate
  | recoverDelete
  deriving DecidableEq, Repr

def Callback.operationType : Callback → MeetingSyncOperationType
  | .recoverDelete => .delete
  | _ => .update

/-- Where a job stands. -/
inductive Stage where
  | execute
  /-- `getMeeting` is with Zoom. -/
  | fetchZoomMeeting (requestedPayload : Fields)
  | withValidatedOperationLock (callback : Callback)
  | finalizeMeetingAsDeleted
  | applyUpdateLocally (updateData : Fields)
  /-- About to record the start of a retry on the copy `currentMeeting`. -/
  | stampStartedAt (currentMeeting : Meeting) (payload : Fields) (password : Bool)
  /-- `updateMeeting` is with Zoom. -/
  | updateMeeting (payload : Fields) (password : Bool)
  | consumeMismatchCycle
  | scheduleVerification (delaySeconds : ℕ) (e : Option Throwable)
  /-- `deleteMeeting` is with Zoom. -/
  | deleteMeeting
  | scheduleRetry (e : Option Throwable)
  | manualReview (reason : String)

/-- The `catch` blocks of `execute`. -/
def catchThrowable (e : Throwable) : Stage :=
  if e.isZoomException && isPermanentError e then .manualReview "permanent_error" else .scheduleRetry (some e)

/-- The `catch` blocks around `retryPasswordUpdate`; the rest goes to `execute`'s. -/
def catchPasswordThrowable (e : Throwable) : Stage :=
  match e with
  | .operationUnknown => .scheduleVerification 60 (some e)
  | .rateLimit _ _ => .scheduleVerification (e.retryAfterSeconds.getD 60) (some e)
  | _ => catchThrowable e

/-- Where the job goes on if the stage throws: a call of Zoom, the cache lock or
the database. `none`: no `try` block is around the stage. -/
def Stage.onThrow (e : Throwable) : Stage → Option Stage
  | .execute => none
  | .withValidatedOperationLock .retryPasswordUpdate => some (catchPasswordThrowable e)
  | .stampStartedAt _ _ password | .updateMeeting _ password =>
    some (if password then catchPasswordThrowable e else catchThrowable e)
  | .scheduleRetry (some _) => none
  | .manualReview "permanent_error" => none
  | _ => some (catchThrowable e)

def recoverUpdate (m : Meeting) : Stage :=
  match decodeValidUpdatePayload m with
  | none => .manualReview "invalid_payload"
  | some payload => if m.meetingId = none then .scheduleRetry none else .fetchZoomMeeting payload

def execute (m : Meeting) (now : Time) : Outcome Stage :=
  if owns job m now then
    .goOn (match m.syncOperationType with
      | some .update => recoverUpdate m
      | some .delete => .withValidatedOperationLock .recoverDelete
      | _ => catchThrowable (.other none))
  else .stop

def handleUpdateRecovery (requestedPayload : Fields) (z : ZoomMeeting) : Stage :=
  if zoomHasRequestedFields E requestedPayload z then .withValidatedOperationLock (.applySnapshot z)
  else if isPasswordOperation requestedPayload then .consumeMismatchCycle
  else .withValidatedOperationLock .retryUpdate

/-- `deleteMeeting` takes an `int`: without a Zoom id it throws. -/
def runCallback (m : Meeting) : Callback → Stage
  | .finalizeMeetingAsDeleted => .finalizeMeetingAsDeleted
  | .applySnapshot z => .applyUpdateLocally (fieldsFromZoom z)
  | .retryUpdate =>
    ((decodeValidUpdatePayload m).map fun payload => Stage.stampStartedAt m payload false).getD
      (.manualReview "invalid_payload")
  | .retryPasswordUpdate =>
    ((decodeValidUpdatePayload m).map fun payload => Stage.stampStartedAt m payload true).getD
      (.manualReview "invalid_payload")
  | .recoverDelete => if m.meetingId = none then catchThrowable (.other none) else .deleteMeeting

def withValidatedOperationLock (m : Meeting) (callback : Callback) (now : Time) : Outcome Stage :=
  if m.syncOperationType = some callback.operationType && owns job m now then .goOn (runCallback m callback)
  else .stop

/-- A stage whose call of Zoom, if any, does not throw. -/
def run : Stage → Meeting → Time → Reply → Option (Outcome Stage)
  | .execute, m, now, .none => some (execute job m now)
  | .fetchZoomMeeting _, _, _, .fetched none =>
    some (.goOn (.withValidatedOperationLock .finalizeMeetingAsDeleted))
  | .fetchZoomMeeting payload, _, _, .fetched (some z) => some (.goOn (handleUpdateRecovery E payload z))
  | .withValidatedOperationLock callback, m, now, .none =>
    some (withValidatedOperationLock job m callback now)
  | .finalizeMeetingAsDeleted, m, now, .none => some (.last (finalizeMeetingAsDeleted job m now))
  | .applyUpdateLocally updateData, m, now, .none => some (.last (applyUpdateLocally job m updateData now))
  -- not a locked transaction: the row is not read again
  | .stampStartedAt _ payload password, m, now, .none =>
    some ⟨some { m with syncStartedAt := some now }, some (.updateMeeting payload password)⟩
  | .updateMeeting payload password, _, _, .done =>
    some (.goOn (if password then .scheduleVerification 60 none else .applyUpdateLocally payload))
  | .consumeMismatchCycle, m, now, .none =>
    some ⟨(consumeMismatchCycle job m now).written,
      if continuesAfterMismatch job m now then some (.withValidatedOperationLock .retryPasswordUpdate)
      else none⟩
  | .scheduleVerification delaySeconds e, m, now, .none =>
    some (.last (scheduleVerification job m delaySeconds e now))
  | .deleteMeeting, _, _, .done => some (.goOn .finalizeMeetingAsDeleted)
  | .deleteMeeting, _, _, .throws (.userError .notFound _) => some (.goOn .finalizeMeetingAsDeleted)
  | .scheduleRetry e, m, now, .none => some (.last (scheduleRetry job m e now))
  | .manualReview reason, m, now, .none => some (.last (manualReview job m reason now))
  | _, _, _, _ => none

def step (stage : Stage) (m : Meeting) (e : Input) : Option (Outcome Stage) :=
  match run E job stage m e.now e.reply with
  | some o => some o
  | none =>
    match e.reply with
    | .throws t => (stage.onThrow t).map .goOn
    | _ => none

/-! ### Its moves in the protocol -/

variable {E job} {fresh : Uuid → Prop} {m m' : Meeting} {now : Time}

theorem owns_iff : owns job m now = true ↔
    m.syncClaimToken = some job.claimToken ∧ (∃ lease, m.syncLeaseExpiresAt = some lease ∧ now < lease) ∧
      m.syncOperationId = some job.operationId := by
  simp only [owns, isClaimValid, isOperationCurrent, Bool.and_eq_true, beq_iff_eq, Option.any_eq_true,
    decide_eq_true_eq, and_assoc]

theorem ifOwned_written {c : Commit} (h : (ifOwned job m now c).written = some m') :
    owns job m now = true ∧ c.written = some m' := by
  unfold ifOwned at h
  split at h
  · exact ⟨by assumption, h⟩
  · cases h

theorem applyUpdateLocally_moves {updateData : Fields}
    (h : (applyUpdateLocally job m updateData now).written = some m') :
    owns job m now = true ∧ m.Moves fresh m' := by
  obtain ⟨ho, h⟩ := ifOwned_written h
  cases h
  have : Sync.Step fresh m.sync _ := .settle m.sync none (by simp [Meeting.sync, (owns_iff.mp ho).2.2])
  exact ⟨ho, by simpa [Meeting.sync, Sync.cleared] using this, by simp⟩

theorem finalizeMeetingAsDeleted_moves (h : (finalizeMeetingAsDeleted job m now).written = some m') :
    owns job m now = true ∧ m.Moves fresh m' := by
  obtain ⟨ho, h⟩ := ifOwned_written h
  cases h
  exact ⟨ho, .remove m.sync, id⟩

theorem consumeMismatchCycle_moves
    (ht : m.syncOperationId = some job.operationId → m.syncOperationType = some .update)
    (h : (consumeMismatchCycle job m now).written = some m') :
    owns job m now = true ∧ m.Moves fresh m' := by
  obtain ⟨ho, h⟩ := ifOwned_written h
  refine ⟨ho, ?_⟩
  split at h <;> cases h
  · exact .keep rfl id
  · exact ⟨.fail m.sync (t := .update) (ht (owns_iff.mp ho).2.2) (by simp), id⟩

theorem postpone_moves (ho : owns job m now = true) {m' : Meeting} (a : Time)
    (hs : m'.sync = m.sync.unclaim (some a)) (ht : m'.syncStartedAt = m.syncStartedAt) : m.Moves fresh m' :=
  ⟨hs ▸ .postpone m.sync a (.inl (by simp [Meeting.sync, (owns_iff.mp ho).1])), ht ▸ id⟩

theorem scheduleVerification_moves {delaySeconds : ℕ} {e : Option Throwable}
    (h : (scheduleVerification job m delaySeconds e now).written = some m') :
    owns job m now = true ∧ m.Moves fresh m' := by
  obtain ⟨ho, h⟩ := ifOwned_written h
  cases h
  exact ⟨ho, postpone_moves ho _ rfl rfl⟩

theorem manualReview_moves {reason : String} (h : (manualReview job m reason now).written = some m') :
    owns job m now = true ∧ m.Moves fresh m' := by
  obtain ⟨ho, h⟩ := ifOwned_written h
  refine ⟨ho, ?_⟩
  cases ht : m.syncOperationType with
  | none => simp [ht] at h
  | some t =>
    cases t with
    | create => simp [ht] at h
    | update =>
      have : Sync.Step fresh m.sync _ := .fail m.sync (t := .update) ht (by simp)
      simp only [ht] at h
      cases h
      exact ⟨by simpa [Meeting.sync, Sync.unclaim, ht] using this, id⟩
    | delete =>
      have : Sync.Step fresh m.sync _ := .fail m.sync (t := .delete) ht (by simp)
      simp only [ht] at h
      cases h
      exact ⟨by simpa [Meeting.sync, Sync.unclaim, ht] using this, id⟩

theorem scheduleRetry_moves {e : Option Throwable} (h : (scheduleRetry job m e now).written = some m') :
    owns job m now = true ∧ m.Moves fresh m' := by
  obtain ⟨ho, h⟩ := ifOwned_written h
  split at h
  · cases h
    exact ⟨ho, postpone_moves ho _ rfl rfl⟩
  · exact manualReview_moves h

/-- A step is a stage running, or one that Zoom has made throw. -/
theorem step_cases {stage : Stage} {e : Input} {o : Outcome Stage} (h : step E job stage m e = some o) :
    run E job stage m e.now e.reply = some o ∨
      ∃ t stage', stage.onThrow t = some stage' ∧ o = .goOn stage' := by
  unfold step at h
  split at h
  · rename_i o' hr
    cases h
    exact .inl hr
  · split at h
    · obtain ⟨stage', hs, rfl⟩ := Option.map_eq_some_iff.mp h
      exact .inr ⟨_, stage', hs, rfl⟩
    · cases h

/-- A meeting that Zoom does not have is as good as deleted. -/
theorem run_deleteMeeting {reply : Reply} {o : Outcome Stage}
    (h : run E job .deleteMeeting m now reply = some o) : o = .goOn .finalizeMeetingAsDeleted := by
  cases reply with
  | done =>
    cases h
    rfl
  | throws t =>
    cases t with
    | userError k message =>
      cases k <;> cases h
      rfl
    | _ => cases h
  | _ => cases h

/-- What a job writes: the start of a retry, or one of its transactions. -/
inductive Writes (job : RecoverZoomMeetingOperationJob) (m : Meeting) (now : Time) (m' : Meeting) : Stage → Prop
  | stamp (currentMeeting : Meeting) (payload : Fields) (password : Bool)
    (h : m' = { m with syncStartedAt := some now }) :
    Writes job m now m' (.stampStartedAt currentMeeting payload password)
  | delete (h : (PerformZoomMeetingRecovery.finalizeMeetingAsDeleted job m now).written = some m') :
    Writes job m now m' .finalizeMeetingAsDeleted
  | apply (updateData : Fields)
    (h : (PerformZoomMeetingRecovery.applyUpdateLocally job m updateData now).written = some m') :
    Writes job m now m' (.applyUpdateLocally updateData)
  | consume (h : (PerformZoomMeetingRecovery.consumeMismatchCycle job m now).written = some m') :
    Writes job m now m' .consumeMismatchCycle
  | verify (delaySeconds : ℕ) (e : Option Throwable)
    (h : (PerformZoomMeetingRecovery.scheduleVerification job m delaySeconds e now).written = some m') :
    Writes job m now m' (.scheduleVerification delaySeconds e)
  | retry (e : Option Throwable) (h : (PerformZoomMeetingRecovery.scheduleRetry job m e now).written = some m') :
    Writes job m now m' (.scheduleRetry e)
  | review (reason : String) (h : (PerformZoomMeetingRecovery.manualReview job m reason now).written = some m') :
    Writes job m now m' (.manualReview reason)

theorem run_writes {stage : Stage} {reply : Reply} {o : Outcome Stage} (h : run E job stage m now reply = some o)
    (hw : o.written = some m') : Writes job m now m' stage := by
  cases stage with
  | execute =>
    cases reply <;> cases h
    simp only [execute] at hw
    split at hw <;> cases hw
  | withValidatedOperationLock callback =>
    cases reply <;> cases h
    simp only [withValidatedOperationLock] at hw
    split at hw <;> cases hw
  | fetchZoomMeeting payload =>
    cases reply with
    | fetched z => cases z <;> cases h <;> cases hw
    | _ => cases h
  | updateMeeting payload password =>
    cases reply <;> cases h
    cases hw
  | deleteMeeting =>
    cases run_deleteMeeting h
    cases hw
  | stampStartedAt currentMeeting payload password =>
    cases reply <;> cases h
    cases hw
    exact .stamp _ _ _ rfl
  | finalizeMeetingAsDeleted =>
    cases reply <;> cases h
    exact .delete hw
  | applyUpdateLocally updateData =>
    cases reply <;> cases h
    exact .apply updateData hw
  | consumeMismatchCycle =>
    cases reply <;> cases h
    exact .consume hw
  | scheduleVerification delaySeconds t =>
    cases reply <;> cases h
    exact .verify delaySeconds t hw
  | scheduleRetry t =>
    cases reply <;> cases h
    exact .retry t hw
  | manualReview reason =>
    cases reply <;> cases h
    exact .review reason hw

theorem step_writes {stage : Stage} {e : Input} {o : Outcome Stage} (h : step E job stage m e = some o)
    (hw : o.written = some m') : Writes job m e.now m' stage := by
  rcases step_cases h with hr | ⟨t, stage', -, rfl⟩
  · exact run_writes hr hw
  · cases hw

/-- The writes of a job: the start of a retry, or a write to a row that it owns. -/
theorem step_written {stage : Stage} {e : Input} {o : Outcome Stage}
    (ht : stage = .consumeMismatchCycle → m.syncOperationId = some job.operationId →
      m.syncOperationType = some .update)
    (h : step E job stage m e = some o) (hw : o.written = some m') :
    m.Moves fresh m' ∧ (owns job m e.now = true ∨
      ∃ currentMeeting payload password, stage = .stampStartedAt currentMeeting payload password) := by
  cases step_writes h hw with
  | stamp currentMeeting payload password hs =>
    subst hs
    exact ⟨.keep rfl (by simp), .inr ⟨_, _, _, rfl⟩⟩
  | delete hd => exact (finalizeMeetingAsDeleted_moves hd).symm.imp_right .inl
  | apply updateData ha => exact (applyUpdateLocally_moves ha).symm.imp_right .inl
  | consume hc => exact (consumeMismatchCycle_moves (ht rfl) hc).symm.imp_right .inl
  | verify delaySeconds t hv => exact (scheduleVerification_moves hv).symm.imp_right .inl
  | retry t hr => exact (scheduleRetry_moves hr).symm.imp_right .inl
  | review reason hr => exact (manualReview_moves hr).symm.imp_right .inl

/-- Where a job goes when a stage throws: it only writes down the failure. -/
def Stage.IsFallback : Stage → Prop
  | .scheduleVerification _ _ | .scheduleRetry _ | .manualReview _ => True
  | _ => False

/-- The stages of `retryPasswordUpdate`. -/
def Stage.repeatsPassword : Stage → Bool
  | .withValidatedOperationLock .retryPasswordUpdate | .stampStartedAt _ _ true | .updateMeeting _ true => true
  | _ => false

theorem catchThrowable_fallback (e : Throwable) :
    (catchThrowable e).IsFallback ∧ ∀ d t, catchThrowable e ≠ .scheduleVerification d t := by
  unfold catchThrowable
  split <;> exact ⟨trivial, by simp⟩

theorem catchPasswordThrowable_fallback (e : Throwable) : (catchPasswordThrowable e).IsFallback := by
  unfold catchPasswordThrowable
  split
  · trivial
  · trivial
  · exact (catchThrowable_fallback e).1

theorem onThrow_fallback {stage stage' : Stage} {e : Throwable} (h : stage.onThrow e = some stage') :
    stage'.IsFallback ∧ ∀ d t, stage' = .scheduleVerification d t → stage.repeatsPassword = true := by
  have other {stage : Stage} (h : catchThrowable e = stage') :
      stage'.IsFallback ∧ ∀ d t, stage' = .scheduleVerification d t → stage.repeatsPassword = true :=
    h ▸ ⟨(catchThrowable_fallback e).1, fun d t hv => absurd hv ((catchThrowable_fallback e).2 d t)⟩
  unfold Stage.onThrow at h
  split at h
  · cases h
  · cases h
    exact ⟨catchPasswordThrowable_fallback e, fun _ _ _ => rfl⟩
  · rename_i password
    cases password <;> cases h
    · exact other rfl
    · exact ⟨catchPasswordThrowable_fallback e, fun _ _ _ => rfl⟩
  · rename_i password
    cases password <;> cases h
    · exact other rfl
    · exact ⟨catchPasswordThrowable_fallback e, fun _ _ _ => rfl⟩
  · cases h
  · cases h
  · exact other (Option.some.inj h)

/-- What a job goes on to, and what it goes by. -/
inductive Next (E : Env) (job : RecoverZoomMeetingOperationJob) (m : Meeting) (e : Input) : Stage → Stage → Prop
  | fetch (payload : Fields) (ho : owns job m e.now = true) (ht : m.syncOperationType = some .update)
    (hd : decodeValidUpdatePayload m = some payload) : Next E job m e .execute (.fetchZoomMeeting payload)
  | recoverDelete (ho : owns job m e.now = true) (ht : m.syncOperationType = some .delete) :
    Next E job m e .execute (.withValidatedOperationLock .recoverDelete)
  | gone (payload : Fields) (hr : e.reply = .fetched none) :
    Next E job m e (.fetchZoomMeeting payload) (.withValidatedOperationLock .finalizeMeetingAsDeleted)
  | confirmed (payload : Fields) (z : ZoomMeeting) (hr : e.reply = .fetched (some z))
    (hz : zoomHasRequestedFields E payload z = true) :
    Next E job m e (.fetchZoomMeeting payload) (.withValidatedOperationLock (.applySnapshot z))
  | mismatch (payload : Fields) (z : ZoomMeeting) (hr : e.reply = .fetched (some z))
    (hz : zoomHasRequestedFields E payload z = false) (hp : isPasswordOperation payload = true) :
    Next E job m e (.fetchZoomMeeting payload) .consumeMismatchCycle
  | resend (payload : Fields) (z : ZoomMeeting) (hr : e.reply = .fetched (some z))
    (hz : zoomHasRequestedFields E payload z = false) (hp : isPasswordOperation payload = false) :
    Next E job m e (.fetchZoomMeeting payload) (.withValidatedOperationLock .retryUpdate)
  | finalize (ho : owns job m e.now = true) (ht : m.syncOperationType = some .update) :
    Next E job m e (.withValidatedOperationLock .finalizeMeetingAsDeleted) .finalizeMeetingAsDeleted
  | snapshot (z : ZoomMeeting) (ho : owns job m e.now = true) (ht : m.syncOperationType = some .update) :
    Next E job m e (.withValidatedOperationLock (.applySnapshot z)) (.applyUpdateLocally (fieldsFromZoom z))
  | stamp (payload : Fields) (ho : owns job m e.now = true) (ht : m.syncOperationType = some .update)
    (hd : decodeValidUpdatePayload m = some payload) :
    Next E job m e (.withValidatedOperationLock .retryUpdate) (.stampStartedAt m payload false)
  | stampPassword (payload : Fields) (ho : owns job m e.now = true) (ht : m.syncOperationType = some .update)
    (hd : decodeValidUpdatePayload m = some payload) :
    Next E job m e (.withValidatedOperationLock .retryPasswordUpdate) (.stampStartedAt m payload true)
  | delete (ho : owns job m e.now = true) (ht : m.syncOperationType = some .delete) :
    Next E job m e (.withValidatedOperationLock .recoverDelete) .deleteMeeting
  | send (currentMeeting : Meeting) (payload : Fields) (password : Bool) (hr : e.reply = .none) :
    Next E job m e (.stampStartedAt currentMeeting payload password) (.updateMeeting payload password)
  | sent (payload : Fields) (hr : e.reply = .done) :
    Next E job m e (.updateMeeting payload false) (.applyUpdateLocally payload)
  | verify (payload : Fields) (hr : e.reply = .done) :
    Next E job m e (.updateMeeting payload true) (.scheduleVerification 60 none)
  | consumed (hr : e.reply = .none) (hc : continuesAfterMismatch job m e.now = true) :
    Next E job m e .consumeMismatchCycle (.withValidatedOperationLock .retryPasswordUpdate)
  | deleted : Next E job m e .deleteMeeting .finalizeMeetingAsDeleted
  | fallback {stage stage' : Stage} (h : stage'.IsFallback)
    (hv : ∀ d t, stage' = .scheduleVerification d t → stage.repeatsPassword = true) : Next E job m e stage stage'

theorem Next.catch {stage : Stage} {e : Input} (t : Throwable) : Next E job m e stage (catchThrowable t) :=
  .fallback (catchThrowable_fallback t).1 fun d t' h => absurd h ((catchThrowable_fallback t).2 d t')

theorem runCallback_next {callback : Callback} {e : Input} (ho : owns job m e.now = true)
    (ht : m.syncOperationType = some callback.operationType) :
    Next E job m e (.withValidatedOperationLock callback) (runCallback m callback) := by
  cases callback with
  | finalizeMeetingAsDeleted => exact .finalize ho ht
  | applySnapshot z => exact .snapshot z ho ht
  | retryUpdate =>
    unfold runCallback
    cases hd : decodeValidUpdatePayload m with
    | none => exact .fallback trivial (by simp)
    | some payload => exact .stamp payload ho ht hd
  | retryPasswordUpdate =>
    unfold runCallback
    cases hd : decodeValidUpdatePayload m with
    | none => exact .fallback trivial (by simp)
    | some payload => exact .stampPassword payload ho ht hd
  | recoverDelete =>
    simp only [runCallback]
    split
    · exact .catch _
    · exact .delete ho ht

theorem run_next {stage stage' : Stage} {e : Input} {o : Outcome Stage}
    (h : run E job stage m e.now e.reply = some o) (hk : o.next = some stage') : Next E job m e stage stage' := by
  generalize hr : e.reply = reply at h
  cases stage with
  | execute =>
    cases reply <;> cases h
    simp only [execute] at hk
    split at hk <;> cases hk
    rename_i ho
    split
    · rename_i ht
      unfold recoverUpdate
      split
      · exact .fallback trivial (by simp)
      · split
        · exact .fallback trivial (by simp)
        · exact .fetch _ ho ht (by assumption)
    · exact .recoverDelete ho (by assumption)
    · exact .catch _
  | fetchZoomMeeting payload =>
    cases reply with
    | fetched z =>
      cases z with
      | none =>
        cases h
        cases hk
        exact .gone payload hr
      | some z =>
        cases h
        cases hk
        unfold handleUpdateRecovery
        split
        · exact .confirmed payload z hr (by assumption)
        · rename_i hz
          split
          · exact .mismatch payload z hr (eq_false_of_ne_true hz) (by assumption)
          · exact .resend payload z hr (eq_false_of_ne_true hz) (eq_false_of_ne_true (by assumption))
    | _ => cases h
  | withValidatedOperationLock callback =>
    cases reply <;> cases h
    simp only [withValidatedOperationLock] at hk
    split at hk <;> cases hk
    rename_i ho
    simp only [Bool.and_eq_true, decide_eq_true_eq] at ho
    exact runCallback_next ho.2 ho.1
  | stampStartedAt currentMeeting payload password =>
    cases reply <;> cases h
    cases hk
    exact .send currentMeeting payload password hr
  | updateMeeting payload password =>
    cases reply <;> cases h
    cases hk
    cases password
    · exact .sent payload hr
    · exact .verify payload hr
  | consumeMismatchCycle =>
    cases reply <;> cases h
    simp only at hk
    split at hk <;> cases hk
    exact .consumed hr (by assumption)
  | deleteMeeting =>
    cases run_deleteMeeting h
    cases hk
    exact .deleted
  | finalizeMeetingAsDeleted | applyUpdateLocally | scheduleVerification | scheduleRetry | manualReview =>
    cases reply <;> cases h
    cases hk

theorem step_next {stage stage' : Stage} {e : Input} {o : Outcome Stage}
    (h : step E job stage m e = some o) (hk : o.next = some stage') : Next E job m e stage stage' := by
  rcases step_cases h with hr | ⟨t, stage'', hs, rfl⟩
  · exact run_next hr hk
  · cases hk
    exact .fallback (onThrow_fallback hs).1 (onThrow_fallback hs).2

/-- What a job found out on the way to a stage. -/
def Reaches (job : RecoverZoomMeetingOperationJob) (stage : Stage) (m : Meeting) (now : Time) : Stage → Prop
  | .fetchZoomMeeting _ => owns job m now = true ∧ m.syncOperationType = some .update
  | .consumeMismatchCycle => ∃ payload, stage = .fetchZoomMeeting payload
  | .stampStartedAt currentMeeting _ _ => owns job m now = true ∧ currentMeeting = m
  | _ => True

theorem step_reaches {stage stage' : Stage} {e : Input} {o : Outcome Stage}
    (h : step E job stage m e = some o) (hk : o.next = some stage') :
    Reaches job stage m e.now stage' := by
  cases step_next h hk with
  | fetch payload ho ht => exact ⟨ho, ht⟩
  | mismatch payload => exact ⟨payload, rfl⟩
  | stamp payload ho => exact ⟨ho, rfl⟩
  | stampPassword payload ho => exact ⟨ho, rfl⟩
  | fallback hf => cases stage' <;> trivial
  | _ => trivial

end PerformZoomMeetingRecovery

end Daywright
