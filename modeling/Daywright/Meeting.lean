/-
# The meetings row

The columns of a meeting that its synchronisation with Zoom reads or writes, the
table of status transitions (`validTransitions`, `transitionTo`), the readiness
scopes of `MeetingBuilder` and the recovery policy (`ZoomRecoveryPolicy`).

A scope compares nullable columns with SQL's `<=`, which is not true of a null.
`meeting_id`, the sync columns and the runtime columns are fields; the columns
that describe the meeting are `attributes`, by name, since an update or a webhook
writes them by name.

Key definitions: `Meeting`, `Meeting.transitionTo`, `Meeting.isClaimValid`, the
scopes `Meeting.readyForZoomRecoveryAt` and `Meeting.readyForUpdateDeleteRecoveryAt`.
-/
import Daywright.Zoom

namespace Daywright

open Php

inductive MeetingSyncStatus where
  | pending
  | creating
  | createUnknown
  | active
  | failed
  | updating
  | updateFailed
  | deleting
  | deleteFailed
  | deleted
  deriving DecidableEq, Repr

inductive MeetingSyncOperationType where
  | create
  | update
  | delete
  deriving DecidableEq, Repr

namespace MeetingSyncStatus

def acceptsZoomRuntimeWebhook (s : MeetingSyncStatus) : Bool := s == .active

/-- The name of the case. -/
def name : MeetingSyncStatus → String
  | .pending => "Pending"
  | .creating => "Creating"
  | .createUnknown => "CreateUnknown"
  | .active => "Active"
  | .failed => "Failed"
  | .updating => "Updating"
  | .updateFailed => "UpdateFailed"
  | .deleting => "Deleting"
  | .deleteFailed => "DeleteFailed"
  | .deleted => "Deleted"

def value : MeetingSyncStatus → String
  | .pending => "pending"
  | .creating => "creating"
  | .createUnknown => "create_unknown"
  | .active => "active"
  | .failed => "failed"
  | .updating => "updating"
  | .updateFailed => "update_failed"
  | .deleting => "deleting"
  | .deleteFailed => "delete_failed"
  | .deleted => "deleted"

/-- `Meeting::validTransitions`. -/
def validTransitions : MeetingSyncStatus → List MeetingSyncStatus
  | .pending => [.creating, .active, .failed]
  | .creating => [.active, .failed, .createUnknown]
  | .createUnknown => [.active, .failed]
  | .active => [.updating, .deleting, .failed]
  | .updating => [.active, .updateFailed]
  | .updateFailed => [.updating, .active, .deleting]
  | .deleting => [.deleted, .deleteFailed]
  | .deleteFailed => [.deleting, .active]
  | .failed => [.active, .pending]
  | .deleted => []

end MeetingSyncStatus

/-- The decrypted `sync_payload`, as `json_decode` reads it. -/
inductive SyncPayload where
  /-- Blanks only. -/
  | blank
  /-- `json_decode` throws. -/
  | malformed
  | scalar (v : Value)
  /-- A JSON object (or, without fields, the empty array). -/
  | json (fields : List (String × Value))
  deriving DecidableEq, Repr

structure Meeting where
  meetingId : Option ZoomId
  attributes : String → Value
  status : Option String
  syncStatus : MeetingSyncStatus
  syncError : Option String
  syncedAt : Option Time
  syncAttempts : ℕ
  syncOperationId : Option Uuid
  syncOperationType : Option MeetingSyncOperationType
  syncPayload : Option SyncPayload
  syncClaimToken : Option Uuid
  syncStartedAt : Option Time
  syncReconcileBeforeAt : Option Time
  syncLeaseExpiresAt : Option Time
  syncAvailableAt : Option Time
  lastZoomEventTimestamp : Option ℤ
  startedNotificationPendingAt : Option Time
  endedNotificationPendingAt : Option Time

namespace Meeting

/-! ### Columns by name -/

/-- The columns of the table that a request, a webhook or a snapshot writes by
name. -/
def contentColumns : List String :=
  ["topic", "agenda", "duration", "password", "join_url", "start_url", "start_time", "timezone",
    "join_before_host"]

/-- What the row gives back for a value written: a boolean column holds 0 or 1. -/
def column : Value → Value
  | .bool b => .int (if b then 1 else 0)
  | v => v

def put (m : Meeting) (name : String) (v : Value) : Meeting :=
  { m with attributes := fun n => if n = name then column v else m.attributes n }

def fill (m : Meeting) (fields : List (String × Value)) : Meeting :=
  fields.foldl (fun m f => m.put f.1 f.2) m

theorem fill_eq (fields : List (String × Value)) : ∀ m : Meeting,
    m.fill fields = { m with attributes := (m.fill fields).attributes } := by
  induction fields with
  | nil => intro m; rfl
  | cons f fields ih => intro m; exact ih (m.put f.1 f.2)

theorem fill_attributes (fields : List (String × Value)) (name : String) : ∀ m : Meeting,
    name ∉ fields.map (·.1) ∧ (m.fill fields).attributes name = m.attributes name ∨
      ∃ f ∈ fields, f.1 = name ∧ (m.fill fields).attributes name = column f.2 := by
  induction fields with
  | nil => exact fun m => .inl ⟨nofun, rfl⟩
  | cons f fields ih =>
    intro m
    rcases ih (m.put f.1 f.2) with ⟨hn, h⟩ | ⟨f', hf', hn, h⟩
    · by_cases hf : name = f.1
      · exact .inr ⟨f, List.mem_cons_self, hf.symm, h.trans (by simp [put, hf])⟩
      · exact .inl ⟨by simp [hf, hn], h.trans (by simp [put, hf])⟩
    · exact .inr ⟨f', List.mem_cons_of_mem _ hf', hn, h⟩

section
variable (m : Meeting) (fields : List (String × Value))

@[simp] theorem fill_meetingId : (m.fill fields).meetingId = m.meetingId := by rw [fill_eq]
@[simp] theorem fill_status : (m.fill fields).status = m.status := by rw [fill_eq]
@[simp] theorem fill_syncStatus : (m.fill fields).syncStatus = m.syncStatus := by rw [fill_eq]
@[simp] theorem fill_syncAttempts : (m.fill fields).syncAttempts = m.syncAttempts := by rw [fill_eq]
@[simp] theorem fill_syncOperationId : (m.fill fields).syncOperationId = m.syncOperationId := by
  rw [fill_eq]
@[simp] theorem fill_syncOperationType : (m.fill fields).syncOperationType = m.syncOperationType := by
  rw [fill_eq]
@[simp] theorem fill_syncPayload : (m.fill fields).syncPayload = m.syncPayload := by rw [fill_eq]
@[simp] theorem fill_syncClaimToken : (m.fill fields).syncClaimToken = m.syncClaimToken := by
  rw [fill_eq]
@[simp] theorem fill_syncStartedAt : (m.fill fields).syncStartedAt = m.syncStartedAt := by rw [fill_eq]
@[simp] theorem fill_syncLeaseExpiresAt :
    (m.fill fields).syncLeaseExpiresAt = m.syncLeaseExpiresAt := by rw [fill_eq]
@[simp] theorem fill_syncAvailableAt : (m.fill fields).syncAvailableAt = m.syncAvailableAt := by
  rw [fill_eq]

end

/-- The statement fails if the table has no such column. -/
def hasColumns (fields : List (String × Value)) : Bool :=
  fields.all fun f => contentColumns.contains f.1

/-! ### Status transitions -/

/-- `InvalidStateTransitionException`, with the message it shows. -/
def invalidStateTransition (currentState attemptedState : String) : Throwable :=
  .other (some ("Invalid state transition from " ++ currentState ++ " to " ++ attemptedState))

/-- `HasStateMachine::transitionTo` on `sync_status`. -/
def transitionTo (m : Meeting) (newStatus : MeetingSyncStatus) : Except Throwable Meeting :=
  if m.syncStatus.validTransitions.contains newStatus then .ok { m with syncStatus := newStatus }
  else .error (invalidStateTransition m.syncStatus.name newStatus.name)

theorem transitionTo_ok {m m' : Meeting} {newStatus : MeetingSyncStatus}
    (h : m.transitionTo newStatus = .ok m') :
    newStatus ∈ m.syncStatus.validTransitions ∧ m' = { m with syncStatus := newStatus } := by
  unfold transitionTo at h
  split at h
  · rename_i hc
    cases h
    exact ⟨List.contains_iff_mem.mp hc, rfl⟩
  · cases h

/-- The statuses from which a meeting may become Active. -/
theorem active_mem_validTransitions {s : MeetingSyncStatus} : .active ∈ s.validTransitions ↔
    s = .pending ∨ s = .creating ∨ s = .createUnknown ∨ s = .failed ∨
      s = .updating ∨ s = .updateFailed ∨ s = .deleteFailed := by
  cases s <;> decide

def awaitsManualZoomRecovery (m : Meeting) : Bool :=
  m.syncStatus == .createUnknown && m.syncAvailableAt.isNone && m.syncClaimToken.isNone &&
    m.syncLeaseExpiresAt.isNone

/-- `(string) $meeting->meeting_id === (string) $id`, for a stored id. -/
def sameMeetingId (m : Meeting) (id : ZoomId) : Bool := m.meetingId == some id

/-! ### MeetingBuilder -/

/-- SQL's `column <= at`. -/
def dueBy (column : Option Time) (at' : Time) : Bool := column.any (· ≤ at')

def createUnknownDueAt (m : Meeting) (at' : Time) : Bool :=
  m.syncStatus == .createUnknown && dueBy m.syncAvailableAt at'

def creatingWithExpiredLeaseAt (m : Meeting) (at' : Time) : Bool :=
  m.syncStatus == .creating && dueBy m.syncLeaseExpiresAt at'

def readyForZoomRecoveryAt (m : Meeting) (at' : Time) : Bool :=
  m.creatingWithExpiredLeaseAt at' || m.createUnknownDueAt at'

def updatingWithExpiredLeaseAt (m : Meeting) (at' : Time) : Bool :=
  m.syncStatus == .updating && (dueBy m.syncLeaseExpiresAt at' || dueBy m.syncAvailableAt at')

def deletingWithExpiredLeaseAt (m : Meeting) (at' : Time) : Bool :=
  m.syncStatus == .deleting && (dueBy m.syncLeaseExpiresAt at' || dueBy m.syncAvailableAt at')

def updateFailedDueAt (m : Meeting) (at' : Time) : Bool :=
  m.syncStatus == .updateFailed && dueBy m.syncAvailableAt at'

def deleteFailedDueAt (m : Meeting) (at' : Time) : Bool :=
  m.syncStatus == .deleteFailed && dueBy m.syncAvailableAt at'

def readyForUpdateRecoveryAt (m : Meeting) (at' : Time) : Bool :=
  m.updatingWithExpiredLeaseAt at' || m.updateFailedDueAt at'

def readyForDeleteRecoveryAt (m : Meeting) (at' : Time) : Bool :=
  m.deletingWithExpiredLeaseAt at' || m.deleteFailedDueAt at'

def readyForAnyRecoveryAt (m : Meeting) (at' : Time) : Bool :=
  m.readyForZoomRecoveryAt at' || m.readyForUpdateRecoveryAt at' || m.readyForDeleteRecoveryAt at'

def readyForUpdateDeleteRecoveryAt (m : Meeting) (at' : Time) : Bool :=
  m.readyForUpdateRecoveryAt at' || m.readyForDeleteRecoveryAt at'

end Meeting

/-! ### ZoomRecoveryPolicy -/

namespace ZoomRecoveryPolicy

def maxAttempts : ℕ := 5

def backoffSeconds (attempt : ℕ) : ℕ := [60, 300, 900, 3600].getD attempt 3600

def isClaimValid (m : Meeting) (expectedClaimToken : Uuid) (now : Time) : Bool :=
  m.syncClaimToken == some expectedClaimToken && m.syncLeaseExpiresAt.any (now < ·)

def isOperationCurrent (m : Meeting) (expectedOperationId : Uuid) : Bool :=
  m.syncOperationId == some expectedOperationId

def shouldRetry (currentAttempts : ℕ) : Bool := currentAttempts < maxAttempts

def shouldSkipExpiredLease (m : Meeting) (now : Time) : Bool :=
  m.syncLeaseExpiresAt.any (· ≤ now)

end ZoomRecoveryPolicy

end Daywright
