/-
# Deleting a meeting

`DeleteProjectMeeting` reads the row, saves the intent, asks Zoom to delete the
meeting and records the answer if the row is still under its operation id. A
meeting that Zoom does not know counts as deleted.

Key definitions: `saveDeleteIntent`, `markMeetingAsDeleted`,
`markDeleteUnknownAndScheduleRecovery`, `rollbackToActive`, `markDeleteFailed`, `step`.
-/
import Daywright.Meetings.Process

namespace Daywright
namespace DeleteProjectMeeting

def conflictHttpException : Throwable := .other none

def saveDeleteIntent (m : Meeting) (operationId : Uuid) (now : Time) : Commit :=
  if m.syncStatus = .deleted then .unchanged
  else if m.syncStatus = .deleting then .throws conflictHttpException
  else if ¬ (m.syncStatus = .active ∨ m.syncStatus = .updateFailed ∨ m.syncStatus = .deleteFailed) then
    .throws (Meeting.invalidStateTransition m.syncStatus.value MeetingSyncStatus.deleting.value)
  else .wrote
    { m with
      syncOperationId := some operationId
      syncOperationType := some .delete
      syncStatus := .deleting
      syncStartedAt := some now
      syncLeaseExpiresAt := some (now + minutes 5)
      syncPayload := none
      syncAttempts := 0
      syncClaimToken := none
      syncAvailableAt := none
      syncError := none }

/-! ### Outcome writers -/

def markMeetingAsDeleted (m : Meeting) (operationId : Uuid) (now : Time) : Commit :=
  executeWithOperationIdCheck m operationId fun m =>
    { m with
      syncStatus := .deleted
      syncOperationId := none
      syncOperationType := none
      syncError := none
      syncClaimToken := none
      syncLeaseExpiresAt := none
      syncAvailableAt := none
      syncedAt := some now }

def markDeleteUnknownAndScheduleRecovery (m : Meeting) (operationId : Uuid) (e : Throwable) (now : Time) :
    Commit :=
  executeWithOperationIdCheck m operationId fun m =>
    { m with
      syncStatus := .deleting
      syncError := some (formatSyncError e)
      syncAttempts := m.syncAttempts + 1
      syncClaimToken := none
      syncLeaseExpiresAt := none
      syncAvailableAt := some (now + minutes 1) }

def rollbackToActive (m : Meeting) (operationId : Uuid) : Commit :=
  executeWithOperationIdCheck m operationId fun m =>
    { m with
      syncStatus := .active
      syncOperationId := none
      syncOperationType := none
      syncError := none
      syncClaimToken := none
      syncLeaseExpiresAt := none
      syncAvailableAt := none }

def markDeleteFailed (m : Meeting) (operationId : Uuid) (e : Throwable) : Commit :=
  executeWithOperationIdCheck m operationId fun m =>
    { m with
      syncStatus := .deleteFailed
      syncError := some (formatSyncError e)
      syncAttempts := m.syncAttempts + 1
      syncClaimToken := none
      syncLeaseExpiresAt := none
      syncAvailableAt := none }

/-! ### The process -/

inductive Point where
  | handle
  | saveDeleteIntent
  /-- The deletion is with Zoom; the next step records the answer. -/
  | deleteFromZoom (operationId : Uuid)
  deriving DecidableEq, Repr

/-- Record the answer of `deleteMeeting`; `none`: this is no answer to it. -/
def handleReply (m : Meeting) (operationId : Uuid) (reply : Reply) (now : Time) : Option Commit :=
  match reply with
  | .done => some (markMeetingAsDeleted m operationId now)
  | .throws (.userError .notFound _) => some (markMeetingAsDeleted m operationId now)
  | .throws .operationUnknown =>
    some (markDeleteUnknownAndScheduleRecovery m operationId .operationUnknown now)
  | .throws (.rateLimit _ _) => some (rollbackToActive m operationId)
  | .throws e => some (if e.isZoomException then markDeleteFailed m operationId e else .unchanged)
  | _ => none

def step : Point → Meeting → Input → Option (Outcome Point)
  | .handle, m, _ =>
    some (if m.syncStatus = .deleted ∨ m.syncStatus = .deleting then .stop else .goOn .saveDeleteIntent)
  | .saveDeleteIntent, m, e =>
    match saveDeleteIntent m e.uuid e.now with
    | .wrote m' => some ⟨some m', some (.deleteFromZoom e.uuid)⟩
    | _ => some .stop
  | .deleteFromZoom operationId, m, e => (handleReply m operationId e.reply e.now).map .last

/-! ### Its moves in the protocol -/

variable {fresh : Uuid → Prop} {m m' : Meeting} {operationId : Uuid} {now : Time}

theorem saveDeleteIntent_moves (hf : fresh operationId)
    (h : (saveDeleteIntent m operationId now).written = some m') :
    m.Moves fresh m' := by
  unfold saveDeleteIntent at h
  split_ifs at h with h1 h2 h3 <;> cases h
  exact ⟨.intend m.sync (t := .delete) _ _ hf (by simp) h3 (by simp), fun _ => by simp⟩

/-- What the process knows of a row that is still under its operation. -/
def IsDelete (m : Meeting) : Prop := m.syncOperationType = some .delete ∧ m.syncPayload = none

theorem saveDeleteIntent_written (h : (saveDeleteIntent m operationId now).written = some m') :
    m'.syncOperationId = some operationId ∧ IsDelete m' := by
  unfold saveDeleteIntent at h
  split_ifs at h <;> cases h
  exact ⟨rfl, rfl, rfl⟩

theorem markMeetingAsDeleted_moves (ht : m.syncOperationId = some operationId → IsDelete m)
    (h : (markMeetingAsDeleted m operationId now).written = some m') : m.Moves fresh m' := by
  obtain ⟨ho, rfl⟩ := executeWithOperationIdCheck_written h
  have : Sync.Step fresh m.sync _ := .remove m.sync
  exact ⟨by simpa [Meeting.sync, Sync.cleared, (ht ho).2] using this, id⟩

theorem markDeleteUnknownAndScheduleRecovery_moves {e : Throwable}
    (ht : m.syncOperationId = some operationId → IsDelete m)
    (h : (markDeleteUnknownAndScheduleRecovery m operationId e now).written = some m') :
    m.Moves fresh m' := by
  obtain ⟨ho, rfl⟩ := executeWithOperationIdCheck_written h
  exact ⟨.await m.sync (t := .delete) _ (ht ho).1 (by simp), id⟩

theorem rollbackToActive_moves (ht : m.syncOperationId = some operationId → IsDelete m)
    (h : (rollbackToActive m operationId).written = some m') : m.Moves fresh m' := by
  obtain ⟨ho, rfl⟩ := executeWithOperationIdCheck_written h
  have : Sync.Step fresh m.sync _ := .settle m.sync none (by simp [Meeting.sync, ho])
  exact ⟨by simpa [Meeting.sync, Sync.cleared, (ht ho).2] using this, id⟩

theorem markDeleteFailed_moves {e : Throwable} (ht : m.syncOperationId = some operationId → IsDelete m)
    (h : (markDeleteFailed m operationId e).written = some m') : m.Moves fresh m' := by
  obtain ⟨ho, rfl⟩ := executeWithOperationIdCheck_written h
  exact ⟨.fail m.sync (t := .delete) (ht ho).1 (by simp), id⟩

theorem handleReply_moves {reply : Reply} {c : Commit}
    (ht : m.syncOperationId = some operationId → IsDelete m)
    (h : handleReply m operationId reply now = some c) (hc : c.written = some m') : m.Moves fresh m' := by
  unfold handleReply at h
  split at h <;> try cases h
  · exact markMeetingAsDeleted_moves ht hc
  · exact markMeetingAsDeleted_moves ht hc
  · exact markDeleteUnknownAndScheduleRecovery_moves ht hc
  · exact rollbackToActive_moves ht hc
  · split at hc
    · exact markDeleteFailed_moves ht hc
    · cases hc

end DeleteProjectMeeting

end Daywright
