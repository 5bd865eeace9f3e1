/-
# Updating a meeting

`UpdateProjectMeeting` saves the intent, sends the update to Zoom and records the
answer if the row is still under its operation id. After a change of password the
operation stays open, for a recovery to verify.

Key definitions: `saveUpdateIntent`, `applyUpdateLocally`,
`schedulePasswordVerification`, `markUpdateUnknownAndScheduleRecovery`,
`rollbackToActive`, `markUpdateFailed`, `step`.
-/
import Daywright.Meetings.Process

namespace Daywright

open Php

structure MeetingUpdateData where
  topic : Option String
  agenda : Option String
  duration : Option ℤ
  startTime : Option String
  timezone : Option String
  password : Option String
  joinBeforeHost : Option Bool
  deriving DecidableEq, Repr

/-- The fields that are given. -/
def MeetingUpdateData.toArray (d : MeetingUpdateData) : Fields :=
  [("topic", d.topic.map .str), ("agenda", d.agenda.map .str), ("duration", d.duration.map .int),
    ("start_time", d.startTime.map .str), ("timezone", d.timezone.map .str),
    ("password", d.password.map .str), ("join_before_host", d.joinBeforeHost.map .bool)].filterMap
    fun (f : String × Option Value) => f.2.map fun v => (f.1, v)

namespace UpdateProjectMeeting

def saveUpdateIntent (m : Meeting) (operationId : Uuid) (payload : SyncPayload) (now : Time) : Commit :=
  if m.syncStatus ≠ .active ∧ m.syncStatus ≠ .updateFailed then
    .throws (Meeting.invalidStateTransition m.syncStatus.value MeetingSyncStatus.updating.value)
  else .wrote
    { m with
      syncOperationId := some operationId
      syncOperationType := some .update
      syncPayload := some payload
      syncStatus := .updating
      syncStartedAt := some now
      syncLeaseExpiresAt := some (now + minutes 5)
      syncAttempts := 0
      syncClaimToken := none
      syncAvailableAt := none
      syncError := none }

def isPasswordOperation (data : MeetingUpdateData) : Bool := data.password.isSome

/-! ### Outcome writers -/

def applyUpdateLocally (m : Meeting) (data : MeetingUpdateData) (operationId : Uuid) (now : Time) : Commit :=
  executeWithOperationIdCheck m operationId fun m =>
    { m.fill data.toArray with
      syncStatus := .active
      syncOperationId := none
      syncOperationType := none
      syncPayload := none
      syncError := none
      syncClaimToken := none
      syncLeaseExpiresAt := none
      syncedAt := some now
      syncReconcileBeforeAt := some now }

def schedulePasswordVerification (m : Meeting) (operationId : Uuid) (now : Time) : Commit :=
  executeWithOperationIdCheck m operationId fun m =>
    { m with
      syncClaimToken := none
      syncLeaseExpiresAt := none
      syncAvailableAt := some (now + minutes 1)
      syncError := none }

def markUpdateUnknownAndScheduleRecovery (m : Meeting) (operationId : Uuid) (e : Throwable) (now : Time) :
    Commit :=
  executeWithOperationIdCheck m operationId fun m =>
    { m with
      syncStatus := .updating
      syncError := some (formatSyncError e)
      syncAttempts := m.syncAttempts + 1
      syncClaimToken := none
      syncLeaseExpiresAt := none
      syncAvailableAt := some (now + minutes 1) }

def rollbackToActive (m : Meeting) (operationId : Uuid) : Commit :=
  executeWithOperationIdCheck m operationId fun m =>
    { m with
      syncStatus := .active
      syncOperationId := none
      syncOperationType := none
      syncPayload := none
      syncError := none
      syncClaimToken := none
      syncLeaseExpiresAt := none
      syncAvailableAt := none }

def markUpdateFailed (m : Meeting) (operationId : Uuid) (e : Throwable) : Commit :=
  executeWithOperationIdCheck m operationId fun m =>
    { m with
      syncStatus := .updateFailed
      syncError := some (formatSyncError e)
      syncAttempts := m.syncAttempts + 1
      syncClaimToken := none
      syncLeaseExpiresAt := none
      syncAvailableAt := none }

/-! ### The process -/

inductive Point where
  | saveUpdateIntent (data : MeetingUpdateData)
  /-- The update is with Zoom; the next step records the answer. -/
  | updateInZoom (data : MeetingUpdateData) (operationId : Uuid)

/-- Record the answer of `updateMeeting`; `none`: this is no answer to it. -/
def handleReply (m : Meeting) (data : MeetingUpdateData) (operationId : Uuid) (reply : Reply) (now : Time) :
    Option Commit :=
  match reply with
  | .done =>
    some (if isPasswordOperation data then schedulePasswordVerification m operationId now
      else applyUpdateLocally m data operationId now)
  | .throws .operationUnknown =>
    some (markUpdateUnknownAndScheduleRecovery m operationId .operationUnknown now)
  | .throws (.rateLimit _ _) => some (rollbackToActive m operationId)
  | .throws e => some (if e.isZoomException then markUpdateFailed m operationId e else .unchanged)
  | _ => none

def step : Point → Meeting → Input → Option (Outcome Point)
  | .saveUpdateIntent data, m, e =>
    match saveUpdateIntent m e.uuid (.json data.toArray) e.now with
    | .wrote m' => some ⟨some m', some (.updateInZoom data e.uuid)⟩
    | _ => some .stop
  | .updateInZoom data operationId, m, e => (handleReply m data operationId e.reply e.now).map .last

/-! ### Its moves in the protocol -/

variable {fresh : Uuid → Prop} {m m' : Meeting} {data : MeetingUpdateData} {operationId : Uuid} {now : Time}

theorem saveUpdateIntent_moves {payload : SyncPayload} (hf : fresh operationId)
    (h : (saveUpdateIntent m operationId payload now).written = some m') :
    m.Moves fresh m' := by
  unfold saveUpdateIntent at h
  split at h
  · cases h
  · rename_i hs
    cases h
    have hs' : m.syncStatus = .active ∨ m.syncStatus = .updateFailed := by
      by_contra hn
      exact hs (not_or.mp hn)
    refine ⟨.intend m.sync (t := .update) _ _ hf (by simp) ?_ (by simp), fun _ => by simp⟩
    rcases hs' with h | h
    · exact .inl h
    · exact .inr (.inl h)

theorem saveUpdateIntent_written {payload : SyncPayload}
    (h : (saveUpdateIntent m operationId payload now).written = some m') :
    m'.syncOperationId = some operationId ∧ m'.syncOperationType = some .update := by
  unfold saveUpdateIntent at h
  split at h <;> cases h
  exact ⟨rfl, rfl⟩

theorem applyUpdateLocally_moves
    (h : (applyUpdateLocally m data operationId now).written = some m') : m.Moves fresh m' := by
  obtain ⟨ho, rfl⟩ := executeWithOperationIdCheck_written h
  have : Sync.Step fresh m.sync _ := .settle m.sync m.syncAvailableAt (by simp [Meeting.sync, ho])
  exact ⟨by simpa [Meeting.sync, Sync.cleared] using this, by simp⟩

theorem schedulePasswordVerification_moves
    (ht : m.syncOperationId = some operationId → m.syncOperationType = some .update)
    (h : (schedulePasswordVerification m operationId now).written = some m') : m.Moves fresh m' := by
  obtain ⟨ho, rfl⟩ := executeWithOperationIdCheck_written h
  exact ⟨.postpone m.sync _ (.inr (by simp [Meeting.sync, ht ho])), id⟩

theorem markUpdateUnknownAndScheduleRecovery_moves {e : Throwable}
    (ht : m.syncOperationId = some operationId → m.syncOperationType = some .update)
    (h : (markUpdateUnknownAndScheduleRecovery m operationId e now).written = some m') :
    m.Moves fresh m' := by
  obtain ⟨ho, rfl⟩ := executeWithOperationIdCheck_written h
  exact ⟨.await m.sync (t := .update) _ (ht ho) (by simp), id⟩

theorem rollbackToActive_moves (h : (rollbackToActive m operationId).written = some m') :
    m.Moves fresh m' := by
  obtain ⟨ho, rfl⟩ := executeWithOperationIdCheck_written h
  exact ⟨.settle m.sync _ (by simp [Meeting.sync, ho]), id⟩

theorem markUpdateFailed_moves {e : Throwable}
    (ht : m.syncOperationId = some operationId → m.syncOperationType = some .update)
    (h : (markUpdateFailed m operationId e).written = some m') : m.Moves fresh m' := by
  obtain ⟨ho, rfl⟩ := executeWithOperationIdCheck_written h
  exact ⟨.fail m.sync (t := .update) (ht ho) (by simp), id⟩

theorem handleReply_moves {reply : Reply} {c : Commit}
    (ht : m.syncOperationId = some operationId → m.syncOperationType = some .update)
    (h : handleReply m data operationId reply now = some c) (hc : c.written = some m') :
    m.Moves fresh m' := by
  unfold handleReply at h
  split at h <;> try cases h
  · split at hc
    · exact schedulePasswordVerification_moves ht hc
    · exact applyUpdateLocally_moves hc
  · exact markUpdateUnknownAndScheduleRecovery_moves ht hc
  · exact rollbackToActive_moves hc
  · split at hc
    · exact markUpdateFailed_moves ht hc
    · cases hc

end UpdateProjectMeeting

end Daywright
