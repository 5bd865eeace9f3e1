/-
# Webhooks: created, deleted, started, ended

`HandleMeetingCreatedWebhook` finds the row by the operation id and attaches the
Zoom id to a creation that is still open. The other webhooks find it by its Zoom
id, read it, and then write: the deletion in a transaction that locks the row and
decides on what it finds there, the runtime events in one conditional update.

Key definitions: `HandleMeetingCreatedWebhook.handle`,
`HandleMeetingDeletedWebhook.processDeleteInTransaction`,
`HandleMeetingStartedWebhook.transitionToStarted`,
`HandleMeetingEndedWebhook.transitionToEnded`.
-/
import Daywright.Meetings.Process

namespace Daywright

open Php ZoomWebhookSupport

/-! ### meeting.created -/

structure MeetingCreatedWebhookData where
  meetingId : ZoomId
  operationId : Option Uuid
  joinUrl : Option String
  creationSource : Option String
  deriving DecidableEq, Repr

namespace HandleMeetingCreatedWebhook

def isValidSyncStatus (m : Meeting) : Bool :=
  m.syncStatus == .creating || m.syncStatus == .createUnknown

def hasConflictingActiveMeetingId (m : Meeting) (data : MeetingCreatedWebhookData) : Bool :=
  m.syncStatus == .active && !m.sameMeetingId data.meetingId

def hasAlreadySetMeetingId (m : Meeting) : Bool := m.meetingId.isSome

def shouldAttachRemoteId (m : Meeting) (data : MeetingCreatedWebhookData) : Bool :=
  !hasConflictingActiveMeetingId m data && isValidSyncStatus m && !hasAlreadySetMeetingId m

def updateMeetingWithRemoteId (m : Meeting) (data : MeetingCreatedWebhookData) (now : Time) : Commit :=
  .afterTransition (if m.syncStatus = .creating then m.transitionTo .createUnknown else .ok m) fun m =>
    { m.put "join_url" ((data.joinUrl.map .str).getD .null) with
      meetingId := some data.meetingId
      syncAvailableAt := some now
      syncClaimToken := none
      syncLeaseExpiresAt := none }

def attachRemoteMeetingId (m : Meeting) (data : MeetingCreatedWebhookData) (now : Time) : Commit :=
  if shouldAttachRemoteId m data then updateMeetingWithRemoteId m data now else .unchanged

/-- The row is looked up by `sync_operation_id`. -/
def handle (data : MeetingCreatedWebhookData) (m : Meeting) (now : Time) : Commit :=
  if data.creationSource ≠ some "open_api" then .unchanged
  else if data.operationId = none ∨ m.syncOperationId ≠ data.operationId then .unchanged
  else attachRemoteMeetingId m data now

/-- The webhook attaches the Zoom id of a creation. -/
theorem handle_written {fresh : Uuid → Prop} {data : MeetingCreatedWebhookData} {m m' : Meeting} {now : Time}
    (h : (handle data m now).written = some m') :
    m.Moves fresh m' ∧ m'.syncStatus = .createUnknown ∧ m'.meetingId = some data.meetingId := by
  simp only [handle, attachRemoteMeetingId] at h
  split_ifs at h with h1 h2 h3
  · cases h
  · cases h
  · simp only [shouldAttachRemoteId, isValidSyncStatus, hasAlreadySetMeetingId, Bool.and_eq_true,
      Bool.or_eq_true, beq_iff_eq, Bool.not_eq_true', Option.isSome_eq_false_iff,
      Option.isNone_iff_eq_none] at h3
    obtain ⟨⟨-, hs⟩, hid⟩ := h3
    obtain ⟨m₁, h₁, rfl⟩ := Commit.afterTransition_written h
    have : Sync.Step fresh m.sync _ := .attach m.sync data.meetingId now hs hid
    split at h₁
    · obtain ⟨-, rfl⟩ := Meeting.transitionTo_ok h₁
      exact ⟨⟨this, id⟩, rfl, rfl⟩
    · rename_i hc
      cases h₁
      have hu := hs.resolve_left hc
      refine ⟨⟨?_, id⟩, hu, rfl⟩
      simpa [Meeting.sync, Meeting.put, Sync.unclaim, hu] using this
  · cases h

end HandleMeetingCreatedWebhook

/-! ### meeting.deleted -/

namespace HandleMeetingDeletedWebhook

def isPendingOperation (m : Meeting) (operationType : MeetingSyncOperationType)
    (statuses : List MeetingSyncStatus) : Bool :=
  statuses.contains m.syncStatus && m.syncOperationType == some operationType && m.syncOperationId.isSome

def isValidSyncStatus (m : Meeting) : Bool :=
  isPendingOperation m .delete [.deleting, .deleteFailed] ||
    isPendingOperation m .update [.updating, .updateFailed] || m.syncStatus == .active

def isStaleEvent (m : Meeting) (occurredAt : OccurredAt) : Bool :=
  occurredAt.isSome && isStaleProviderEvent m occurredAt true

def shouldIgnoreWebhook (m : Meeting) (occurredAt : OccurredAt) : Bool :=
  m.syncStatus == .deleted || isStaleEvent m occurredAt || !isValidSyncStatus m

/-- An event without a time leaves the watermark as it is. -/
def markMeetingAsDeleted (m : Meeting) (occurredAt : OccurredAt) (now : Time) : Meeting :=
  { m with
    syncStatus := .deleted
    syncOperationId := none
    syncOperationType := none
    syncPayload := none
    syncError := none
    syncClaimToken := none
    syncLeaseExpiresAt := none
    syncAvailableAt := none
    syncedAt := some now
    lastZoomEventTimestamp := if occurredAt.isSome then occurredAt else m.lastZoomEventTimestamp }

def processDeleteInTransaction (m : Meeting) (occurredAt : OccurredAt) (now : Time) : Commit :=
  if shouldIgnoreWebhook m occurredAt then .unchanged
  else .wrote (markMeetingAsDeleted m occurredAt now)

inductive Point where
  | handle (meetingId : ZoomId) (occurredAt : OccurredAt)
  | processDelete (occurredAt : OccurredAt)

def step : Point → Meeting → Input → Option (Outcome Point)
  | .handle meetingId occurredAt, m, _ =>
    some (if m.sameMeetingId meetingId then .goOn (.processDelete occurredAt) else .stop)
  | .processDelete occurredAt, m, e => some (.last (processDeleteInTransaction m occurredAt e.now))

theorem step_moves {fresh : Uuid → Prop} {p : Point} {m m' : Meeting} {e : Input} {o : Outcome Point}
    (h : step p m e = some o) (hw : o.written = some m') :
    m.Moves fresh m' ∧ m'.syncStatus = .deleted := by
  cases p with
  | handle meetingId occurredAt =>
    cases h
    split at hw <;> cases hw
  | processDelete occurredAt =>
    cases h
    simp only [Outcome.last_written, processDeleteInTransaction] at hw
    split at hw <;> cases hw
    exact ⟨⟨.remove m.sync, id⟩, rfl⟩

end HandleMeetingDeletedWebhook

/-! ### meeting.started, meeting.ended -/

/-- SQL's `status != s`. -/
def statusDiffers (m : Meeting) (s : String) : Bool := m.status.any (· != s)

namespace HandleMeetingStartedWebhook

def transitionToStarted (m : Meeting) (now : Time) : Commit :=
  if statusDiffers m "started" && statusDiffers m "ended" then
    .wrote { m with status := some "started", startedNotificationPendingAt := some now }
  else .unchanged

end HandleMeetingStartedWebhook

namespace HandleMeetingEndedWebhook

def transitionToEnded (m : Meeting) (now : Time) : Commit :=
  if statusDiffers m "ended" then
    .wrote { m with status := some "ended", endedNotificationPendingAt := some now }
  else .unchanged

end HandleMeetingEndedWebhook

/-- The handler of a runtime event; the update does not look at `sync_status`
again. -/
inductive RuntimeWebhookPoint where
  | handle (meetingId : ZoomId)
  | transition

def runtimeWebhookStep (transition : Meeting → Time → Commit) :
    RuntimeWebhookPoint → Meeting → Input → Option (Outcome RuntimeWebhookPoint)
  | .handle meetingId, m, _ =>
    some (if m.sameMeetingId meetingId && ensureActiveSyncStatus m then .goOn .transition else .stop)
  | .transition, m, e => some (.last (transition m e.now))

/-- A runtime event writes none of the sync columns. -/
theorem runtimeWebhookStep_sync {transition : Meeting → Time → Commit}
    (ht : ∀ m m' now, (transition m now).written = some m' →
      m'.sync = m.sync ∧ m'.syncStartedAt = m.syncStartedAt)
    {p : RuntimeWebhookPoint} {m m' : Meeting} {e : Input} {o : Outcome RuntimeWebhookPoint}
    (h : runtimeWebhookStep transition p m e = some o) (hw : o.written = some m') :
    m'.sync = m.sync ∧ m'.syncStartedAt = m.syncStartedAt := by
  cases p with
  | handle meetingId =>
    cases h
    split at hw <;> cases hw
  | transition =>
    cases h
    exact ht _ _ _ hw

theorem transitionToStarted_sync (m m' : Meeting) (now : Time)
    (h : (HandleMeetingStartedWebhook.transitionToStarted m now).written = some m') :
    m'.sync = m.sync ∧ m'.syncStartedAt = m.syncStartedAt := by
  unfold HandleMeetingStartedWebhook.transitionToStarted at h
  split at h <;> cases h
  exact ⟨rfl, rfl⟩

theorem transitionToEnded_sync (m m' : Meeting) (now : Time)
    (h : (HandleMeetingEndedWebhook.transitionToEnded m now).written = some m') :
    m'.sync = m.sync ∧ m'.syncStartedAt = m.syncStartedAt := by
  unfold HandleMeetingEndedWebhook.transitionToEnded at h
  split at h <;> cases h
  exact ⟨rfl, rfl⟩

end Daywright
