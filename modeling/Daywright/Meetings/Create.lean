/-
# Creating a meeting

`CreateProjectMeeting` inserts the row in status Creating and then asks Zoom. The
answer may come at any later moment; `syncWithZoom` records it, in one
transaction on the row as it is by then.

Key definitions: `createMeetingWithOperation`, `markMeetingAsSynced`,
`markMeetingAsFailed`, `markMeetingAsCreateUnknown`, `step`.
-/
import Daywright.Meetings.Process

namespace Daywright

open Php

structure MeetingStoreData where
  topic : String
  agenda : String
  duration : ℤ
  startTime : String
  timezone : String
  password : String
  joinBeforeHost : Bool
  deriving DecidableEq, Repr

def MeetingStoreData.toArray (d : MeetingStoreData) : Fields :=
  [("topic", .str d.topic), ("agenda", .str d.agenda), ("duration", .int d.duration),
    ("start_time", .str d.startTime), ("timezone", .str d.timezone), ("password", .str d.password),
    ("join_before_host", .bool d.joinBeforeHost)]

namespace CreateProjectMeeting

/-- A row with nothing but the columns' defaults; `sync_status` is always given. -/
def blankMeeting : Meeting where
  meetingId := none
  attributes := fun _ => .null
  status := none
  syncStatus := .creating
  syncError := none
  syncedAt := none
  syncAttempts := 0
  syncOperationId := none
  syncOperationType := none
  syncPayload := none
  syncClaimToken := none
  syncStartedAt := none
  syncReconcileBeforeAt := none
  syncLeaseExpiresAt := none
  syncAvailableAt := none
  lastZoomEventTimestamp := none
  startedNotificationPendingAt := none
  endedNotificationPendingAt := none

def createMeetingWithOperation (data : MeetingStoreData) (operationId : Uuid) (now : Time) : Meeting :=
  { blankMeeting.fill data.toArray with
    syncOperationId := some operationId
    syncStatus := .creating
    syncStartedAt := some now
    syncLeaseExpiresAt := some (now + minutes 5) }

/-! ### Success -/

def isAlreadyActiveWithSameId (m : Meeting) (z : ZoomMeeting) : Bool :=
  m.syncStatus == .active && m.sameMeetingId z.meetingId

def hasConflictingMeetingId (m : Meeting) (z : ZoomMeeting) : Bool :=
  m.meetingId.isSome && !m.sameMeetingId z.meetingId

def handleMeetingIdConflict (m : Meeting) : Commit :=
  .afterTransition (if m.syncStatus = .creating then m.transitionTo .createUnknown else .ok m) fun m =>
    { m with
      syncError := some "remote_meeting_id_conflict"
      syncClaimToken := none
      syncLeaseExpiresAt := none
      syncAvailableAt := none }

def finalizeMeetingAsActive (m : Meeting) (z : ZoomMeeting) (now : Time) : Commit :=
  .afterTransition (m.transitionTo .active) fun m =>
    { (m.put "start_url" (.str z.startUrl)).put "join_url" (.str z.joinUrl) with
      meetingId := some z.meetingId
      status := some z.status
      syncError := none
      syncClaimToken := none
      syncLeaseExpiresAt := none
      syncAvailableAt := none
      syncedAt := some now }

/-- A recovery that holds the claim goes on; the answer is dropped. -/
def handleCreateUnknownState (m : Meeting) (z : ZoomMeeting) (now : Time) : Commit :=
  if m.syncClaimToken ≠ none then .unchanged else finalizeMeetingAsActive m z now

def markMeetingAsSynced (m : Meeting) (z : ZoomMeeting) (now : Time) : Commit :=
  if isAlreadyActiveWithSameId m z then .unchanged
  else if hasConflictingMeetingId m z then handleMeetingIdConflict m
  else if m.syncStatus = .createUnknown then handleCreateUnknownState m z now
  else finalizeMeetingAsActive m z now

/-! ### Rejection and uncertainty -/

def markMeetingAsFailed (m : Meeting) (e : Throwable) : Commit :=
  if m.syncStatus ≠ .creating then .unchanged
  else .afterTransition (m.transitionTo .failed) fun m =>
    { m with
      syncError := some (formatSyncError e)
      syncAttempts := m.syncAttempts + 1
      syncClaimToken := none
      syncLeaseExpiresAt := none
      syncAvailableAt := none }

def markMeetingAsCreateUnknown (m : Meeting) (e : Throwable) (now : Time) : Commit :=
  if m.syncStatus = .active ∨ m.syncStatus = .failed ∨ m.syncClaimToken ≠ none then .unchanged
  else if m.syncStatus ≠ .creating ∧ m.syncStatus ≠ .createUnknown then .unchanged
  else .afterTransition (if m.syncStatus = .creating then m.transitionTo .createUnknown else .ok m) fun m =>
    { m with
      syncError := some (formatSyncError e)
      syncAttempts := m.syncAttempts + 1
      syncAvailableAt := some (now + minutes 1)
      syncClaimToken := none
      syncLeaseExpiresAt := none }

/-- Record the answer of `createMeeting`; `none`: this is no answer to it. -/
def syncWithZoom (m : Meeting) (reply : Reply) (now : Time) : Option Commit :=
  match reply with
  | .created z => some (markMeetingAsSynced m z now)
  | .throws .creationUnknown => some (markMeetingAsCreateUnknown m .creationUnknown now)
  | .throws e => some (if e.isZoomException then markMeetingAsFailed m e else .unchanged)
  | _ => none

/-- The request is with Zoom; the next step records the answer. -/
inductive Point where
  | createMeeting
  deriving DecidableEq, Repr

def step (_ : Point) (m : Meeting) (e : Input) : Option (Outcome Point) :=
  (syncWithZoom m e.reply e.now).map .last

/-! ### Its moves in the protocol -/

variable {fresh : Uuid → Prop} {m m' : Meeting} {z : ZoomMeeting} {now : Time}

/-- A success is recorded as an activation although an operation is pending. -/
def ActivatesLate (m : Meeting) (z : ZoomMeeting) : Prop :=
  hasConflictingMeetingId m z = false ∧
    (m.syncStatus = .updating ∨ m.syncStatus = .updateFailed ∨ m.syncStatus = .deleteFailed)

/-- A success under another Zoom id meets an operation that is open. -/
def ConflictsLate (m : Meeting) (z : ZoomMeeting) : Prop :=
  hasConflictingMeetingId m z = true ∧ (m.syncStatus = .updating ∨ m.syncStatus = .deleting)

instance (m : Meeting) (z : ZoomMeeting) : Decidable (ActivatesLate m z) := by
  unfold ActivatesLate
  infer_instance

instance (m : Meeting) (z : ZoomMeeting) : Decidable (ConflictsLate m z) := by
  unfold ConflictsLate
  infer_instance

theorem hasConflictingMeetingId_eq_false : hasConflictingMeetingId m z = false ↔
    m.meetingId = none ∨ m.meetingId = some z.meetingId := by
  cases hm : m.meetingId <;> simp [hasConflictingMeetingId, Meeting.sameMeetingId, hm]

theorem hasConflictingMeetingId_eq_true : hasConflictingMeetingId m z = true ↔
    m.meetingId ≠ none ∧ m.meetingId ≠ some z.meetingId := by
  cases hm : m.meetingId <;> simp [hasConflictingMeetingId, Meeting.sameMeetingId, hm]

theorem handleMeetingIdConflict_written (h : (handleMeetingIdConflict m).written = some m') :
    (m.syncStatus = .creating → m'.sync = { m.sync.unclaim none with status := .createUnknown }) ∧
      (m.syncStatus ≠ .creating → m'.sync = m.sync.unclaim none) ∧
      m'.syncStartedAt = m.syncStartedAt ∧ m'.status = m.status := by
  obtain ⟨m₁, h₁, rfl⟩ := Commit.afterTransition_written h
  split at h₁
  · rename_i hs
    obtain ⟨-, rfl⟩ := Meeting.transitionTo_ok h₁
    exact ⟨fun _ => rfl, fun hn => absurd hs hn, rfl, rfl⟩
  · rename_i hs
    cases h₁
    exact ⟨fun hc => absurd hc hs, fun _ => rfl, rfl, rfl⟩

theorem finalizeMeetingAsActive_written (h : (finalizeMeetingAsActive m z now).written = some m') :
    .active ∈ m.syncStatus.validTransitions ∧
      m'.sync = { m.sync.unclaim none with status := .active, meetingId := some z.meetingId } ∧
      m'.syncStartedAt = m.syncStartedAt := by
  obtain ⟨m₁, h₁, rfl⟩ := Commit.afterTransition_written h
  obtain ⟨ht, rfl⟩ := Meeting.transitionTo_ok h₁
  exact ⟨ht, rfl, rfl⟩

/-- Finalising is a late activation or a move of the protocol. -/
theorem finalizeMeetingAsActive_effect (hc : hasConflictingMeetingId m z = false)
    (h : (finalizeMeetingAsActive m z now).written = some m') :
    (ActivatesLate m z ∧ Sync.Late m.sync m'.sync ∧ m'.syncStatus = .active) ∨
      (¬ ActivatesLate m z ∧ ¬ ConflictsLate m z ∧ Sync.Step fresh m.sync m'.sync) := by
  have hid := hasConflictingMeetingId_eq_false.mp hc
  obtain ⟨ht, hs, -⟩ := finalizeMeetingAsActive_written h
  by_cases hl : m.syncStatus = .updating ∨ m.syncStatus = .updateFailed ∨ m.syncStatus = .deleteFailed
  · refine .inl ⟨⟨hc, hl⟩, ?_, congrArg Sync.status hs⟩
    rw [hs]
    exact .activate m.sync _ hl hid
  · have hnc : ¬ ConflictsLate m z := by simp [ConflictsLate, hc]
    refine .inr ⟨fun h => hl h.2, hnc, ?_⟩
    rw [hs]
    refine .activate m.sync _ ?_ hid
    rcases Meeting.active_mem_validTransitions.mp ht with h | h | h | h | h
    · exact .inl h
    · exact .inr (.inl h)
    · exact .inr (.inr (.inl h))
    · exact .inr (.inr (.inr h))
    · exact absurd h hl

/-- A conflict is handled late or as a move of the protocol. -/
theorem handleMeetingIdConflict_effect (hc : hasConflictingMeetingId m z = true)
    (h : (handleMeetingIdConflict m).written = some m') :
    (ConflictsLate m z ∧ Sync.Late m.sync m'.sync ∧ m'.syncStatus = m.syncStatus) ∨
      (¬ ActivatesLate m z ∧ ¬ ConflictsLate m z ∧ Sync.Step fresh m.sync m'.sync) := by
  obtain ⟨hcr, hnc, -, -⟩ := handleMeetingIdConflict_written h
  have hna : ¬ ActivatesLate m z := by simp [ActivatesLate, hc]
  by_cases hs : m.syncStatus = .creating
  · refine .inr ⟨hna, fun h => ?_, ?_⟩
    · rcases h.2 with h | h <;> simp [hs] at h
    · rw [hcr hs]
      exact .review m.sync (.inl hs)
  rw [hnc hs]
  by_cases hl : m.syncStatus = .updating ∨ m.syncStatus = .deleting
  · have hid := (hasConflictingMeetingId_eq_true.mp hc).1
    exact .inl ⟨⟨hc, hl⟩, .conflict m.sync hl hid, congrArg Sync.status (hnc hs)⟩
  · refine .inr ⟨hna, fun h => hl h.2, ?_⟩
    by_cases hu : m.syncStatus = .createUnknown
    · have : m.sync.unclaim none = { m.sync.unclaim none with status := .createUnknown } := by
        simp [Meeting.sync, Sync.unclaim, hu]
      rw [this]
      exact .review m.sync (.inr hu)
    · exact .disturb m.sync hs hu (fun h => hl (.inl h)) fun h => hl (.inr h)

/-- What recording a success does: a late activation, a late conflict, or a move
of the protocol. -/
theorem markMeetingAsSynced_written (h : (markMeetingAsSynced m z now).written = some m') :
    (ActivatesLate m z ∧ Sync.Late m.sync m'.sync ∧ m'.syncStatus = .active) ∨
      (ConflictsLate m z ∧ Sync.Late m.sync m'.sync ∧ m'.syncStatus = m.syncStatus) ∨
      (¬ ActivatesLate m z ∧ ¬ ConflictsLate m z ∧ Sync.Step fresh m.sync m'.sync) := by
  unfold markMeetingAsSynced at h
  split at h
  · cases h
  split at h
  · rename_i hc
    exact .inr (handleMeetingIdConflict_effect hc h)
  · rename_i hc
    have hw : (finalizeMeetingAsActive m z now).written = some m' := by
      split at h
      · unfold handleCreateUnknownState at h
        split at h
        · cases h
        · exact h
      · exact h
    rcases finalizeMeetingAsActive_effect (eq_false_of_ne_true hc) hw with h | h
    · exact .inl h
    · exact .inr (.inr h)

/-- A success that comes late is recorded. -/
theorem markMeetingAsSynced_of_late (h : ActivatesLate m z ∨ ConflictsLate m z) :
    (markMeetingAsSynced m z now).written ≠ none := by
  rcases h with ⟨hc, hs⟩ | ⟨hc, hs⟩
  · have hf : (finalizeMeetingAsActive m z now).written ≠ none := by
      rcases hs with h | h | h <;>
        simp [finalizeMeetingAsActive, Meeting.transitionTo, h, Commit.afterTransition,
          MeetingSyncStatus.validTransitions]
    rcases hs with h | h | h <;>
      simpa [markMeetingAsSynced, isAlreadyActiveWithSameId, h, hc] using hf
  · rcases hs with h | h <;>
      simp [markMeetingAsSynced, isAlreadyActiveWithSameId, h, hc, handleMeetingIdConflict,
        Commit.afterTransition]

theorem markMeetingAsSynced_started (h : (markMeetingAsSynced m z now).written = some m') :
    m'.syncStartedAt = m.syncStartedAt := by
  unfold markMeetingAsSynced handleCreateUnknownState at h
  split_ifs at h
  · cases h
  · exact (handleMeetingIdConflict_written h).2.2.1
  · cases h
  · exact (finalizeMeetingAsActive_written h).2.2
  · exact (finalizeMeetingAsActive_written h).2.2

theorem markMeetingAsFailed_moves {e : Throwable} (h : (markMeetingAsFailed m e).written = some m') :
    m.Moves fresh m' := by
  unfold markMeetingAsFailed at h
  split at h
  · cases h
  · rename_i hs
    obtain ⟨m₁, h₁, rfl⟩ := Commit.afterTransition_written h
    obtain ⟨-, rfl⟩ := Meeting.transitionTo_ok h₁
    exact ⟨.reject m.sync (.inl (not_not.mp hs)), id⟩

theorem markMeetingAsCreateUnknown_moves {e : Throwable}
    (h : (markMeetingAsCreateUnknown m e now).written = some m') : m.Moves fresh m' := by
  unfold markMeetingAsCreateUnknown at h
  split at h
  · cases h
  split at h
  · cases h
  rename_i hn
  have hs : m.syncStatus = .creating ∨ m.syncStatus = .createUnknown := by
    by_contra hc
    exact hn (not_or.mp hc)
  obtain ⟨m₁, h₁, rfl⟩ := Commit.afterTransition_written h
  have : Sync.Step fresh m.sync _ := .suspect m.sync (now + minutes 1) hs
  split at h₁
  · obtain ⟨-, rfl⟩ := Meeting.transitionTo_ok h₁
    exact ⟨this, id⟩
  · rename_i hc
    cases h₁
    exact ⟨by simpa [Meeting.sync, Sync.unclaim, hs.resolve_left hc] using this, id⟩

end CreateProjectMeeting

end Daywright
