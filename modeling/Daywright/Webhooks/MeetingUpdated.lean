/-
# The meeting.updated webhook

`HandleMeetingUpdatedWebhook` reads the row, asks Zoom for the meeting if the
event may be about a change of ours (`buildContext`), and hands both to
`ZoomMeetingUpdatedWebhookProcessor`, which locks the row, checks that it is still
what the context was built from, and only then writes.

The point between the answer of Zoom and the transaction also remembers, for the
proofs alone, the row as it was when Zoom answered (`atFetch`).

Key definitions: `buildContext`, `processLockedMeeting`, `Point`, `step`.
-/
import Daywright.Meetings.Process

namespace Daywright

open Php ZoomWebhookSupport ZoomMeetingUpdatedWebhookChanges

/-- An event, its changes reduced to the fields that `fromPayloadObject` accepts. -/
structure MeetingUpdatedWebhookData where
  meetingId : ZoomId
  changes : Fields
  accepted : ∀ f ∈ changes, f.1 ∈ ["topic", "duration", "password", "start_time", "timezone", "uuid",
    "join_url", "start_url", "agenda", "join_before_host"]

/-- The facts captured before reading Zoom. -/
structure MeetingUpdateWebhookContext where
  needsZoomCheck : Bool
  zoomMeeting : Option ZoomMeeting
  operationId : Option Uuid
  reconcileBefore : Option Time
  providerWatermark : Option ℤ

def MeetingUpdateWebhookContext.isMissingAtZoom (c : MeetingUpdateWebhookContext) : Bool :=
  c.needsZoomCheck && c.zoomMeeting.isNone

/-- `ZoomWebhookStateConflictException`. -/
def stateConflict : Throwable := .other none

/-! ### ZoomMeetingUpdatedWebhookProcessor -/

namespace ZoomMeetingUpdatedWebhookProcessor

variable (E : Env)

def hasPendingUpdate (m : Meeting) : Bool :=
  [MeetingSyncStatus.updating, .updateFailed].contains m.syncStatus &&
    m.syncOperationType == some .update && m.syncOperationId.isSome

def pendingUpdateMatchesEvent (m : Meeting) (webhookChanges : Fields) : Except Throwable Bool :=
  if hasPendingUpdate m then (matchingOperationFields E m webhookChanges).map (·.isSome) else .ok false

def clearedOperation (m : Meeting) : Meeting :=
  { m with
    syncOperationId := none
    syncOperationType := none
    syncPayload := none
    syncError := none
    syncClaimToken := none
    syncLeaseExpiresAt := none
    syncAvailableAt := none }

/-- `completedUpdateFields`. -/
def completedUpdate (m : Meeting) (occurredAt : OccurredAt) (now : Time) (advanceReconciliationCutoff : Bool) :
    Meeting :=
  { clearedOperation m with
    syncStatus := .active
    lastZoomEventTimestamp := occurredAt
    syncedAt := some now
    syncReconcileBeforeAt := if advanceReconciliationCutoff then some now else m.syncReconcileBeforeAt }

/-- `reconciledEventFields`. -/
def reconciledEvent (m : Meeting) (occurredAt : OccurredAt) (now : Time) : Meeting :=
  { m with lastZoomEventTimestamp := occurredAt, syncedAt := some now, syncReconcileBeforeAt := some now }

def markMeetingDeleted (m : Meeting) (occurredAt : OccurredAt) (now : Time) : Meeting :=
  { clearedOperation m with
    syncStatus := .deleted
    syncedAt := some now
    lastZoomEventTimestamp := if occurredAt.isSome then occurredAt else m.lastZoomEventTimestamp }

def finishPendingUpdateFromZoom (m : Meeting) (occurredAt : OccurredAt) (payload : Fields)
    (remoteMeeting : ZoomMeeting) (now : Time) : Meeting :=
  if !zoomHasRequestedFields E payload remoteMeeting then { m with lastZoomEventTimestamp := occurredAt }
  else if predatesPendingOperation m occurredAt then
    reconciledEvent (m.fill (fieldsFromZoom remoteMeeting)) occurredAt now
  else completedUpdate (m.fill (fieldsFromZoom remoteMeeting)) occurredAt now true

def processPendingUpdate (m : Meeting) (data : MeetingUpdatedWebhookData) (occurredAt : OccurredAt)
    (context : MeetingUpdateWebhookContext) (now : Time) : Commit :=
  match matchingOperationFields E m data.changes with
  | .error e => .throws e
  | .ok none => .unchanged
  | .ok (some payload) =>
    if context.needsZoomCheck then
      match context.zoomMeeting with
      | none => .throws stateConflict
      | some z => .wrote (finishPendingUpdateFromZoom E m occurredAt payload z now)
    else .wrote
      (completedUpdate (m.fill (payload ++ otherAllowedFields payload data.changes)) occurredAt now false)

def saveZoomSnapshot (m : Meeting) (occurredAt : OccurredAt) (context : MeetingUpdateWebhookContext)
    (now : Time) : Commit :=
  match context.zoomMeeting with
  | none => .throws stateConflict
  | some z => .wrote (reconciledEvent (m.fill (fieldsFromZoom z)) occurredAt now)

def saveWebhookChanges (m : Meeting) (data : MeetingUpdatedWebhookData) (occurredAt : OccurredAt) : Commit :=
  match hasChanges E m data.changes with
  | none => .throws (.other none)
  | some false => .wrote { m with lastZoomEventTimestamp := occurredAt }
  | some true =>
    if Meeting.hasColumns data.changes then
      .wrote { m.fill data.changes with lastZoomEventTimestamp := occurredAt }
    else .throws (.other none)

/-- `checkMeetingDidNotChange` does not throw. -/
def didNotChange (m : Meeting) (context : MeetingUpdateWebhookContext) : Bool :=
  m.syncOperationId == context.operationId && m.syncReconcileBeforeAt == context.reconcileBefore &&
    m.lastZoomEventTimestamp == context.providerWatermark

def processLockedMeeting (m : Meeting) (data : MeetingUpdatedWebhookData) (occurredAt : OccurredAt)
    (context : MeetingUpdateWebhookContext) (now : Time) : Commit :=
  if isStaleProviderEvent m occurredAt true then .unchanged
  else if !didNotChange m context then .throws stateConflict
  else if context.isMissingAtZoom then .wrote (markMeetingDeleted m occurredAt now)
  else if hasPendingUpdate m then processPendingUpdate E m data occurredAt context now
  else if !ensureActiveSyncStatus m then .unchanged
  else if context.needsZoomCheck then saveZoomSnapshot m occurredAt context now
  else saveWebhookChanges E m data occurredAt

/-! ### Its moves in the protocol -/

variable {E} {fresh : Uuid → Prop} {m m' : Meeting} {data : MeetingUpdatedWebhookData}
  {occurredAt : OccurredAt} {context : MeetingUpdateWebhookContext} {now : Time}

theorem hasPendingUpdate_iff : hasPendingUpdate m = true ↔
    (m.syncStatus = .updating ∨ m.syncStatus = .updateFailed) ∧ m.syncOperationType = some .update ∧
      m.syncOperationId ≠ none := by
  simp [hasPendingUpdate, and_assoc, Option.isSome_iff_ne_none]

/-- The webhook finishes the pending update of the row `m`: what it went by. -/
structure Completes (E : Env) (m : Meeting) (data : MeetingUpdatedWebhookData) (occurredAt : OccurredAt)
    (context : MeetingUpdateWebhookContext) : Prop where
  pending : hasPendingUpdate m = true
  fresh : isStaleProviderEvent m occurredAt true = false
  unchanged : didNotChange m context = true
  payload : ∃ payload, matchingOperationFields E m data.changes = .ok (some payload) ∧
    (context.needsZoomCheck = true → ∃ z, context.zoomMeeting = some z ∧
      zoomHasRequestedFields E payload z = true ∧ predatesPendingOperation m occurredAt = false)

theorem completedUpdate_sync (fields : Fields) (advance : Bool) :
    (completedUpdate (m.fill fields) occurredAt now advance).sync = m.sync.cleared .active none ∧
      (completedUpdate (m.fill fields) occurredAt now advance).syncStartedAt = m.syncStartedAt := by
  simp [completedUpdate, clearedOperation, Meeting.sync, Sync.cleared]

theorem reconciledEvent_sync (fields : Fields) :
    (reconciledEvent (m.fill fields) occurredAt now).sync = m.sync ∧
      (reconciledEvent (m.fill fields) occurredAt now).syncStartedAt = m.syncStartedAt := by
  simp [reconciledEvent, Meeting.sync]

/-- A pending update is finished on the strength of the event, or the sync columns stay. -/
theorem processPendingUpdate_written
    (h : (processPendingUpdate E m data occurredAt context now).written = some m') :
    m'.syncStartedAt = m.syncStartedAt ∧ (m'.sync = m.sync ∨ m'.sync = m.sync.cleared .active none ∧
      ∃ payload, matchingOperationFields E m data.changes = .ok (some payload) ∧
        (context.needsZoomCheck = true → ∃ z, context.zoomMeeting = some z ∧
          zoomHasRequestedFields E payload z = true ∧ predatesPendingOperation m occurredAt = false)) := by
  unfold processPendingUpdate at h
  split at h
  · cases h
  · cases h
  rename_i payload hp
  split at h
  · split at h
    · cases h
    rename_i z hz
    simp only [Commit.written_wrote, Option.some.injEq] at h
    subst h
    unfold finishPendingUpdateFromZoom
    split
    · exact ⟨rfl, .inl rfl⟩
    rename_i hr
    split
    · exact ⟨(reconciledEvent_sync _).2, .inl (reconciledEvent_sync _).1⟩
    · rename_i hd
      refine ⟨(completedUpdate_sync _ _).2, .inr ⟨(completedUpdate_sync _ _).1, payload, hp, fun _ => ?_⟩⟩
      exact ⟨z, hz, by simpa using hr, by simpa using hd⟩
  · rename_i hn
    cases h
    exact ⟨(completedUpdate_sync _ _).2,
      .inr ⟨(completedUpdate_sync _ _).1, payload, hp, fun hc => absurd hc hn⟩⟩

theorem saveZoomSnapshot_sync (h : (saveZoomSnapshot m occurredAt context now).written = some m') :
    m'.sync = m.sync ∧ m'.syncStartedAt = m.syncStartedAt := by
  unfold saveZoomSnapshot at h
  split at h <;> cases h
  exact reconciledEvent_sync _

theorem saveWebhookChanges_sync (h : (saveWebhookChanges E m data occurredAt).written = some m') :
    m'.sync = m.sync ∧ m'.syncStartedAt = m.syncStartedAt := by
  unfold saveWebhookChanges at h
  split at h
  · cases h
  · cases h
    exact ⟨rfl, rfl⟩
  · split at h <;> cases h
    simp [Meeting.sync]

/-- What the locked transaction can do: leave the sync columns, remove the
meeting, or finish its pending update. -/
theorem processLockedMeeting_written
    (h : (processLockedMeeting E m data occurredAt context now).written = some m') :
    m'.syncStartedAt = m.syncStartedAt ∧ (m'.sync = m.sync ∨ m'.sync = m.sync.cleared .deleted none ∨
      m'.sync = m.sync.cleared .active none ∧ Completes E m data occurredAt context) := by
  unfold processLockedMeeting at h
  split at h
  · cases h
  rename_i hstale
  split at h
  · cases h
  rename_i hdid
  split at h
  · cases h
    exact ⟨rfl, .inr (.inl rfl)⟩
  split at h
  · rename_i hp
    obtain ⟨ht, hs | ⟨hs, hpay⟩⟩ := processPendingUpdate_written h
    · exact ⟨ht, .inl hs⟩
    · exact ⟨ht, .inr (.inr ⟨hs, hp, by simpa using hstale, by simpa using hdid, hpay⟩)⟩
  split at h
  · cases h
  split at h
  · exact ⟨(saveZoomSnapshot_sync h).2, .inl (saveZoomSnapshot_sync h).1⟩
  · exact ⟨(saveWebhookChanges_sync h).2, .inl (saveWebhookChanges_sync h).1⟩

end ZoomMeetingUpdatedWebhookProcessor

/-! ### HandleMeetingUpdatedWebhook -/

namespace HandleMeetingUpdatedWebhook

open ZoomMeetingUpdatedWebhookProcessor

variable (E : Env)

inductive Point where
  | handle (data : MeetingUpdatedWebhookData) (occurredAt : OccurredAt)
  /-- `getMeeting` is with Zoom; `context` still lacks the answer. -/
  | getMeeting (data : MeetingUpdatedWebhookData) (occurredAt : OccurredAt)
      (context : MeetingUpdateWebhookContext)
  | process (data : MeetingUpdatedWebhookData) (occurredAt : OccurredAt)
      (context : MeetingUpdateWebhookContext) (atFetch : Meeting)

/-- The context captured from the row, but for the answer of Zoom. -/
def captureContext (m : Meeting) (needsZoomCheck : Bool) : MeetingUpdateWebhookContext where
  needsZoomCheck := needsZoomCheck
  zoomMeeting := none
  operationId := m.syncOperationId
  reconcileBefore := m.syncReconcileBeforeAt
  providerWatermark := m.lastZoomEventTimestamp

/-- `buildContext`, up to the call of Zoom. -/
def buildContext (m : Meeting) (data : MeetingUpdatedWebhookData) (occurredAt : OccurredAt) : Outcome Point :=
  if isStaleProviderEvent m occurredAt true then .stop
  else
    let needsZoomCheck := if requiresZoomReconciliation m occurredAt then .ok true
      else pendingUpdateMatchesEvent E m data.changes
    match needsZoomCheck with
    | .error _ => .stop
    | .ok true =>
      if m.meetingId = none then .stop else .goOn (.getMeeting data occurredAt (captureContext m true))
    | .ok false => .goOn (.process data occurredAt (captureContext m false) m)

def step : Point → Meeting → Input → Option (Outcome Point)
  | .handle data occurredAt, m, _ =>
    some (if m.sameMeetingId data.meetingId then buildContext E m data occurredAt else .stop)
  | .getMeeting data occurredAt context, m, e =>
    match e.reply with
    | .fetched z => some (.goOn (.process data occurredAt { context with zoomMeeting := z } m))
    | _ => none
  | .process data occurredAt context _, m, e =>
    some (.last (processLockedMeeting E m data occurredAt context e.now))

/-- The whole of `handle`, with no other process in between. `answer` is what
`getMeeting` returns if it is called; `none`: there is no answer to go on with. An
exception before the transaction leaves the row alone. -/
def handleAlone (m : Meeting) (data : MeetingUpdatedWebhookData) (occurredAt : OccurredAt)
    (answer : Option (Option ZoomMeeting)) (now : Time) : Option Commit :=
  if m.sameMeetingId data.meetingId then
    match (buildContext E m data occurredAt).next with
    | some (.process data occurredAt context _) =>
      some (processLockedMeeting E m data occurredAt context now)
    | some (.getMeeting data occurredAt context) =>
      answer.map fun z => processLockedMeeting E m data occurredAt { context with zoomMeeting := z } now
    | _ => some .unchanged
  else some .unchanged

variable {E} {fresh : Uuid → Prop} {m m' : Meeting}

/-- Only the locked transaction writes. -/
theorem step_written {p : Point} {e : Input} {o : Outcome Point} (h : step E p m e = some o)
    (hw : o.written = some m') : ∃ data occurredAt context atFetch,
      p = .process data occurredAt context atFetch ∧
        (processLockedMeeting E m data occurredAt context e.now).written = some m' := by
  cases p with
  | handle data occurredAt =>
    cases h
    split at hw
    · simp only [buildContext] at hw
      split at hw
      · cases hw
      split at hw
      · cases hw
      · split at hw <;> cases hw
      · cases hw
    · cases hw
  | getMeeting data occurredAt context =>
    simp only [step] at h
    split at h <;> cases h
    cases hw
  | process data occurredAt context atFetch =>
    cases h
    exact ⟨data, occurredAt, context, atFetch, rfl, hw⟩

theorem step_moves {p : Point} {e : Input} {o : Outcome Point} (h : step E p m e = some o)
    (hw : o.written = some m') : m.Moves fresh m' := by
  obtain ⟨data, occurredAt, context, atFetch, rfl, hw⟩ := step_written h hw
  obtain ⟨ht, hs | hs | ⟨hs, hc⟩⟩ := processLockedMeeting_written hw
  · exact .keep hs (ht ▸ id)
  · exact ⟨hs ▸ .remove m.sync, ht ▸ id⟩
  · exact ⟨hs ▸ .settle m.sync none (hasPendingUpdate_iff.mp hc.pending).2.2, ht ▸ id⟩

end HandleMeetingUpdatedWebhook

end Daywright
