/-
# The columns a meeting.updated event writes

`fromPayloadObject` takes from the payload of an event the fields that
`MeetingUpdatedWebhookData` accepts. Each branch of the locked transaction then
updates the row with an array of its own; Eloquent leaves out of the statement the
columns that hold the value already, and touches `updated_at`, which is left out
here. The branch that applies the event as it is passes on every field it
accepted, two more than `ZoomMeetingUpdatedWebhookChanges` allows.

Key definitions: `fromPayloadObject`, `writtenColumns`, `AppliesDirectly`, `KeepsFrame`.
Key theorems: `processLockedMeeting_frame`, `keepsFrame_iff`.
-/
import Daywright.Meetings.Program

namespace Daywright

open Php ZoomWebhookSupport ZoomMeetingUpdatedWebhookChanges

/-! ### The event -/

/-- The object of a payload. Of an entry that is no scalar nothing is taken, as of
a null: the two are one here. -/
structure MeetingUpdatedPayload where
  /-- `none`: neither an integer nor a string. -/
  id : Option ZoomId
  entries : Fields
  /-- `settings.join_before_host`. -/
  joinBeforeHost : Value

namespace MeetingUpdatedWebhookData

variable (E : Env) (toDateTimeString : ℤ → String)

def allowedFields : List String :=
  ["topic", "duration", "password", "start_time", "timezone", "uuid", "join_url", "start_url", "agenda"]

/-- Carbon reads the time and writes it, in UTC, in the format of the database. -/
def normalizeStartTime : Value → Option Value
  | .str s => if s = "" then none else (E.carbonParse s).map fun t => .str (toDateTimeString t)
  | _ => none

/-- `addNormalizedField`: what is stored under the name, if anything. -/
def normalizedField (name : String) (value : Value) : Option Value :=
  if name = "duration" then (numeric value).map .int
  else if name = "start_time" then normalizeStartTime E toDateTimeString value
  else match value with
    | .str _ => some value
    | _ => none

def normalizedJoinBeforeHost (value : Value) : Option Value :=
  if value = .null then none else (filterBoolean value).map .bool

def normalizeChanges (payload : MeetingUpdatedPayload) : Fields :=
  allowedFields.filterMap (fun name =>
    (field name payload.entries).bind fun value =>
      (normalizedField E toDateTimeString name value).map fun v => (name, v)) ++
    ((normalizedJoinBeforeHost payload.joinBeforeHost).map fun v => ("join_before_host", v)).toList

theorem name_mem_of_normalizeChanges {payload : MeetingUpdatedPayload} {f : String × Value}
    (hf : f ∈ normalizeChanges E toDateTimeString payload) :
    f.1 ∈ allowedFields ∨ f.1 = "join_before_host" := by
  rcases List.mem_append.mp hf with hf | hf
  · obtain ⟨name, hn, hv⟩ := List.mem_filterMap.mp hf
    obtain ⟨value, -, hv⟩ := Option.bind_eq_some_iff.mp hv
    obtain ⟨v, -, rfl⟩ := Option.map_eq_some_iff.mp hv
    exact .inl hn
  · obtain ⟨v, -, rfl⟩ := Option.map_eq_some_iff.mp (Option.mem_toList.mp hf)
    exact .inr rfl

/-- `none`: the id is missing. -/
def fromPayloadObject (payload : MeetingUpdatedPayload) : Option MeetingUpdatedWebhookData :=
  payload.id.map fun id =>
    { meetingId := id
      changes := normalizeChanges E toDateTimeString payload
      accepted := fun f hf => by
        rcases name_mem_of_normalizeChanges E toDateTimeString hf with h | h
        · simp only [allowedFields, List.mem_cons, List.not_mem_nil, or_false] at h ⊢
          tauto
        · simp [h] }

end MeetingUpdatedWebhookData

/-! ### The statement of each branch -/

namespace ZoomMeetingUpdatedWebhookProcessor

variable (E : Env)

/-- The columns of a statement that updates the row with these fields: those whose
value is new, and every name that is no column of the table. -/
def dirty (m : Meeting) (fields : Fields) : List String :=
  (fields.filter fun f =>
    !Meeting.contentColumns.contains f.1 || m.attributes f.1 != Meeting.column f.2).map (·.1)

def clearedOperationColumns : List String :=
  ["sync_operation_id", "sync_operation_type", "sync_payload", "sync_error", "sync_claim_token",
    "sync_lease_expires_at", "sync_available_at"]

def completedUpdateColumns (advanceReconciliationCutoff : Bool) : List String :=
  "sync_status" :: clearedOperationColumns ++ ["last_zoom_event_timestamp", "synced_at"] ++
    if advanceReconciliationCutoff then ["sync_reconcile_before_at"] else []

def reconciledEventColumns : List String :=
  ["last_zoom_event_timestamp", "synced_at", "sync_reconcile_before_at"]

def markMeetingDeletedColumns (occurredAt : OccurredAt) : List String :=
  "sync_status" :: clearedOperationColumns ++ ["synced_at"] ++
    if occurredAt.isSome then ["last_zoom_event_timestamp"] else []

def finishPendingUpdateFromZoomColumns (m : Meeting) (occurredAt : OccurredAt) (payload : Fields)
    (remoteMeeting : ZoomMeeting) : List String :=
  if !zoomHasRequestedFields E payload remoteMeeting then ["last_zoom_event_timestamp"]
  else if predatesPendingOperation m occurredAt then
    dirty m (fieldsFromZoom remoteMeeting) ++ reconciledEventColumns
  else dirty m (fieldsFromZoom remoteMeeting) ++ completedUpdateColumns true

def processPendingUpdateColumns (m : Meeting) (data : MeetingUpdatedWebhookData) (occurredAt : OccurredAt)
    (context : MeetingUpdateWebhookContext) : List String :=
  match matchingOperationFields E m data.changes with
  | .ok (some payload) =>
    if context.needsZoomCheck then
      (context.zoomMeeting.map (finishPendingUpdateFromZoomColumns E m occurredAt payload)).getD []
    else dirty m (payload ++ otherAllowedFields payload data.changes) ++ completedUpdateColumns false
  | _ => []

def saveZoomSnapshotColumns (m : Meeting) (context : MeetingUpdateWebhookContext) : List String :=
  (context.zoomMeeting.map fun z => dirty m (fieldsFromZoom z) ++ reconciledEventColumns).getD []

def saveWebhookChangesColumns (m : Meeting) (data : MeetingUpdatedWebhookData) : List String :=
  match hasChanges E m data.changes with
  | none => []
  | some false => ["last_zoom_event_timestamp"]
  | some true => dirty m data.changes ++ ["last_zoom_event_timestamp"]

/-- The columns of the update that the locked transaction runs; none if it runs
none. A statement that names a column the table lacks fails. -/
def writtenColumns (m : Meeting) (data : MeetingUpdatedWebhookData) (occurredAt : OccurredAt)
    (context : MeetingUpdateWebhookContext) : List String :=
  if isStaleProviderEvent m occurredAt true then []
  else if !didNotChange m context then []
  else if context.isMissingAtZoom then markMeetingDeletedColumns occurredAt
  else if hasPendingUpdate m then processPendingUpdateColumns E m data occurredAt context
  else if !ensureActiveSyncStatus m then []
  else if context.needsZoomCheck then saveZoomSnapshotColumns m context
  else saveWebhookChangesColumns E m data

/-! ### The statement and the row -/

/-- `m'` has `m`'s values but for the columns written. -/
structure Frame (m m' : Meeting) (columns : List String) : Prop where
  attributes : ∀ name, m'.attributes name ≠ m.attributes name → name ∈ columns
  meetingId : m'.meetingId = m.meetingId
  status : m'.status = m.status
  startedNotification : m'.startedNotificationPendingAt = m.startedNotificationPendingAt
  endedNotification : m'.endedNotificationPendingAt = m.endedNotificationPendingAt
  started : m'.syncStartedAt = m.syncStartedAt
  attempts : m'.syncAttempts = m.syncAttempts

variable {E} {m m' : Meeting} {data : MeetingUpdatedWebhookData} {occurredAt : OccurredAt}
  {context : MeetingUpdateWebhookContext} {now : Time} {columns : List String}

/-- A column that `update` changes is in its statement. -/
theorem mem_dirty_of_fill {fields : Fields} {name : String}
    (h : (m.fill fields).attributes name ≠ m.attributes name) : name ∈ dirty m fields := by
  rcases Meeting.fill_attributes fields name m with ⟨-, h'⟩ | ⟨f, hf, rfl, h'⟩
  · exact absurd h' h
  · refine List.mem_map.mpr ⟨f, List.mem_filter.mpr ⟨hf, ?_⟩, rfl⟩
    rw [h'] at h
    simp [Ne.symm h]

/-- Only sync columns are written besides the fields. -/
theorem Frame.of_fill (fields : Fields) (hd : ∀ c ∈ dirty m fields, c ∈ columns)
    (h : m' = { m.fill fields with
      syncStatus := m'.syncStatus
      syncError := m'.syncError
      syncedAt := m'.syncedAt
      syncOperationId := m'.syncOperationId
      syncOperationType := m'.syncOperationType
      syncPayload := m'.syncPayload
      syncClaimToken := m'.syncClaimToken
      syncReconcileBeforeAt := m'.syncReconcileBeforeAt
      syncLeaseExpiresAt := m'.syncLeaseExpiresAt
      syncAvailableAt := m'.syncAvailableAt
      lastZoomEventTimestamp := m'.lastZoomEventTimestamp }) : Frame m m' columns := by
  rw [Meeting.fill_eq] at h
  rw [h]
  exact ⟨fun name hn => hd _ (mem_dirty_of_fill hn), rfl, rfl, rfl, rfl, rfl, rfl⟩

theorem finishPendingUpdateFromZoom_frame (payload : Fields) (z : ZoomMeeting) :
    Frame m (finishPendingUpdateFromZoom E m occurredAt payload z now)
      (finishPendingUpdateFromZoomColumns E m occurredAt payload z) := by
  unfold finishPendingUpdateFromZoom finishPendingUpdateFromZoomColumns
  split
  · exact .of_fill [] (by simp [dirty]) rfl
  split
  · exact .of_fill _ (fun c hc => List.mem_append_left _ hc) rfl
  · exact .of_fill _ (fun c hc => List.mem_append_left _ hc) rfl

theorem processPendingUpdate_frame
    (h : (processPendingUpdate E m data occurredAt context now).written = some m') :
    Frame m m' (processPendingUpdateColumns E m data occurredAt context) := by
  unfold processPendingUpdate at h
  unfold processPendingUpdateColumns
  split at h
  · cases h
  · cases h
  rename_i payload hp
  simp only [hp]
  split at h
  · rename_i hc
    rw [if_pos hc]
    split at h
    · cases h
    · rename_i z hz
      cases h
      rw [hz]
      exact finishPendingUpdateFromZoom_frame payload z
  · rename_i hc
    rw [if_neg hc]
    cases h
    exact .of_fill _ (fun c hc => List.mem_append_left _ hc) rfl

theorem saveZoomSnapshot_frame (h : (saveZoomSnapshot m occurredAt context now).written = some m') :
    Frame m m' (saveZoomSnapshotColumns m context) := by
  unfold saveZoomSnapshot at h
  unfold saveZoomSnapshotColumns
  split at h
  · cases h
  · rename_i z hz
    cases h
    rw [hz]
    exact .of_fill _ (fun c hc => List.mem_append_left _ hc) rfl

theorem saveWebhookChanges_frame (h : (saveWebhookChanges E m data occurredAt).written = some m') :
    Frame m m' (saveWebhookChangesColumns E m data) := by
  unfold saveWebhookChanges at h
  split at h
  · cases h
  · rename_i hc
    have hcolumns : saveWebhookChangesColumns E m data = ["last_zoom_event_timestamp"] := by
      simp [saveWebhookChangesColumns, hc]
    cases h
    rw [hcolumns]
    exact .of_fill [] (by simp [dirty]) rfl
  · rename_i hc
    have hcolumns : saveWebhookChangesColumns E m data = dirty m data.changes ++ ["last_zoom_event_timestamp"] := by
      simp [saveWebhookChangesColumns, hc]
    split at h <;> cases h
    rw [hcolumns]
    exact .of_fill _ (fun c hc => List.mem_append_left _ hc) rfl

/-- **The row changes in the columns of the statement only.** -/
theorem processLockedMeeting_frame
    (h : (processLockedMeeting E m data occurredAt context now).written = some m') :
    Frame m m' (writtenColumns E m data occurredAt context) := by
  unfold processLockedMeeting at h
  unfold writtenColumns
  split at h
  · cases h
  rename_i hs
  rw [if_neg hs]
  split at h
  · cases h
  rename_i hd
  rw [if_neg hd]
  split at h
  · rename_i hm
    rw [if_pos hm]
    cases h
    exact .of_fill [] (by simp [dirty]) rfl
  rename_i hm
  rw [if_neg hm]
  split at h
  · rename_i hp
    rw [if_pos hp]
    exact processPendingUpdate_frame h
  rename_i hp
  rw [if_neg hp]
  split at h
  · cases h
  rename_i ha
  rw [if_neg ha]
  split at h
  · rename_i hc
    rw [if_pos hc]
    exact saveZoomSnapshot_frame h
  · rename_i hc
    rw [if_neg hc]
    exact saveWebhookChanges_frame h

/-! ### The columns that may be written -/

/-- The bookkeeping of the synchronisation. -/
def syncColumns : List String :=
  ["sync_operation_id", "sync_operation_type", "sync_payload", "sync_claim_token", "sync_started_at",
    "sync_reconcile_before_at", "sync_lease_expires_at", "sync_available_at", "sync_status", "sync_error",
    "sync_attempts", "synced_at", "last_zoom_event_timestamp"]

/-- The columns of the meetings table, after all migrations. -/
def tableColumns : List String :=
  ["id", "user_id", "project_id", "meeting_id", "topic", "agenda", "duration", "password", "join_url",
    "start_url", "start_time", "status", "join_before_host", "timezone", "created_at", "updated_at",
    "is_programmatic_update", "started_notification_sent_at", "ended_notification_sent_at",
    "started_notification_pending_at", "ended_notification_pending_at"] ++ syncColumns

def Permitted (column : String) : Prop :=
  column ∈ ZoomMeetingUpdatedWebhookChanges.allowedFields ∨ column ∈ syncColumns

/-- What the columns of a statement must be. -/
structure KeepsFrame (columns : List String) : Prop where
  permitted : ∀ c ∈ columns, Permitted c
  kept : ∀ c ∈ ["meeting_id", "project_id", "user_id", "start_url", "status"], c ∉ columns
  present : ∀ c ∈ columns, c ∈ tableColumns

instance (column : String) : Decidable (Permitted column) := inferInstanceAs (Decidable (_ ∨ _))

theorem Permitted.mem_tableColumns {column : String} (h : Permitted column) : column ∈ tableColumns := by
  rcases h with h | h
  · have : ∀ c ∈ ZoomMeetingUpdatedWebhookChanges.allowedFields, c ∈ tableColumns := by decide
    exact this _ h
  · exact List.mem_append_right _ h

theorem keepsFrame_iff_permitted : KeepsFrame columns ↔ ∀ c ∈ columns, Permitted c := by
  refine ⟨fun h => h.permitted, fun h => ⟨h, fun c hc hm => ?_, fun c hc => (h c hc).mem_tableColumns⟩⟩
  have : ∀ c ∈ ["meeting_id", "project_id", "user_id", "start_url", "status"], ¬ Permitted c := by decide
  exact this c hc (h c hm)

theorem KeepsFrame.nil : KeepsFrame [] := keepsFrame_iff_permitted.mpr (by simp)

theorem KeepsFrame.append {columns' : List String} (h : KeepsFrame columns) (h' : KeepsFrame columns') :
    KeepsFrame (columns ++ columns') :=
  keepsFrame_iff_permitted.mpr fun c hc =>
    (List.mem_append.mp hc).elim (h.permitted c) (h'.permitted c)

/-- Bookkeeping alone. -/
theorem KeepsFrame.of_sync (h : ∀ c ∈ columns, c ∈ syncColumns) : KeepsFrame columns :=
  keepsFrame_iff_permitted.mpr fun c hc => .inr (h c hc)

theorem mem_dirty {fields : Fields} {c : String} : c ∈ dirty m fields ↔
    ∃ f ∈ fields, (f.1 ∉ Meeting.contentColumns ∨ m.attributes f.1 ≠ Meeting.column f.2) ∧ f.1 = c := by
  simp [dirty, and_assoc]

theorem keepsFrame_dirty {fields : Fields}
    (h : ∀ f ∈ fields, f.1 ∈ ZoomMeetingUpdatedWebhookChanges.allowedFields) : KeepsFrame (dirty m fields) :=
  keepsFrame_iff_permitted.mpr fun c hc => by
    obtain ⟨f, hf, -, rfl⟩ := mem_dirty.mp hc
    exact .inl (h f hf)

theorem keepsFrame_snapshot (z : ZoomMeeting) : KeepsFrame (dirty m (fieldsFromZoom z)) :=
  keepsFrame_dirty fun f hf => by
    simp only [fieldsFromZoom, List.mem_cons, List.not_mem_nil, or_false] at hf
    rcases hf with rfl | rfl | rfl | rfl | rfl | rfl | rfl | rfl <;>
      simp [ZoomMeetingUpdatedWebhookChanges.allowedFields]

theorem keepsFrame_completedUpdate (advance : Bool) : KeepsFrame (completedUpdateColumns advance) :=
  .of_sync (by cases advance <;> decide)

theorem keepsFrame_reconciledEvent : KeepsFrame reconciledEventColumns := .of_sync (by decide)

/-- The payload of an operation that an event matches names allowed fields only. -/
theorem allowed_of_matching {payload : Fields}
    (h : matchingOperationFields E m data.changes = .ok (some payload)) :
    ∀ f ∈ payload, f.1 ∈ ZoomMeetingUpdatedWebhookChanges.allowedFields := by
  have hd := decodePayload_of_matching h
  simp only [matchingOperationFields, hd, Except.map, Option.bind_some, Except.ok.injEq,
    validateMatchingFields, Option.ite_none_right_eq_some, List.all_eq_true, Bool.and_eq_true] at h
  exact fun f hf => List.contains_iff_mem.mp (h.1 f hf).1

theorem keepsFrame_processPendingUpdate :
    KeepsFrame (processPendingUpdateColumns E m data occurredAt context) := by
  unfold processPendingUpdateColumns
  split
  · rename_i payload hp
    split
    · cases context.zoomMeeting with
      | none => exact .nil
      | some z =>
        simp only [Option.map_some, Option.getD_some, finishPendingUpdateFromZoomColumns]
        split
        · exact .of_sync (by decide)
        split
        · exact (keepsFrame_snapshot z).append keepsFrame_reconciledEvent
        · exact (keepsFrame_snapshot z).append (keepsFrame_completedUpdate true)
    · refine (keepsFrame_dirty fun f hf => ?_).append (keepsFrame_completedUpdate false)
      rcases List.mem_append.mp hf with hf | hf
      · exact allowed_of_matching hp f hf
      · have := (List.mem_filter.mp hf).2
        rw [Bool.and_eq_true] at this
        exact List.contains_iff_mem.mp this.1
  · exact .nil

theorem keepsFrame_saveZoomSnapshot : KeepsFrame (saveZoomSnapshotColumns m context) := by
  unfold saveZoomSnapshotColumns
  cases context.zoomMeeting with
  | none => exact .nil
  | some z => exact (keepsFrame_snapshot z).append keepsFrame_reconciledEvent

/-- The event is applied as it is, with a change: what the row, the event and the
context must be for it. -/
structure AppliesDirectly (E : Env) (m : Meeting) (data : MeetingUpdatedWebhookData) (occurredAt : OccurredAt)
    (context : MeetingUpdateWebhookContext) : Prop where
  fresh : isStaleProviderEvent m occurredAt true = false
  unchanged : didNotChange m context = true
  settled : hasPendingUpdate m = false
  active : ensureActiveSyncStatus m = true
  unchecked : context.needsZoomCheck = false
  changes : hasChanges E m data.changes = some true

/-- The event carries a uuid, or a start url that is not the row's. -/
def CarriesMore (m : Meeting) (data : MeetingUpdatedWebhookData) : Prop :=
  ∃ f ∈ data.changes, f.1 = "uuid" ∨ f.1 = "start_url" ∧ m.attributes "start_url" ≠ Meeting.column f.2

theorem keepsFrame_dirty_changes : KeepsFrame (dirty m data.changes) ↔ ¬ CarriesMore m data := by
  rw [keepsFrame_iff_permitted]
  constructor
  · rintro h ⟨f, hf, hn | ⟨hn, hne⟩⟩
    · have : ¬ Permitted "uuid" := by decide
      exact this (h _ (mem_dirty.mpr ⟨f, hf, .inl (by rw [hn]; decide), hn⟩))
    · have : ¬ Permitted "start_url" := by decide
      exact this (h _ (mem_dirty.mpr ⟨f, hf, .inr (by rw [hn]; exact hne), hn⟩))
  · intro h c hc
    obtain ⟨f, hf, hd, rfl⟩ := mem_dirty.mp hc
    by_cases hu : f.1 = "uuid"
    · exact absurd ⟨f, hf, .inl hu⟩ h
    by_cases hs : f.1 = "start_url"
    · refine absurd ⟨f, hf, .inr ⟨hs, ?_⟩⟩ h
      rw [hs] at hd
      exact hd.resolve_left (by decide)
    · have := data.accepted f hf
      simp only [List.mem_cons, hu, hs, List.not_mem_nil, or_false, false_or] at this
      refine .inl ?_
      simp only [ZoomMeetingUpdatedWebhookChanges.allowedFields, List.mem_cons, List.not_mem_nil, or_false]
      tauto

/-- **Every branch writes allowed fields and bookkeeping only**, but for an event
applied as it is that carries more. -/
theorem keepsFrame_iff : KeepsFrame (writtenColumns E m data occurredAt context) ↔
    ¬ (AppliesDirectly E m data occurredAt context ∧ CarriesMore m data) := by
  have other (hk : KeepsFrame (writtenColumns E m data occurredAt context))
      (hn : ¬ AppliesDirectly E m data occurredAt context) :
      KeepsFrame (writtenColumns E m data occurredAt context) ↔
        ¬ (AppliesDirectly E m data occurredAt context ∧ CarriesMore m data) :=
    ⟨fun _ h => hn h.1, fun _ => hk⟩
  by_cases hs : isStaleProviderEvent m occurredAt true
  · exact other (by simp [writtenColumns, hs, KeepsFrame.nil]) fun h => by simp [h.fresh] at hs
  by_cases hd : didNotChange m context
  swap
  · exact other (by simp [writtenColumns, hs, hd, KeepsFrame.nil]) fun h => hd h.unchanged
  by_cases hm : context.isMissingAtZoom
  · refine other ?_ fun h => by simp [MeetingUpdateWebhookContext.isMissingAtZoom, h.unchecked] at hm
    simp only [writtenColumns, hs, hd, hm, Bool.not_true, Bool.false_eq_true, if_false, if_true]
    refine .of_sync ?_
    cases occurredAt <;> simp [markMeetingDeletedColumns, clearedOperationColumns, syncColumns]
  by_cases hp : hasPendingUpdate m
  · refine other ?_ fun h => by simp [h.settled] at hp
    simp only [writtenColumns, hs, hd, hm, hp, Bool.not_true, Bool.false_eq_true, if_false, if_true]
    exact keepsFrame_processPendingUpdate
  by_cases ha : ensureActiveSyncStatus m
  swap
  · exact other (by simp [writtenColumns, hs, hd, hm, hp, ha, KeepsFrame.nil]) fun h => ha h.active
  by_cases hc : context.needsZoomCheck
  · refine other ?_ fun h => by simp [h.unchecked] at hc
    simp only [writtenColumns, hs, hd, hm, hp, ha, hc, Bool.not_true, Bool.false_eq_true, if_false, if_true]
    exact keepsFrame_saveZoomSnapshot
  have hw : writtenColumns E m data occurredAt context = saveWebhookChangesColumns E m data := by
    simp [writtenColumns, hs, hd, hm, hp, ha, hc]
  have bookkeeping : KeepsFrame ["last_zoom_event_timestamp"] := .of_sync (by decide)
  rw [hw]
  cases hch : hasChanges E m data.changes with
  | none =>
    rw [← hw]
    refine other (by simp [hw, saveWebhookChangesColumns, hch, KeepsFrame.nil]) fun h => ?_
    simp [h.changes] at hch
  | some changed =>
    cases changed with
    | false =>
      rw [← hw]
      refine other (by simpa [hw, saveWebhookChangesColumns, hch] using bookkeeping) fun h => ?_
      simp [h.changes] at hch
    | true =>
      have happ : AppliesDirectly E m data occurredAt context :=
        ⟨by simpa using hs, hd, by simpa using hp, ha, by simpa using hc, hch⟩
      simp only [saveWebhookChangesColumns, hch, happ, true_and]
      rw [← keepsFrame_dirty_changes]
      refine ⟨fun h => keepsFrame_iff_permitted.mpr fun c hc => ?_, fun h => h.append bookkeeping⟩
      exact h.permitted c (List.mem_append_left _ hc)

/-! ### An event that carries a start url -/

def samplePayload (name value : String) : MeetingUpdatedPayload := ⟨some 77, [(name, .str value)], .null⟩

/-- The start url of an event is stored; a uuid is, in the statement, a column that
the table does not have. -/
theorem not_keepsFrame : ¬ ∀ (E : Env) (toDateTimeString : ℤ → String) (payload : MeetingUpdatedPayload)
    (data : MeetingUpdatedWebhookData) (m : Meeting) (occurredAt : OccurredAt)
    (context : MeetingUpdateWebhookContext),
    MeetingUpdatedWebhookData.fromPayloadObject E toDateTimeString payload = some data →
      KeepsFrame (writtenColumns E m data occurredAt context) := by
  intro h
  have hk := h Meetings.Sample.env (fun _ => "") (samplePayload "start_url" "https://zoom.us/s/78") _
    Meetings.Sample.meeting (some 5000)
    (HandleMeetingUpdatedWebhook.captureContext Meetings.Sample.meeting false) rfl
  exact hk.kept "start_url" (by decide) (by decide)

end ZoomMeetingUpdatedWebhookProcessor
end Daywright
