/-
# The columns that Zoom's events set

The watermark and the runtime status of a meeting are told by Zoom: `Told` lists
what a write of any process may do to them. Local requests and recoveries write
neither, but for the runtime status that a creation returns with. So the watermark
never falls back (`watermark_mono`), whatever the order of the events, and a
meeting.updated event older than it at its locked write changes nothing.

Key definitions: `Told`, `WatermarkLe`.
Key theorems: `act_told`, `watermark_mono`.
-/
import Daywright.Meetings.Outline

namespace Daywright

/-! ### Transactions that leave both alone -/

def Meeting.told (m : Meeting) : Option ℤ × Option String := (m.lastZoomEventTimestamp, m.status)

namespace Commit

/-- Whatever is written has the watermark and the runtime status of `m`. -/
def Keeps (m : Meeting) (c : Commit) : Prop := ∀ m', c.written = some m' → m'.told = m.told

variable {m : Meeting}

theorem Keeps.wrote {m' : Meeting} (h : m'.told = m.told) : (Commit.wrote m').Keeps m := by
  rintro _ ⟨⟩
  exact h

theorem Keeps.unchanged : Commit.unchanged.Keeps m := by
  rintro _ ⟨⟩

theorem Keeps.throws (e : Throwable) : (Commit.throws e).Keeps m := by
  rintro _ ⟨⟩

theorem Keeps.afterTransition {moved : Except Throwable Meeting} {change : Meeting → Meeting}
    (hm : ∀ m₁, moved = .ok m₁ → m₁.told = m.told) (hc : ∀ m₁, (change m₁).told = m₁.told) :
    (Commit.afterTransition moved change).Keeps m := by
  intro m' hw
  obtain ⟨m₁, h₁, rfl⟩ := afterTransition_written hw
  exact (hc m₁).trans (hm m₁ h₁)

theorem Keeps.executeWithOperationIdCheck {operationId : Uuid} {callback : Meeting → Meeting}
    (h : (callback m).told = m.told) : (executeWithOperationIdCheck m operationId callback).Keeps m := by
  intro m' hw
  rw [(executeWithOperationIdCheck_written hw).2]
  exact h

theorem Keeps.ifOwned {job : RecoverZoomMeetingOperationJob} {now : Time} {c : Commit} (h : c.Keeps m) :
    (PerformZoomMeetingRecovery.ifOwned job m now c).Keeps m :=
  fun m' hw => h m' (PerformZoomMeetingRecovery.ifOwned_written hw).2

end Commit

open Commit

theorem Meeting.told_of_transition {m m₁ : Meeting} {newStatus : MeetingSyncStatus}
    (h : m.transitionTo newStatus = .ok m₁) : m₁.told = m.told := by
  rw [(Meeting.transitionTo_ok h).2]
  rfl

/-- A transition that is only taken from some statuses. -/
theorem Meeting.told_of_transition_or {m m₁ : Meeting} {newStatus : MeetingSyncStatus} {c : Prop} [Decidable c]
    (h : (if c then m.transitionTo newStatus else .ok m) = .ok m₁) : m₁.told = m.told := by
  split at h
  · exact told_of_transition h
  · cases h
    rfl

@[simp] theorem Meeting.told_fill (m : Meeting) (fields : List (String × Php.Value)) :
    (m.fill fields).told = m.told := by
  rw [Meeting.fill_eq]
  rfl

variable {m m' : Meeting} {now : Time}

namespace CreateProjectMeeting

theorem handleMeetingIdConflict_keeps : (handleMeetingIdConflict m).Keeps m :=
  .afterTransition (fun _ => Meeting.told_of_transition_or) fun _ => rfl

theorem markMeetingAsFailed_keeps (e : Throwable) : (markMeetingAsFailed m e).Keeps m := by
  unfold markMeetingAsFailed
  split
  · exact .unchanged
  · exact .afterTransition (fun _ => Meeting.told_of_transition) fun _ => rfl

theorem markMeetingAsCreateUnknown_keeps (e : Throwable) : (markMeetingAsCreateUnknown m e now).Keeps m := by
  unfold markMeetingAsCreateUnknown
  split
  · exact .unchanged
  split
  · exact .unchanged
  · exact .afterTransition (fun _ => Meeting.told_of_transition_or) fun _ => rfl

/-- The creation is recorded, with the runtime status it returned. -/
theorem finalizeMeetingAsActive_told {z : ZoomMeeting}
    (h : (finalizeMeetingAsActive m z now).written = some m') :
    m'.told = (m.told.1, some z.status) ∧ m'.syncStatus = .active := by
  obtain ⟨m₁, h₁, rfl⟩ := afterTransition_written h
  rw [(Meeting.transitionTo_ok h₁).2]
  exact ⟨rfl, rfl⟩

theorem markMeetingAsSynced_told {z : ZoomMeeting} (h : (markMeetingAsSynced m z now).written = some m') :
    m'.told = m.told ∨ (m'.told = (m.told.1, some z.status) ∧ m'.syncStatus = .active) ∧
      (m.syncStatus.IsCreation ∨ ActivatesLate m z) := by
  have recorded (hc : ¬ hasConflictingMeetingId m z = true)
      (hf : (finalizeMeetingAsActive m z now).written = some m') :
      (m'.told = (m.told.1, some z.status) ∧ m'.syncStatus = .active) ∧
        (m.syncStatus.IsCreation ∨ ActivatesLate m z) := by
    refine ⟨finalizeMeetingAsActive_told hf, ?_⟩
    rcases Meeting.active_mem_validTransitions.mp (finalizeMeetingAsActive_written hf).1 with
      h | h | h | h | h
    · exact .inl (.inl h)
    · exact .inl (.inr (.inl h))
    · exact .inl (.inr (.inr (.inl h)))
    · exact .inl (.inr (.inr (.inr h)))
    · exact .inr ⟨eq_false_of_ne_true hc, h⟩
  unfold markMeetingAsSynced handleCreateUnknownState at h
  split_ifs at h with h1 h2 h3 h4
  · cases h
  · exact .inl (handleMeetingIdConflict_keeps m' h)
  · cases h
  · exact .inr (recorded h2 h)
  · exact .inr (recorded h2 h)

theorem syncWithZoom_told {reply : Reply} {c : Commit} (h : syncWithZoom m reply now = some c)
    (hw : c.written = some m') : m'.told = m.told ∨ ∃ z, reply = .created z ∧
      (m'.told = (m.told.1, some z.status) ∧ m'.syncStatus = .active) ∧
        (m.syncStatus.IsCreation ∨ ActivatesLate m z) := by
  unfold syncWithZoom at h
  split at h
  · cases h
    exact (markMeetingAsSynced_told hw).imp_right fun h => ⟨_, rfl, h⟩
  · cases h
    exact .inl (markMeetingAsCreateUnknown_keeps _ m' hw)
  · cases h
    split at hw
    · exact .inl (markMeetingAsFailed_keeps _ m' hw)
    · cases hw
  · cases h

end CreateProjectMeeting

namespace UpdateProjectMeeting

theorem saveUpdateIntent_keeps (operationId : Uuid) (payload : SyncPayload) :
    (saveUpdateIntent m operationId payload now).Keeps m := by
  unfold saveUpdateIntent
  split
  · exact .throws _
  · exact .wrote rfl

theorem handleReply_keeps {data : MeetingUpdateData} {operationId : Uuid} {reply : Reply} {c : Commit}
    (h : handleReply m data operationId reply now = some c) : c.Keeps m := by
  unfold handleReply at h
  split at h <;> cases h
  · split
    · exact .executeWithOperationIdCheck rfl
    · exact .executeWithOperationIdCheck (Meeting.told_fill m _)
  · exact .executeWithOperationIdCheck rfl
  · exact .executeWithOperationIdCheck rfl
  · split
    · exact .executeWithOperationIdCheck rfl
    · exact .unchanged

theorem step_keeps {p : Point} {e : Input} {o : Outcome Point} (h : step p m e = some o)
    (hw : o.written = some m') : m'.told = m.told := by
  cases p with
  | saveUpdateIntent data =>
    simp only [step] at h
    split at h <;> cases h
    · rename_i hc
      exact saveUpdateIntent_keeps _ _ m' (by rw [hc]; exact hw)
    · cases hw
  | updateInZoom data operationId =>
    obtain ⟨c, hc, rfl⟩ := Option.map_eq_some_iff.mp h
    exact handleReply_keeps hc m' hw

end UpdateProjectMeeting

namespace DeleteProjectMeeting

theorem saveDeleteIntent_keeps (operationId : Uuid) : (saveDeleteIntent m operationId now).Keeps m := by
  unfold saveDeleteIntent
  split
  · exact .unchanged
  split
  · exact .throws _
  split
  · exact .throws _
  · exact .wrote rfl

theorem handleReply_keeps {operationId : Uuid} {reply : Reply} {c : Commit}
    (h : handleReply m operationId reply now = some c) : c.Keeps m := by
  unfold handleReply at h
  split at h <;> cases h
  · exact .executeWithOperationIdCheck rfl
  · exact .executeWithOperationIdCheck rfl
  · exact .executeWithOperationIdCheck rfl
  · exact .executeWithOperationIdCheck rfl
  · split
    · exact .executeWithOperationIdCheck rfl
    · exact .unchanged

theorem step_keeps {p : Point} {e : Input} {o : Outcome Point} (h : step p m e = some o)
    (hw : o.written = some m') : m'.told = m.told := by
  cases p with
  | handle =>
    cases h
    split at hw <;> cases hw
  | saveDeleteIntent =>
    simp only [step] at h
    split at h <;> cases h
    · rename_i hc
      exact saveDeleteIntent_keeps _ m' (by rw [hc]; exact hw)
    · cases hw
  | deleteFromZoom operationId =>
    obtain ⟨c, hc, rfl⟩ := Option.map_eq_some_iff.mp h
    exact handleReply_keeps hc m' hw

end DeleteProjectMeeting

namespace PerformZoomMeetingRecovery

variable {E : Env} {job : RecoverZoomMeetingOperationJob}

theorem applyUpdateLocally_keeps (updateData : Fields) : (applyUpdateLocally job m updateData now).Keeps m :=
  .ifOwned (.wrote (Meeting.told_fill m _))

theorem finalizeMeetingAsDeleted_keeps : (finalizeMeetingAsDeleted job m now).Keeps m := .ifOwned (.wrote rfl)

theorem scheduleVerification_keeps (delaySeconds : ℕ) (e : Option Throwable) :
    (scheduleVerification job m delaySeconds e now).Keeps m :=
  .ifOwned (.wrote rfl)

theorem manualReview_keeps (reason : String) : (manualReview job m reason now).Keeps m := by
  refine .ifOwned ?_
  cases m.syncOperationType with
  | none => exact .unchanged
  | some t =>
    cases t with
    | create => exact .unchanged
    | update => exact .wrote rfl
    | delete => exact .wrote rfl

theorem consumeMismatchCycle_keeps : (consumeMismatchCycle job m now).Keeps m := by
  refine .ifOwned (.wrote ?_)
  split <;> rfl

theorem scheduleRetry_keeps (e : Option Throwable) : (scheduleRetry job m e now).Keeps m := by
  refine .ifOwned ?_
  split
  · exact .wrote rfl
  · exact manualReview_keeps _

theorem step_keeps {stage : Stage} {e : Input} {o : Outcome Stage} (h : step E job stage m e = some o)
    (hw : o.written = some m') : m'.told = m.told := by
  cases step_writes h hw with
  | stamp currentMeeting payload password hs =>
    subst hs
    rfl
  | delete hd => exact finalizeMeetingAsDeleted_keeps m' hd
  | apply updateData ha => exact applyUpdateLocally_keeps updateData m' ha
  | consume hc => exact consumeMismatchCycle_keeps m' hc
  | verify delaySeconds t hv => exact scheduleVerification_keeps delaySeconds t m' hv
  | retry t hr => exact scheduleRetry_keeps t m' hr
  | review reason hr => exact manualReview_keeps reason m' hr

end PerformZoomMeetingRecovery

namespace FinalizeZoomMeetingRecovery

/-- The recovery records the runtime status of the meeting it found. -/
theorem execute_told {claimToken : Option Uuid} {z : ZoomMeeting}
    (h : (execute m claimToken z now).written = some m') :
    m'.told = m.told ∨ (m'.told = (m.told.1, some z.status) ∧ m'.syncStatus = .active) ∧
      m.syncStatus = .createUnknown := by
  unfold execute at h
  split_ifs at h with h1 h2
  · cases h
  · cases h
    exact .inl rfl
  · obtain ⟨m₁, h₁, rfl⟩ := afterTransition_written h
    rw [(Meeting.transitionTo_ok h₁).2]
    exact .inr ⟨⟨rfl, rfl⟩, createUnknown_of_canFinalize (by simpa using h1)⟩

end FinalizeZoomMeetingRecovery

namespace RecoverAmbiguousZoomMeeting

open FinalizeZoomMeetingRecovery

variable {E : Env}

theorem claim_keeps (claimToken : Uuid) : (claim m claimToken now).Keeps m := by
  unfold claim
  split
  · exact .wrote rfl
  · exact .unchanged

theorem scheduleRetry_keeps (claimToken : Uuid) (e : Option Throwable) :
    (scheduleRetry m claimToken e now).Keeps m := by
  unfold scheduleRetry
  split
  · exact .unchanged
  split
  · exact .wrote rfl
  · exact .wrote rfl

theorem requireManualReview_keeps (claimToken : Uuid) : (requireManualReview m claimToken now).Keeps m := by
  unfold requireManualReview
  split
  · exact .wrote rfl
  · exact .unchanged

theorem step_told {p : Point} {e : Input} {o : Outcome Point} (h : step E p m e = some o)
    (hw : o.written = some m') :
    m'.told = m.told ∨ ∃ z : ZoomMeeting, (m'.told = (m.told.1, some z.status) ∧ m'.syncStatus = .active) ∧
      m.syncStatus = .createUnknown := by
  cases step_writes h hw with
  | claim meeting hc => exact .inl (claim_keeps _ m' hc)
  | finalize claimToken z hx => exact (execute_told hx).imp_right fun h => ⟨z, h⟩
  | review claimToken hr => exact .inl (requireManualReview_keeps _ m' hr)
  | retry claimToken t hr => exact .inl (scheduleRetry_keeps _ _ m' hr)

end RecoverAmbiguousZoomMeeting

namespace ResolveAmbiguousZoomMeetingManually

variable {E : Env}

theorem markNotCreated_keeps : (markNotCreated m).Keeps m := by
  unfold markNotCreated
  split
  · exact .throws _
  · exact .afterTransition (fun _ => Meeting.told_of_transition) fun _ => rfl

theorem step_told {p : Point} {e : Input} {o : Outcome Point} (h : step E p m e = some o)
    (hw : o.written = some m') :
    m'.told = m.told ∨ ∃ z : ZoomMeeting, (m'.told = (m.told.1, some z.status) ∧ m'.syncStatus = .active) ∧
      m.syncStatus = .createUnknown := by
  cases p with
  | withZoomMeetingId id =>
    cases h
    split at hw <;> cases hw
  | byMeetingId meeting id =>
    simp only [step] at h
    split at h <;> cases h
    cases hw
  | finalize z =>
    cases h
    exact (FinalizeZoomMeetingRecovery.execute_told hw).imp_right fun h => ⟨z, h⟩
  | markNotCreated =>
    cases h
    exact .inl (markNotCreated_keeps m' hw)

end ResolveAmbiguousZoomMeetingManually

/-! ### The webhooks -/

open ZoomWebhookSupport

theorem HandleMeetingCreatedWebhook.handle_keeps (data : MeetingCreatedWebhookData) :
    (HandleMeetingCreatedWebhook.handle data m now).Keeps m := by
  simp only [handle, attachRemoteMeetingId]
  split
  · exact .unchanged
  split
  · exact .unchanged
  split
  · exact .afterTransition (fun _ => Meeting.told_of_transition_or) fun _ => rfl
  · exact .unchanged

theorem not_stale {occurredAt : OccurredAt} (h : isStaleProviderEvent m occurredAt true = false) :
    ∃ t, occurredAt = some t ∧ ∀ w, m.lastZoomEventTimestamp = some w → w ≤ t := by
  cases occurredAt with
  | none => simp [isStaleProviderEvent] at h
  | some t => exact ⟨t, rfl, fun w hw => by simpa [isStaleProviderEvent, hw] using h⟩

/-- A deletion moves the watermark to the time of its event, if that is known. -/
theorem HandleMeetingDeletedWebhook.step_told {p : Point} {e : Input} {o : Outcome Point}
    (h : step p m e = some o) (hw : o.written = some m') :
    m'.told = m.told ∨ ∃ t, p = .processDelete (some t) ∧ m'.told = (some t, m.status) ∧
      ∀ w, m.lastZoomEventTimestamp = some w → w ≤ t := by
  cases p with
  | handle meetingId occurredAt =>
    cases h
    split at hw <;> cases hw
  | processDelete occurredAt =>
    cases h
    simp only [Outcome.last_written, processDeleteInTransaction] at hw
    split at hw <;> cases hw
    rename_i hi
    cases occurredAt with
    | none => exact .inl rfl
    | some t =>
      refine .inr ⟨t, rfl, rfl, ?_⟩
      simp only [shouldIgnoreWebhook, isStaleEvent, Option.isSome_some, Bool.true_and, Bool.or_eq_true,
        not_or] at hi
      obtain ⟨t', ht, hle⟩ := not_stale (eq_false_of_ne_true hi.1.2)
      cases ht
      exact hle

namespace ZoomMeetingUpdatedWebhookProcessor

variable {E : Env} {data : MeetingUpdatedWebhookData} {occurredAt : OccurredAt}
  {context : MeetingUpdateWebhookContext}

theorem processPendingUpdate_told
    (h : (processPendingUpdate E m data occurredAt context now).written = some m') :
    m'.told = (occurredAt, m.status) := by
  unfold processPendingUpdate at h
  split at h
  · cases h
  · cases h
  split at h
  · split at h
    · cases h
    cases h
    unfold finishPendingUpdateFromZoom
    split
    · rfl
    split
    · simp [reconciledEvent, Meeting.told]
    · simp [completedUpdate, clearedOperation, Meeting.told]
  · cases h
    simp [completedUpdate, clearedOperation, Meeting.told]

theorem saveZoomSnapshot_told (h : (saveZoomSnapshot m occurredAt context now).written = some m') :
    m'.told = (occurredAt, m.status) := by
  unfold saveZoomSnapshot at h
  split at h <;> cases h
  simp [reconciledEvent, Meeting.told]

theorem saveWebhookChanges_told (h : (saveWebhookChanges E m data occurredAt).written = some m') :
    m'.told = (occurredAt, m.status) := by
  unfold saveWebhookChanges at h
  split at h
  · cases h
  · cases h
    rfl
  · split at h <;> cases h
    simp [Meeting.told]

/-- Every branch that writes moves the watermark to the time of the event, which is
not older. -/
theorem processLockedMeeting_told
    (h : (processLockedMeeting E m data occurredAt context now).written = some m') :
    ∃ t, occurredAt = some t ∧ m'.told = (some t, m.status) ∧
      ∀ w, m.lastZoomEventTimestamp = some w → w ≤ t := by
  unfold processLockedMeeting at h
  split at h
  · cases h
  rename_i hs
  obtain ⟨t, rfl, hle⟩ := not_stale (eq_false_of_ne_true hs)
  refine ⟨t, rfl, ?_, hle⟩
  split at h
  · cases h
  split at h
  · cases h
    rfl
  split at h
  · exact processPendingUpdate_told h
  split at h
  · cases h
  split at h
  · exact saveZoomSnapshot_told h
  · exact saveWebhookChanges_told h

end ZoomMeetingUpdatedWebhookProcessor

/-! ### Every process -/

namespace Meetings

open Interleave

/-- What a write may do to the watermark and the runtime status. -/
inductive Told (s : Store) (p : Point) (e : Input) (m' : Meeting) : Prop
  | kept : m'.told = s.row.told → Told s p e m'
  /-- A creation is recorded. -/
  | created (z : ZoomMeeting) : (s.row.syncStatus.IsCreation ∨ ActivatesLate s p e) →
      m'.told = (s.row.told.1, some z.status) → m'.syncStatus = .active → Told s p e m'
  /-- A meeting.updated or meeting.deleted event counts. -/
  | event (t : ℤ) : (∀ w, s.row.lastZoomEventTimestamp = some w → w ≤ t) →
      m'.told = (some t, s.row.status) → Told s p e m'
  | started : p = .startedWebhook .transition →
      (statusDiffers s.row "started" && statusDiffers s.row "ended") = true →
      m'.told = (s.row.told.1, some "started") → Told s p e m'
  | ended : p = .endedWebhook .transition → statusDiffers s.row "ended" = true →
      m'.told = (s.row.told.1, some "ended") → Told s p e m'

variable {E : Env} {s s' : Store} {p : Point} {e : Input} {k : Option Point} {o : Outcome Point} {m' : Meeting}

theorem runtimeWebhookStep_transition {transition : Meeting → Time → Commit} {q : RuntimeWebhookPoint}
    {m : Meeting} {o : Outcome RuntimeWebhookPoint} (h : runtimeWebhookStep transition q m e = some o)
    (hw : o.written = some m') : q = .transition ∧ (transition m e.now).written = some m' := by
  cases q with
  | handle meetingId =>
    cases h
    split at hw <;> cases hw
  | transition =>
    cases h
    exact ⟨rfl, hw⟩

theorem act_told (h : act E p s.row e = some o) (hw : o.written = some m') : Told s p e m' := by
  cases p with
  | create q =>
    obtain ⟨o₁, ho, rfl⟩ := Option.map_eq_some_iff.mp h
    obtain ⟨c, hc, rfl⟩ := Option.map_eq_some_iff.mp ho
    rcases CreateProjectMeeting.syncWithZoom_told hc hw with h | ⟨z, hz, h, hs⟩
    · exact .kept h
    · exact .created z (hs.imp_right fun hl => ⟨q, z, rfl, hz, hl⟩) h.1 h.2
  | update q =>
    obtain ⟨o₁, ho, rfl⟩ := Option.map_eq_some_iff.mp h
    exact .kept (UpdateProjectMeeting.step_keeps ho hw)
  | delete q =>
    obtain ⟨o₁, ho, rfl⟩ := Option.map_eq_some_iff.mp h
    exact .kept (DeleteProjectMeeting.step_keeps ho hw)
  | recoverPending =>
    cases h
    have hc := recoverPending_written hw
    unfold RecoverPendingZoomMeetingOperations.claimNextDueOperation at hc
    split at hc <;> cases hc
    exact .kept rfl
  | recovery job stage =>
    obtain ⟨o₁, ho, rfl⟩ := Option.map_eq_some_iff.mp h
    exact .kept (PerformZoomMeetingRecovery.step_keeps ho hw)
  | ambiguous q =>
    obtain ⟨o₁, ho, rfl⟩ := Option.map_eq_some_iff.mp h
    rcases RecoverAmbiguousZoomMeeting.step_told ho hw with h | ⟨z, h, hs⟩
    · exact .kept h
    · exact .created z (.inl (.inr (.inr (.inl hs)))) h.1 h.2
  | manual q =>
    obtain ⟨o₁, ho, rfl⟩ := Option.map_eq_some_iff.mp h
    rcases ResolveAmbiguousZoomMeetingManually.step_told ho hw with h | ⟨z, h, hs⟩
    · exact .kept h
    · exact .created z (.inl (.inr (.inr (.inl hs)))) h.1 h.2
  | createdWebhook data =>
    cases h
    exact .kept (HandleMeetingCreatedWebhook.handle_keeps data m' hw)
  | updatedWebhook q =>
    obtain ⟨o₁, ho, rfl⟩ := Option.map_eq_some_iff.mp h
    obtain ⟨data, occurredAt, context, atFetch, rfl, hl⟩ := HandleMeetingUpdatedWebhook.step_written ho hw
    obtain ⟨t, rfl, ht, hle⟩ := ZoomMeetingUpdatedWebhookProcessor.processLockedMeeting_told hl
    exact .event t hle ht
  | deletedWebhook q =>
    obtain ⟨o₁, ho, rfl⟩ := Option.map_eq_some_iff.mp h
    rcases HandleMeetingDeletedWebhook.step_told ho hw with h | ⟨t, rfl, h, hle⟩
    · exact .kept h
    · exact .event t hle h
  | startedWebhook q =>
    obtain ⟨o₁, ho, rfl⟩ := Option.map_eq_some_iff.mp h
    obtain ⟨rfl, ht⟩ := runtimeWebhookStep_transition ho hw
    unfold HandleMeetingStartedWebhook.transitionToStarted at ht
    split at ht <;> cases ht
    exact .started rfl (by assumption) rfl
  | endedWebhook q =>
    obtain ⟨o₁, ho, rfl⟩ := Option.map_eq_some_iff.mp h
    obtain ⟨rfl, ht⟩ := runtimeWebhookStep_transition ho hw
    unfold HandleMeetingEndedWebhook.transitionToEnded at ht
    split at ht <;> cases ht
    exact .ended rfl (by assumption) rfl

theorem move_told (h : (program E).move s p e = some (s', k)) : Told s p e s'.row := by
  obtain ⟨o, ho, -, hrow, -, -⟩ := moved h
  cases hw : o.written with
  | none =>
    rw [hw, Option.getD_none] at hrow
    exact .kept (congrArg Meeting.told hrow)
  | some m' =>
    rw [hw, Option.getD_some] at hrow
    exact hrow ▸ act_told ho hw

/-! ### The watermark -/

/-- It does not fall, and is not lost. -/
def WatermarkLe (m m' : Meeting) : Prop :=
  ∀ w, m.lastZoomEventTimestamp = some w → ∃ w', m'.lastZoomEventTimestamp = some w' ∧ w ≤ w'

theorem WatermarkLe.of_eq {m m' : Meeting} (h : m'.lastZoomEventTimestamp = m.lastZoomEventTimestamp) :
    WatermarkLe m m' :=
  fun w hw => ⟨w, h.trans hw, le_rfl⟩

theorem WatermarkLe.trans {m₁ m₂ m₃ : Meeting} (h : WatermarkLe m₁ m₂) (h' : WatermarkLe m₂ m₃) :
    WatermarkLe m₁ m₃ := by
  intro w hw
  obtain ⟨w', hw', hle⟩ := h w hw
  obtain ⟨w'', hw'', hle'⟩ := h' w' hw'
  exact ⟨w'', hw'', hle.trans hle'⟩

theorem Told.watermarkLe (h : Told s p e m') : WatermarkLe s.row m' := by
  cases h with
  | kept h => exact .of_eq (congrArg Prod.fst h)
  | created z _ h _ => exact .of_eq (congrArg Prod.fst h)
  | event t hle h => exact fun w hw => ⟨t, congrArg Prod.fst h, hle w hw⟩
  | started _ _ h => exact .of_eq (congrArg Prod.fst h)
  | ended _ _ h => exact .of_eq (congrArg Prod.fst h)

/-- The event has no time, or one before the watermark of the row. -/
def IsStale (m : Meeting) (occurredAt : OccurredAt) : Prop :=
  occurredAt = none ∨ ∃ t w, occurredAt = some t ∧ m.lastZoomEventTimestamp = some w ∧ t < w

/-- The locked write of a stale meeting.updated event. -/
def StaleWrite (st : Step Store Point Input) : Prop :=
  ∃ data occurredAt context atFetch e,
    st.Fires (.updatedWebhook (.process data occurredAt context atFetch)) e ∧ IsStale st.pre.store.row occurredAt

theorem processLockedMeeting_of_stale {m : Meeting} {data : MeetingUpdatedWebhookData}
    {occurredAt : OccurredAt} {context : MeetingUpdateWebhookContext} (h : IsStale m occurredAt) :
    ZoomMeetingUpdatedWebhookProcessor.processLockedMeeting E m data occurredAt context now = .unchanged := by
  refine if_pos ?_
  rcases h with rfl | ⟨t, w, rfl, hw, hlt⟩
  · rfl
  · simp [isStaleProviderEvent, hw, hlt]

theorem StaleWrite.unchanged {st : Step Store Point Input} (h : StaleWrite st)
    (hs : (program E).step st.pre st.act = some st.post) : st.post.store.row = st.pre.store.row := by
  obtain ⟨data, occurredAt, context, atFetch, e, ⟨i, ha, hp⟩, hst⟩ := h
  rw [ha] at hs
  obtain ⟨k, hm⟩ := (program E).move_of_step hp hs
  obtain ⟨o, ho, -, hrow, -, -⟩ := moved hm
  cases ho
  rw [hrow, Outcome.map_written, Outcome.last_written, processLockedMeeting_of_stale hst]
  rfl

/-- **The watermark never falls back**, from whatever row and processes a run sets
out, and a meeting.updated event that is stale at its locked write changes nothing
of the row. -/
theorem watermark_mono {c₀ c : Config Store Point} {tr : List (Step Store Point Input)}
    (h : (program E).Run c₀ tr c) : WatermarkLe c₀.store.row c.store.row ∧
      ∀ st ∈ tr, WatermarkLe st.pre.store.row st.post.store.row ∧
        (StaleWrite st → st.post.store.row = st.pre.store.row) := by
  have single {c c' : Config Store Point} {a : Act Point Input} (hs : (program E).step c a = some c') :
      WatermarkLe c.store.row c'.store.row := by
    rcases (program E).step_store hs with he | ⟨p, e, k, -, hm⟩
    · exact .of_eq (congrArg (fun s : Store => s.row.lastZoomEventTimestamp) he)
    · exact (move_told hm).watermarkLe
  induction h with
  | nil => exact ⟨.of_eq rfl, by simp⟩
  | snoc a _ hs ih =>
    refine ⟨ih.1.trans (single hs), fun st hst => ?_⟩
    rcases List.mem_append.mp hst with hst | hst
    · exact ih.2 st hst
    · rw [List.mem_singleton.mp hst]
      exact ⟨single hs, fun hw => hw.unchanged hs⟩

/-- Two events are read while both are fresh; the younger is written first, and the
older one is stale by then. -/
def lateEvents : List (Act Point Input) :=
  [.arrive (.updatedWebhook (.handle agendaChanged (some 6000))),
    .arrive (.updatedWebhook (.handle topicChanged (some 5000))),
    .move 1 (Sample.input 7000 "" .none), .move 2 (Sample.input 7000 "" .none),
    .move 1 (Sample.input 8000 "" .none), .move 1 (Sample.input 8000 "" .none)]

theorem watermark_mono_late : ∃ tr c, (program Sample.env).Run Sample.start tr c ∧
    c.store.row.lastZoomEventTimestamp = some 6000 ∧ WatermarkLe Sample.start.store.row c.store.row ∧
    ∀ st ∈ tr, StaleWrite st → st.post.store.row = st.pre.store.row := by
  obtain ⟨tr, c, h, hq⟩ := (program Sample.env).exists_run_of_replay (Sample.establish ++ lateEvents)
    (c := Sample.start) (q := fun _ c => c.store.row.lastZoomEventTimestamp == some 6000) (by decide)
  have hmono := watermark_mono h
  exact ⟨tr, c, h, by simpa using hq, hmono.1, fun st hst => (hmono.2 st hst).2⟩

end Meetings
end Daywright
