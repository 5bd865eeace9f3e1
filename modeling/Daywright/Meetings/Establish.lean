/-
# How a meeting becomes Active

A creation becomes Active when its success is recorded: by its own answer, by the
recovery of creations or by an administrator, and then with a runtime status.
Nothing else makes it Active: the answers of updates and deletions, the recovery
jobs and the events of Zoom belong to an operation of another kind, which a
creation does not have (`act_of_creation`, `Typed`).

Key definition: `Typed`.
Key theorems: `Sync.Step.of_creation`, `act_of_creation`.
-/
import Daywright.Meetings.Provider

namespace Daywright

/-- Only a creation that is open is recovered. -/
theorem RecoverAmbiguousZoomMeeting.step_open {E : Env} {p : Point} {m m' : Meeting} {e : Input}
    {o : Outcome Point} (h : step E p m e = some o) (hw : o.written = some m') :
    m.syncStatus = .creating ∨ m.syncStatus = .createUnknown := by
  have owned {token : Uuid} (ho : FinalizeZoomMeetingRecovery.ownsLiveClaim m token e.now = true) :
      m.syncStatus = .creating ∨ m.syncStatus = .createUnknown :=
    .inr (FinalizeZoomMeetingRecovery.ownsLiveClaim_iff.mp ho).1
  cases step_writes h hw with
  | claim meeting hc =>
    unfold claim at hc
    split at hc
    · rename_i hcl
      simp only [Meeting.readyForZoomRecoveryAt, Meeting.creatingWithExpiredLeaseAt,
        Meeting.createUnknownDueAt, Bool.and_eq_true, Bool.or_eq_true, beq_iff_eq] at hcl
      exact hcl.1.imp And.left And.left
    · cases hc
  | finalize token z hx =>
    obtain ⟨hf, -⟩ : _ ∧ m.Moves (fun _ => True) m' ∧ _ := FinalizeZoomMeetingRecovery.execute_written hx
    exact owned hf
  | review token hr =>
    unfold requireManualReview at hr
    split at hr
    · exact owned (by assumption)
    · cases hr
  | retry token t hr =>
    unfold scheduleRetry at hr
    split at hr
    · cases hr
    · rename_i ho
      exact owned (by simpa using ho)

theorem ResolveAmbiguousZoomMeetingManually.step_open {E : Env} {p : Point} {m m' : Meeting} {e : Input}
    {o : Outcome Point} (h : step E p m e = some o) (hw : o.written = some m') :
    m.syncStatus = .createUnknown := by
  cases p with
  | withZoomMeetingId id =>
    cases h
    split at hw <;> cases hw
  | byMeetingId meeting id =>
    simp only [step] at h
    split at h <;> cases h
    cases hw
  | finalize z =>
    cases h
    obtain ⟨hf, -⟩ : _ ∧ m.Moves (fun _ => True) m' ∧ _ := FinalizeZoomMeetingRecovery.execute_written hw
    exact FinalizeZoomMeetingRecovery.createUnknown_of_canFinalize hf
  | markNotCreated =>
    cases h
    simp only [Outcome.last_written, markNotCreated] at hw
    split at hw
    · cases hw
    · rename_i ha
      simp only [Meeting.awaitsManualZoomRecovery, Bool.and_eq_true, beq_iff_eq, Bool.not_eq_true',
        Bool.not_eq_false] at ha
      exact ha.1.1.1

theorem UpdateProjectMeeting.handleReply_operation {m m' : Meeting} {data : MeetingUpdateData}
    {operationId : Uuid} {reply : Reply} {now : Time} {c : Commit}
    (h : handleReply m data operationId reply now = some c) (hc : c.written = some m') :
    m.syncOperationId = some operationId := by
  unfold handleReply at h
  split at h <;> try cases h
  · split at hc <;> exact (executeWithOperationIdCheck_written hc).1
  · exact (executeWithOperationIdCheck_written hc).1
  · exact (executeWithOperationIdCheck_written hc).1
  · split at hc
    · exact (executeWithOperationIdCheck_written hc).1
    · cases hc

theorem DeleteProjectMeeting.handleReply_operation {m m' : Meeting} {operationId : Uuid} {reply : Reply}
    {now : Time} {c : Commit} (h : handleReply m operationId reply now = some c)
    (hc : c.written = some m') : m.syncOperationId = some operationId := by
  unfold handleReply at h
  split at h <;> try cases h
  · exact (executeWithOperationIdCheck_written hc).1
  · exact (executeWithOperationIdCheck_written hc).1
  · exact (executeWithOperationIdCheck_written hc).1
  · exact (executeWithOperationIdCheck_written hc).1
  · split at hc
    · exact (executeWithOperationIdCheck_written hc).1
    · cases hc

/-- The answer of a creation makes the meeting Active only with a runtime status. -/
theorem CreateProjectMeeting.syncWithZoom_status {m m' : Meeting} {reply : Reply} {now : Time} {c : Commit}
    (h : syncWithZoom m reply now = some c) (hw : c.written = some m') (hn : m.syncStatus ≠ .active)
    (ha : m'.syncStatus = .active) : m'.status ≠ none := by
  unfold syncWithZoom at h
  split at h
  · cases h
    have recorded {z : ZoomMeeting} (hf : (finalizeMeetingAsActive m z now).written = some m') :
        m'.status ≠ none := by
      have := congrArg Prod.snd (finalizeMeetingAsActive_told hf).1
      simp [show m'.status = some z.status from this]
    unfold markMeetingAsSynced handleCreateUnknownState at hw
    split_ifs at hw with h1 h2 h3 h4
    · cases hw
    · obtain ⟨hcr, hother, -, -⟩ := handleMeetingIdConflict_written hw
      by_cases hs : m.syncStatus = .creating
      · cases ha.symm.trans (congrArg Sync.status (hcr hs))
      · exact absurd ((congrArg Sync.status (hother hs)).symm.trans ha) hn
    · cases hw
    · exact recorded hw
    · exact recorded hw
  · cases h
    unfold markMeetingAsCreateUnknown at hw
    split at hw
    · cases hw
    split at hw
    · cases hw
    obtain ⟨m₁, h₁, rfl⟩ := Commit.afterTransition_written hw
    split at h₁
    · obtain ⟨-, rfl⟩ := Meeting.transitionTo_ok h₁
      cases ha
    · cases h₁
      exact absurd ha hn
  · cases h
    split at hw
    · unfold markMeetingAsFailed at hw
      split at hw
      · cases hw
      obtain ⟨m₁, h₁, rfl⟩ := Commit.afterTransition_written hw
      obtain ⟨-, rfl⟩ := Meeting.transitionTo_ok h₁
      cases ha
    · cases hw
  · cases h

theorem UpdateProjectMeeting.saveUpdateIntent_status {m m' : Meeting} {operationId : Uuid} {payload : SyncPayload}
    {now : Time} (h : (saveUpdateIntent m operationId payload now).written = some m') :
    m'.syncStatus = .updating := by
  unfold saveUpdateIntent at h
  split at h <;> cases h
  rfl

theorem DeleteProjectMeeting.saveDeleteIntent_status {m m' : Meeting} {operationId : Uuid} {now : Time}
    (h : (saveDeleteIntent m operationId now).written = some m') : m'.syncStatus = .deleting := by
  unfold saveDeleteIntent at h
  split_ifs at h <;> cases h
  rfl

/-- A creation that is finalised has the runtime status of the meeting found. -/
theorem FinalizeZoomMeetingRecovery.execute_status {claimToken : Option Uuid} {z : ZoomMeeting} {m m' : Meeting}
    {now : Time} (h : (execute m claimToken z now).written = some m') (ha : m'.syncStatus = .active) :
    m'.status = some z.status := by
  unfold execute at h
  split_ifs at h with h1 h2
  · cases h
  · have hs : m.syncStatus = .createUnknown := createUnknown_of_canFinalize (by simpa using h1)
    cases h
    cases hs.symm.trans ha
  · obtain ⟨m₁, -, rfl⟩ := Commit.afterTransition_written h
    rfl

theorem RecoverAmbiguousZoomMeeting.step_status {E : Env} {p : Point} {m m' : Meeting} {e : Input}
    {o : Outcome Point} (h : step E p m e = some o) (hw : o.written = some m')
    (ha : m'.syncStatus = .active) : m'.status ≠ none := by
  obtain ⟨token, z, -, h⟩ := step_active h hw ha
  simp [FinalizeZoomMeetingRecovery.execute_status h ha]

theorem ResolveAmbiguousZoomMeetingManually.step_status {E : Env} {p : Point} {m m' : Meeting} {e : Input}
    {o : Outcome Point} (h : step E p m e = some o) (hw : o.written = some m')
    (ha : m'.syncStatus = .active) : m'.status ≠ none := by
  obtain ⟨z, -, h⟩ := step_active h hw ha
  simp [FinalizeZoomMeetingRecovery.execute_status h ha]

namespace PerformZoomMeetingRecovery

variable {E : Env} {job : RecoverZoomMeetingOperationJob} {m m' : Meeting} {now : Time}

theorem manualReview_status {reason : String} (h : (manualReview job m reason now).written = some m') :
    m'.syncStatus ≠ .active := by
  obtain ⟨-, h⟩ := ifOwned_written h
  cases ht : m.syncOperationType with
  | none => simp [ht] at h
  | some t =>
    cases t with
    | create => simp [ht] at h
    | update | delete =>
      simp only [ht] at h
      cases h
      nofun

/-- A job makes a meeting Active only with an update that it has confirmed. -/
theorem step_active {stage : Stage} {e : Input} {o : Outcome Stage} (h : step E job stage m e = some o)
    (hw : o.written = some m') (ha : m'.syncStatus = .active) : m.syncStatus = .active ∨
      owns job m e.now = true ∧ ∃ updateData, stage = .applyUpdateLocally updateData := by
  cases step_writes h hw with
  | stamp currentMeeting payload password hs =>
    subst hs
    exact .inl ha
  | delete hd =>
    obtain ⟨-, hd⟩ := ifOwned_written hd
    cases hd
    cases ha
  | apply updateData hu => exact .inr ⟨(ifOwned_written hu).1, updateData, rfl⟩
  | consume hc =>
    obtain ⟨-, hc⟩ := ifOwned_written hc
    split at hc <;> cases hc
    · exact .inl ha
    · cases ha
  | verify delaySeconds t hv =>
    obtain ⟨-, hv⟩ := ifOwned_written hv
    cases hv
    exact .inl ha
  | retry t hr =>
    obtain ⟨-, hr⟩ := ifOwned_written hr
    split at hr
    · cases hr
      exact .inl ha
    · exact absurd ha (manualReview_status hr)
  | review reason hr => exact absurd ha (manualReview_status hr)

/-- The job found the kind of its operation on the way to the stage, or knew it before. -/
def Types (job : RecoverZoomMeetingOperationJob) (stage : Stage) (m : Meeting) (now : Time) : Stage → Prop
  | .stampStartedAt _ _ _ => owns job m now = true ∧ m.syncOperationType ≠ none
  | .updateMeeting _ _ => ∃ copy payload password, stage = .stampStartedAt copy payload password
  | .applyUpdateLocally _ => owns job m now = true ∧ m.syncOperationType ≠ none ∨
      ∃ payload password, stage = .updateMeeting payload password
  | _ => True

theorem step_types {stage stage' : Stage} {e : Input} {o : Outcome Stage}
    (h : step E job stage m e = some o) (hk : o.next = some stage') : Types job stage m e.now stage' := by
  cases step_next h hk with
  | snapshot z ho ht => exact .inl ⟨ho, by simp [ht]⟩
  | stamp payload ho ht => exact ⟨ho, by simp [ht]⟩
  | stampPassword payload ho ht => exact ⟨ho, by simp [ht]⟩
  | send copy payload password => exact ⟨_, _, _, rfl⟩
  | sent payload => exact .inr ⟨_, _, rfl⟩
  | fallback hf => cases stage' <;> trivial
  | _ => trivial

end PerformZoomMeetingRecovery

/-- Where a creation can go. -/
theorem Sync.Step.of_creation {fresh : Uuid → Prop} {s s' : Sync} (hw : s.WellFormed)
    (hs : s.status.IsCreation) (h : Step fresh s s') :
    s'.status.IsCreation ∨ s'.status = .deleted ∨ s'.status = .active := by
  have htype : s.type = none := hw.creation hs
  cases h with
  | keep | postpone | disturb => exact .inl hs
  | intend payload lease hf ht hst => rcases hst with h | h | h <;> rw [h] at hs <;> cases hs <;> simp_all
  | claimOperation lease hf hst => exact .inl hs
  | await a ht => cases htype.symm.trans ht
  | fail ht => cases htype.symm.trans ht
  | remove => exact .inr (.inl rfl)
  | settle | activate => exact .inr (.inr rfl)
  | claimCreation | attach | suspect | review => exact .inl (.inr (.inr (.inl rfl)))
  | reject => exact .inl (.inr (.inr (.inr rfl)))

/-- What has left the creation does not come back to it. -/
theorem Sync.Step.not_creation {fresh : Uuid → Prop} {s s' : Sync} (hs : ¬ s.status.IsCreation)
    (h : Step fresh s s') : ¬ s'.status.IsCreation := by
  have closed (ho : s.status = .creating ∨ s.status = .createUnknown) : False := hs (.of_open ho)
  cases h with
  | keep | postpone | disturb | claimOperation => exact hs
  | intend payload lease hf ht => exact (MeetingSyncOperationType.inProgress_settled ht).1
  | await a ht hc => exact (MeetingSyncOperationType.inProgress_settled hc).1
  | fail ht hc => exact (MeetingSyncOperationType.failure_settled hc).1
  | remove | settle | activate => simp [Sync.cleared, MeetingSyncStatus.IsCreation]
  | claimCreation lease a hf ho => exact (closed ho).elim
  | attach id a ho => exact (closed ho).elim
  | suspect a ho => exact (closed ho).elim
  | review ho => exact (closed ho).elim
  | reject ho => exact (closed ho).elim

namespace Meetings

open Interleave

variable {E : Env} {s s' : Store} {p q : Point} {e : Input} {k : Option Point} {o : Outcome Point} {m' : Meeting}

/-- A creation becomes Active only with a runtime status: it is answered, or it is
open and recovered. -/
theorem act_of_creation (hI : Inv s) (hA : Knowledge s p) (hc : s.row.syncStatus.IsCreation)
    (hr : ∀ job updateData, p = .recovery job (.applyUpdateLocally updateData) →
      PerformZoomMeetingRecovery.owns job s.row e.now = false)
    (h : act E p s.row e = some o) (hw : o.written = some m') (ha : m'.syncStatus = .active) :
    ((∃ q, p = .create q) ∨ s.row.syncStatus = .creating ∨ s.row.syncStatus = .createUnknown) ∧
      m'.status ≠ none := by
  have htype : s.row.syncOperationType = none := hI.wellFormed.creation hc
  have inactive : s.row.syncStatus ≠ .active := fun h => by simp [h, MeetingSyncStatus.IsCreation] at hc
  have kept (h : m'.sync = s.row.sync) : False := inactive ((congrArg Sync.status h).symm.trans ha)
  cases p with
  | create q =>
    obtain ⟨o₁, ho, rfl⟩ := Option.map_eq_some_iff.mp h
    obtain ⟨c, hcm, rfl⟩ := Option.map_eq_some_iff.mp ho
    exact ⟨.inl ⟨q, rfl⟩, CreateProjectMeeting.syncWithZoom_status hcm hw inactive ha⟩
  | update q =>
    obtain ⟨o₁, ho, rfl⟩ := Option.map_eq_some_iff.mp h
    cases q with
    | saveUpdateIntent data =>
      simp only [UpdateProjectMeeting.step] at ho
      split at ho <;> cases ho
      · rename_i hc
        cases ha.symm.trans (UpdateProjectMeeting.saveUpdateIntent_status (by rw [hc]; exact hw))
      · cases hw
    | updateInZoom data op =>
      obtain ⟨c, hcm, rfl⟩ := Option.map_eq_some_iff.mp ho
      have hop := UpdateProjectMeeting.handleReply_operation hcm hw
      cases htype.symm.trans (hA.2 hop)
  | delete q =>
    obtain ⟨o₁, ho, rfl⟩ := Option.map_eq_some_iff.mp h
    cases q with
    | handle =>
      cases ho
      split at hw <;> cases hw
    | saveDeleteIntent =>
      simp only [DeleteProjectMeeting.step] at ho
      split at ho <;> cases ho
      · rename_i hc
        cases ha.symm.trans (DeleteProjectMeeting.saveDeleteIntent_status (by rw [hc]; exact hw))
      · cases hw
    | deleteFromZoom op =>
      obtain ⟨c, hcm, rfl⟩ := Option.map_eq_some_iff.mp ho
      have hop := DeleteProjectMeeting.handleReply_operation hcm hw
      cases htype.symm.trans (hA.2 hop).1
  | recoverPending =>
    cases h
    have hclaim := recoverPending_written hw
    unfold RecoverPendingZoomMeetingOperations.claimNextDueOperation at hclaim
    split at hclaim <;> cases hclaim
    exact absurd ha inactive
  | recovery job stage =>
    obtain ⟨o₁, ho, rfl⟩ := Option.map_eq_some_iff.mp h
    rcases PerformZoomMeetingRecovery.step_active ho hw ha with h | ⟨hown, updateData, rfl⟩
    · exact absurd h inactive
    · rw [hr job updateData rfl] at hown
      cases hown
  | ambiguous q =>
    obtain ⟨o₁, ho, rfl⟩ := Option.map_eq_some_iff.mp h
    exact ⟨.inr (RecoverAmbiguousZoomMeeting.step_open ho hw),
      RecoverAmbiguousZoomMeeting.step_status ho hw ha⟩
  | manual q =>
    obtain ⟨o₁, ho, rfl⟩ := Option.map_eq_some_iff.mp h
    exact ⟨.inr (.inr (ResolveAmbiguousZoomMeetingManually.step_open ho hw)),
      ResolveAmbiguousZoomMeetingManually.step_status ho hw ha⟩
  | createdWebhook data =>
    cases h
    obtain ⟨-, hst, -⟩ : s.row.Moves (fun _ => True) m' ∧ _ := HandleMeetingCreatedWebhook.handle_written hw
    cases ha.symm.trans hst
  | updatedWebhook q =>
    obtain ⟨o₁, ho, rfl⟩ := Option.map_eq_some_iff.mp h
    obtain ⟨data, occurredAt, context, atFetch, rfl, hl⟩ := HandleMeetingUpdatedWebhook.step_written ho hw
    obtain ⟨-, hsync | hsync | ⟨-, hcomp⟩⟩ := ZoomMeetingUpdatedWebhookProcessor.processLockedMeeting_written hl
    · exact (kept hsync).elim
    · have hst : m'.syncStatus = .deleted := congrArg Sync.status hsync
      cases ha.symm.trans hst
    · have hpend := (ZoomMeetingUpdatedWebhookProcessor.hasPendingUpdate_iff.mp hcomp.pending).2.1
      cases htype.symm.trans hpend
  | deletedWebhook q =>
    obtain ⟨o₁, ho, rfl⟩ := Option.map_eq_some_iff.mp h
    obtain ⟨-, hst⟩ : s.row.Moves (fun _ => True) m' ∧ _ := HandleMeetingDeletedWebhook.step_moves ho hw
    cases ha.symm.trans hst
  | startedWebhook q =>
    obtain ⟨o₁, ho, rfl⟩ := Option.map_eq_some_iff.mp h
    exact (kept (runtimeWebhookStep_sync transitionToStarted_sync ho hw).1).elim
  | endedWebhook q =>
    obtain ⟨o₁, ho, rfl⟩ := Option.map_eq_some_iff.mp h
    exact (kept (runtimeWebhookStep_sync transitionToEnded_sync ho hw).1).elim

/-! ### What a confirmed update knows -/

/-- A job that is about to repeat or to record an update knows that its operation
has a type: it is not the creation. -/
def Typed (s : Store) : Point → Prop
  | .recovery job (.stampStartedAt _ _ _) | .recovery job (.updateMeeting _ _) |
    .recovery job (.applyUpdateLocally _) => KnowsOperation s job.operationId fun d => d.1 ≠ none
  | _ => True

theorem Typed.frame (hA : Knowledge s p) (h : (program E).move s p e = some (s', k)) (hq : Typed s q) :
    Typed s' q := by
  unfold Typed at hq ⊢
  split
  · exact KnowsOperation.frame hA h hq
  · exact KnowsOperation.frame hA h hq
  · exact KnowsOperation.frame hA h hq
  · trivial

theorem Typed.of_entry (h : p.entry = true) : Typed s p := by
  unfold Typed
  split
  · cases h
  · cases h
  · cases h
  · trivial

theorem recovery_typed {job : RecoverZoomMeetingOperationJob} {stage stage' : PerformZoomMeetingRecovery.Stage}
    {o : Outcome PerformZoomMeetingRecovery.Stage} (hI : Inv s) (hB : Typed s (.recovery job stage))
    (ho : PerformZoomMeetingRecovery.step E job stage s.row e = some o) (hk : o.next = some stage') :
    Typed s (.recovery job stage') := by
  have here (h : PerformZoomMeetingRecovery.owns job s.row e.now = true ∧ s.row.syncOperationType ≠ none) :
      KnowsOperation s job.operationId fun d => d.1 ≠ none :=
    .here hI (PerformZoomMeetingRecovery.owns_iff.mp h.1).2.2 h.2
  have ht := PerformZoomMeetingRecovery.step_types ho hk
  cases stage' with
  | stampStartedAt copy payload password => exact here ht
  | updateMeeting payload password =>
    obtain ⟨copy, payload, password, rfl⟩ := ht
    exact hB
  | applyUpdateLocally updateData =>
    rcases ht with ht | ⟨payload, password, rfl⟩
    · exact here ht
    · exact hB
  | _ => trivial

theorem Typed.next (hI : Inv s) (hA : Knowledge s p) (hB : Typed s p)
    (h : (program E).move s p e = some (s', some q)) : Typed s' q := by
  obtain ⟨o, ho, hk, -⟩ := moved h
  cases p with
  | recovery job stage =>
    obtain ⟨o₁, ho₁, rfl⟩ := Option.map_eq_some_iff.mp ho
    obtain ⟨stage', hk', rfl⟩ := Option.map_eq_some_iff.mp hk.symm
    exact (recovery_typed hI hB ho₁ hk').frame hA h
  | recoverPending =>
    cases ho
    unfold recoverPendingStep at hk
    split at hk
    · obtain ⟨op, -, rfl⟩ := Option.map_eq_some_iff.mp hk.symm
      trivial
    · cases hk
  | createdWebhook data =>
    cases ho
    cases hk
  | _ =>
    obtain ⟨o₁, -, rfl⟩ := Option.map_eq_some_iff.mp ho
    obtain ⟨r', -, rfl⟩ := Option.map_eq_some_iff.mp hk.symm
    trivial

/-- A job that knows the type of its operation has no claim on a creation. -/
theorem Typed.not_owns {job : RecoverZoomMeetingOperationJob} {updateData : Fields} {now : Time} (hI : Inv s)
    (hc : s.row.syncStatus.IsCreation) (hB : Typed s (.recovery job (.applyUpdateLocally updateData))) :
    PerformZoomMeetingRecovery.owns job s.row now = false := by
  by_contra ho
  have hop := (PerformZoomMeetingRecovery.owns_iff.mp (eq_true_of_ne_false ho)).2.2
  exact hB.2 hop (hI.wellFormed.creation hc)

end Meetings
end Daywright
