/-
# Attempts and claims

What a step does to the attempts and the claim of the row (`Counts`). A worker that
gives the row back for later counts an attempt, or has counted one before it repeated
the update of a password; it leaves the row to manual review once the attempts are used
up. The other actors take the claim away without counting: a claim that replaces an
expired one, a webhook that attaches the Zoom id, the late answer of the user's own
request, which may also count beyond the limit.

Key definitions: `Sync.inRecovery`, `Counts`.
Key theorems: `move_counts`, `claimedOutline`, `Counts.attempts_le`.
-/
import Daywright.Meetings.Establish
import Daywright.Webhooks.Columns

namespace Daywright

open ZoomRecoveryPolicy

/-- Automatic recovery has the row, or will find it due at some time. -/
def Sync.inRecovery (s : Sync) : Bool :=
  match s.status with
  | .creating => true
  | .createUnknown | .updateFailed | .deleteFailed => s.claim.isSome || s.available.isSome
  | .updating | .deleting => s.claim.isSome || s.lease.isSome || s.available.isSome
  | _ => false

theorem Sync.inRecovery_unclaim (s : Sync) (h : s.status ≠ .creating) : (s.unclaim none).inRecovery = false := by
  cases hs : s.status <;> simp_all [inRecovery, unclaim]

/-- A row that is claimed is one of those that recoveries claim. -/
def Sync.Claimed (s : Sync) : Prop := s.claim ≠ none → s.inRecovery = true ∧ s.status ≠ .creating

theorem Sync.Claimed.step {fresh : Uuid → Prop} {s s' : Sync} (hc : s.Claimed) (h : Sync.Step fresh s s') :
    s'.Claimed := by
  intro hn
  cases h with
  | keep => exact hc hn
  | claimOperation lease hf hs => rcases hs with h | h | h | h <;> simp [inRecovery, h]
  | claimCreation lease a hf hs => simp [inRecovery]
  | _ => exact absurd rfl hn

theorem Sync.Claimed.late {s s' : Sync} (h : Sync.Late s s') : s'.Claimed := fun hn => absurd h.claim hn

namespace Meetings

open Interleave

/-- The operation of the row stays as it is. -/
def SameOperation (m m' : Meeting) : Prop := m'.sync.operationRegister = m.sync.operationRegister

theorem SameOperation.operation {m m' : Meeting} (h : SameOperation m m') : m'.syncOperationId = m.syncOperationId :=
  congrArg Fence.Register.tag h

theorem SameOperation.type {m m' : Meeting} (h : SameOperation m m') : m'.syncOperationType = m.syncOperationType :=
  congrArg (fun r => r.data.1) h

theorem SameOperation.of_sync {m m' : Meeting} (h : m'.sync = m.sync) : SameOperation m m' :=
  congrArg Sync.operationRegister h

/-- The processes that claim the row. -/
def Point.claims : Point → Bool
  | .recoverPending | .ambiguous (.claim _) => true
  | _ => false

/-- The user's own request is with Zoom. -/
def Point.awaitsAnswer : Point → Option Uuid
  | .update (.updateInZoom _ op) | .delete (.deleteFromZoom op) => some op
  | _ => none

/-- What the answer of the user's own request counts. -/
inductive Answered (m m' : Meeting) (p : Point) (reply : Reply) : Prop
  | done {data : MeetingUpdateData} {op : Uuid} (hp : p = .update (.updateInZoom data op))
    (hd : UpdateProjectMeeting.isPasswordOperation data = true) (hr : reply = .done)
    (ha : m'.syncAttempts = m.syncAttempts)
  | unknown (hr : reply = .throws .operationUnknown) (ha : m'.syncAttempts = m.syncAttempts + 1)
  | failed {t : Throwable} (hr : reply = .throws t) (hz : t.isZoomException = true) (hl : ∀ a b, t ≠ .rateLimit a b)
    (ha : m'.syncAttempts = m.syncAttempts + 1) (hs : m'.sync.inRecovery = false)
    (hu : m.syncOperationType = some .update → m'.syncStatus = .updateFailed)

/-- What a write does to attempts and claim. -/
inductive Counts (s : Store) (p : Point) (e : Input) (m' : Meeting) : Prop
  | keep (hs : m'.sync = s.row.sync) (ha : m'.syncAttempts = s.row.syncAttempts)
  | intend {op : Uuid} (hf : Fresh s p e op) (ho : m'.syncOperationId = some op) (ha : m'.syncAttempts = 0)
    (hc : m'.syncClaimToken = none)
  | claim (hp : p.claims = true) (hd : s.row.sync.inRecovery = true) (ho : SameOperation s.row m')
    (ha : m'.syncAttempts = s.row.syncAttempts) (hc : m'.syncClaimToken = some e.uuid)
  /-- The worker gives the row back for later. -/
  | retry (hc : s.row.syncClaimToken ≠ none) (hlt : s.row.syncAttempts + 1 < maxAttempts)
    (ho : SameOperation s.row m') (ha : m'.syncAttempts = s.row.syncAttempts + 1) (hc' : m'.syncClaimToken = none)
  | consume {job : RecoverZoomMeetingOperationJob} (hp : p = .recovery job .consumeMismatchCycle)
    (hc : PerformZoomMeetingRecovery.owns job s.row e.now = true) (hlt : s.row.syncAttempts + 1 < maxAttempts)
    (hs : m'.sync = s.row.sync) (ha : m'.syncAttempts = s.row.syncAttempts + 1)
  | verify {job : RecoverZoomMeetingOperationJob} {d : ℕ} {t : Option Throwable}
    (hp : p = .recovery job (.scheduleVerification d t))
    (hc : PerformZoomMeetingRecovery.owns job s.row e.now = true) (ho : SameOperation s.row m')
    (ha : m'.syncAttempts = s.row.syncAttempts) (hc' : m'.syncClaimToken = none)
  /-- The last attempt is counted, and the row is left to manual review. -/
  | giveUp (hc : s.row.syncClaimToken ≠ none) (hmax : maxAttempts ≤ s.row.syncAttempts + 1)
    (ho : SameOperation s.row m') (ha : m'.syncAttempts = s.row.syncAttempts + 1)
    (hr : m'.sync.inRecovery = false) (hu : s.row.syncOperationType = some .update → m'.syncStatus = .updateFailed)
  /-- The operation is over, or left to manual review. -/
  | leave (ho : m'.syncOperationId = none ∨ SameOperation s.row m') (ha : m'.syncAttempts = s.row.syncAttempts)
    (hr : m'.sync.inRecovery = false)
  | attach {data : MeetingCreatedWebhookData} (hp : p = .createdWebhook data)
    (ho : SameOperation s.row m') (ht : s.row.syncStatus.IsCreation) (ha : m'.syncAttempts = s.row.syncAttempts)
    (hc' : m'.syncClaimToken = none)
  | answer (hp : p.awaitsAnswer ≠ none) (hop : s.row.syncOperationId = p.awaitsAnswer) (ho : SameOperation s.row m')
    (hc' : m'.syncClaimToken = none) (ha : Answered s.row m' p e.reply)
  /-- A creation that nobody has claimed is answered. -/
  | suspect (ht : s.row.syncStatus.IsCreation) (hc : s.row.syncClaimToken = none) (ho : SameOperation s.row m')
    (ha : m'.syncAttempts = s.row.syncAttempts + 1) (hc' : m'.syncClaimToken = none)

variable {E : Env} {s s' : Store} {p : Point} {e : Input} {k : Option Point} {o : Outcome Point} {m' : Meeting}
  {now : Time}

/-! ### The workers -/

theorem claimed_of_owns {job : RecoverZoomMeetingOperationJob} {m : Meeting}
    (h : PerformZoomMeetingRecovery.owns job m now = true) : m.syncClaimToken ≠ none := by
  simp [(PerformZoomMeetingRecovery.owns_iff.mp h).1]

section Recovery

open PerformZoomMeetingRecovery

variable {job : RecoverZoomMeetingOperationJob} {stage : Stage}

theorem manualReview_counts {reason : String} (h : (manualReview job s.row reason e.now).written = some m') :
    Counts s p e m' := by
  obtain ⟨-, h⟩ := ifOwned_written h
  cases ht : s.row.syncOperationType with
  | none => simp [ht] at h
  | some t =>
    cases t <;> simp only [ht] at h <;> cases h
    · refine .leave (.inr ?_) rfl (by simp [Sync.inRecovery, Meeting.sync])
      simp [SameOperation, Meeting.sync, Sync.operationRegister, ht]
    · refine .leave (.inr ?_) rfl (by simp [Sync.inRecovery, Meeting.sync])
      simp [SameOperation, Meeting.sync, Sync.operationRegister, ht]

theorem scheduleRetry_counts {t : Option Throwable} (h : (scheduleRetry job s.row t e.now).written = some m') :
    Counts s p e m' := by
  obtain ⟨ho, h⟩ := ifOwned_written h
  split at h
  · rename_i hlt
    cases h
    exact .retry (claimed_of_owns ho) (by simpa [shouldRetry] using hlt) rfl rfl rfl
  · exact manualReview_counts h

theorem consumeMismatchCycle_counts (h : (consumeMismatchCycle job s.row e.now).written = some m') :
    Counts s (.recovery job .consumeMismatchCycle) e m' := by
  obtain ⟨ho, h⟩ := ifOwned_written h
  split at h
  · rename_i hlt
    cases h
    exact .consume rfl ho (by simpa [shouldRetry] using hlt) rfl rfl
  · rename_i hmax
    cases h
    exact .giveUp (claimed_of_owns ho) (by simpa [shouldRetry] using hmax) rfl rfl
      (by simp [Sync.inRecovery, Meeting.sync]) fun _ => rfl

theorem recovery_counts {o : Outcome Stage} (h : step E job stage s.row e = some o) (hw : o.written = some m') :
    Counts s (.recovery job stage) e m' := by
  cases step_writes h hw with
  | stamp copy payload password hs =>
    subst hs
    exact .keep rfl rfl
  | delete hd =>
    obtain ⟨-, hd⟩ := ifOwned_written hd
    cases hd
    exact .leave (.inl rfl) rfl rfl
  | apply updateData ha =>
    obtain ⟨-, ha⟩ := ifOwned_written ha
    cases ha
    exact .leave (.inl rfl) (by simp) rfl
  | consume hc => exact consumeMismatchCycle_counts hc
  | verify d t hv =>
    obtain ⟨ho, hv⟩ := ifOwned_written hv
    cases hv
    exact .verify rfl ho rfl rfl rfl
  | retry t hr => exact scheduleRetry_counts hr
  | review reason hr => exact manualReview_counts hr

end Recovery

/-! ### The scheduler -/

theorem recoverPending_counts
    (h : (RecoverPendingZoomMeetingOperations.claimNextDueOperation s.row e.uuid e.now e.now).written = some m') :
    Counts s .recoverPending e m' := by
  unfold RecoverPendingZoomMeetingOperations.claimNextDueOperation at h
  split at h
  · rename_i hc
    cases h
    refine .claim rfl ?_ rfl rfl rfl
    simp only [RecoverPendingZoomMeetingOperations.isDue, Meeting.readyForUpdateDeleteRecoveryAt,
      Meeting.readyForUpdateRecoveryAt, Meeting.readyForDeleteRecoveryAt, Meeting.updatingWithExpiredLeaseAt,
      Meeting.updateFailedDueAt, Meeting.deletingWithExpiredLeaseAt, Meeting.deleteFailedDueAt, Meeting.dueBy,
      Bool.and_eq_true, Bool.or_eq_true, beq_iff_eq] at hc
    have some_of_any {a : Option Time} (h : a.any (fun t => decide (t ≤ e.now)) = true) : a.isSome = true := by
      cases a <;> simp_all
    rcases hc.1.1 with (⟨hs, hl | ha⟩ | ⟨hs, ha⟩) | (⟨hs, hl | ha⟩ | ⟨hs, ha⟩)
    · simp [Sync.inRecovery, Meeting.sync, hs, some_of_any hl]
    · simp [Sync.inRecovery, Meeting.sync, hs, some_of_any ha]
    · simp [Sync.inRecovery, Meeting.sync, hs, some_of_any ha]
    · simp [Sync.inRecovery, Meeting.sync, hs, some_of_any hl]
    · simp [Sync.inRecovery, Meeting.sync, hs, some_of_any ha]
    · simp [Sync.inRecovery, Meeting.sync, hs, some_of_any ha]
  · cases h

/-! ### The recoveries of creations -/

theorem execute_counts {claimToken : Option Uuid} {z : ZoomMeeting}
    (h : (FinalizeZoomMeetingRecovery.execute s.row claimToken z e.now).written = some m') : Counts s p e m' := by
  unfold FinalizeZoomMeetingRecovery.execute at h
  split_ifs at h with hf hid
  · cases h
  · have hs := FinalizeZoomMeetingRecovery.createUnknown_of_canFinalize (by simpa using hf)
    cases h
    exact .leave (.inr rfl) rfl (by simp [Sync.inRecovery, Meeting.sync, hs])
  · obtain ⟨m₁, h₁, rfl⟩ := Commit.afterTransition_written h
    obtain ⟨-, rfl⟩ := Meeting.transitionTo_ok h₁
    exact .leave (.inr rfl) rfl rfl

theorem inRecovery_of_ready {m : Meeting} (h : m.readyForZoomRecoveryAt now = true) :
    m.syncStatus.IsCreation ∧ m.sync.inRecovery = true := by
  simp only [Meeting.readyForZoomRecoveryAt, Meeting.creatingWithExpiredLeaseAt, Meeting.createUnknownDueAt,
    Bool.and_eq_true, Bool.or_eq_true, beq_iff_eq] at h
  rcases h with ⟨hs, -⟩ | ⟨hs, ha⟩
  · exact ⟨.of_open (.inl hs), by simp [Sync.inRecovery, Meeting.sync, hs]⟩
  · obtain ⟨t, ht, -⟩ := (Option.any_eq_true _ _).mp ha
    exact ⟨.of_open (.inr hs), by simp [Sync.inRecovery, Meeting.sync, hs, ht]⟩

theorem ambiguous_counts {q : RecoverAmbiguousZoomMeeting.Point} {o : Outcome RecoverAmbiguousZoomMeeting.Point}
    (hw : s.row.sync.WellFormed) (h : RecoverAmbiguousZoomMeeting.step E q s.row e = some o)
    (ho : o.written = some m') : Counts s (.ambiguous q) e m' := by
  cases RecoverAmbiguousZoomMeeting.step_writes h ho with
  | claim meeting hc =>
    unfold RecoverAmbiguousZoomMeeting.claim at hc
    split at hc
    · rename_i hd
      rw [Bool.and_eq_true] at hd
      cases hc
      exact .claim rfl (inRecovery_of_ready hd.1).2 rfl rfl rfl
    · cases hc
  | finalize claimToken z hx => exact execute_counts hx
  | review claimToken hr =>
    unfold RecoverAmbiguousZoomMeeting.requireManualReview at hr
    split at hr
    · rename_i hown
      have hs := (FinalizeZoomMeetingRecovery.ownsLiveClaim_iff.mp hown).1
      cases hr
      refine .leave (.inr rfl) rfl ?_
      simp [Sync.inRecovery, Meeting.sync, hs, RecoverAmbiguousZoomMeeting.setManualReview]
    · cases hr
  | retry claimToken t hr =>
    unfold RecoverAmbiguousZoomMeeting.scheduleRetry at hr
    split at hr
    · cases hr
    rename_i hown
    obtain ⟨hs, hc, -⟩ := FinalizeZoomMeetingRecovery.ownsLiveClaim_iff.mp (by simpa using hown)
    have hn : s.row.syncClaimToken ≠ none := by simp [hc]
    have ht : s.row.syncOperationType = none := hw.creation (.of_open (.inr hs))
    split at hr
    · rename_i hmax
      cases hr
      exact .giveUp hn hmax rfl rfl
        (by simp [Sync.inRecovery, Meeting.sync, hs, RecoverAmbiguousZoomMeeting.setManualReview]) fun hu => by
          rw [ht] at hu
          cases hu
    · rename_i hmax
      cases hr
      exact .retry hn (not_le.mp hmax) rfl rfl rfl

theorem manual_counts {q : ResolveAmbiguousZoomMeetingManually.Point}
    {o : Outcome ResolveAmbiguousZoomMeetingManually.Point}
    (h : ResolveAmbiguousZoomMeetingManually.step E q s.row e = some o) (ho : o.written = some m') :
    Counts s (.manual q) e m' := by
  cases q with
  | withZoomMeetingId id =>
    cases h
    split at ho <;> cases ho
  | byMeetingId meeting id =>
    simp only [ResolveAmbiguousZoomMeetingManually.step] at h
    split at h <;> cases h
    cases ho
  | finalize z =>
    cases h
    exact execute_counts ho
  | markNotCreated =>
    cases h
    simp only [Outcome.last_written, ResolveAmbiguousZoomMeetingManually.markNotCreated] at ho
    split at ho
    · cases ho
    · obtain ⟨m₁, h₁, rfl⟩ := Commit.afterTransition_written ho
      obtain ⟨-, rfl⟩ := Meeting.transitionTo_ok h₁
      exact .leave (.inr rfl) rfl rfl

/-! ### The creation -/

section Create

open CreateProjectMeeting

theorem finalizeMeetingAsActive_counts {z : ZoomMeeting}
    (h : (finalizeMeetingAsActive s.row z e.now).written = some m') : Counts s p e m' := by
  obtain ⟨m₁, h₁, rfl⟩ := Commit.afterTransition_written h
  obtain ⟨-, rfl⟩ := Meeting.transitionTo_ok h₁
  exact .leave (.inr rfl) rfl rfl

theorem handleMeetingIdConflict_counts (h : (handleMeetingIdConflict s.row).written = some m') : Counts s p e m' := by
  obtain ⟨hcr, hnc, -, -⟩ := handleMeetingIdConflict_written h
  obtain ⟨ho, ha⟩ : SameOperation s.row m' ∧ m'.syncAttempts = s.row.syncAttempts := by
    obtain ⟨m₁, h₁, rfl⟩ := Commit.afterTransition_written h
    split at h₁
    · obtain ⟨-, rfl⟩ := Meeting.transitionTo_ok h₁
      exact ⟨rfl, rfl⟩
    · cases h₁
      exact ⟨rfl, rfl⟩
  refine .leave (.inr ho) ha ?_
  by_cases hs : s.row.syncStatus = .creating
  · rw [hcr hs]
    rfl
  · rw [hnc hs]
    exact Sync.inRecovery_unclaim _ hs

theorem markMeetingAsSynced_counts {z : ZoomMeeting} (h : (markMeetingAsSynced s.row z e.now).written = some m') :
    Counts s p e m' := by
  unfold markMeetingAsSynced handleCreateUnknownState at h
  split_ifs at h
  · cases h
  · exact handleMeetingIdConflict_counts h
  · cases h
  · exact finalizeMeetingAsActive_counts h
  · exact finalizeMeetingAsActive_counts h

theorem create_counts {q : CreateProjectMeeting.Point} {c : Commit} (hw : s.row.sync.WellFormed)
    (h : syncWithZoom s.row e.reply e.now = some c) (hc : c.written = some m') : Counts s (.create q) e m' := by
  unfold syncWithZoom at h
  split at h
  · cases h
    exact markMeetingAsSynced_counts hc
  · cases h
    unfold markMeetingAsCreateUnknown at hc
    split at hc
    · cases hc
    rename_i hn
    split at hc
    · cases hc
    rename_i hs
    have ho : s.row.syncStatus = .creating ∨ s.row.syncStatus = .createUnknown := by
      by_contra hn
      exact hs (not_or.mp hn)
    simp only [not_or, not_not] at hn
    obtain ⟨m₁, h₁, rfl⟩ := Commit.afterTransition_written hc
    split at h₁
    · obtain ⟨-, rfl⟩ := Meeting.transitionTo_ok h₁
      exact .suspect (.of_open ho) hn.2.2 rfl rfl rfl
    · cases h₁
      exact .suspect (.of_open ho) hn.2.2 rfl rfl rfl
  · cases h
    split at hc
    · unfold markMeetingAsFailed at hc
      split at hc
      · cases hc
      rename_i hs
      have hs : s.row.syncStatus = .creating := not_not.mp hs
      obtain ⟨m₁, h₁, rfl⟩ := Commit.afterTransition_written hc
      obtain ⟨-, rfl⟩ := Meeting.transitionTo_ok h₁
      exact .suspect (.of_open (.inl hs)) (hw.creating hs) rfl rfl rfl
    · cases hc
  · cases h

end Create

/-! ### The user's requests -/

theorem updateInZoom_counts {data : MeetingUpdateData} {operationId : Uuid} {c : Commit}
    (h : UpdateProjectMeeting.handleReply s.row data operationId e.reply e.now = some c) (hc : c.written = some m') :
    Counts s (.update (.updateInZoom data operationId)) e m' := by
  unfold UpdateProjectMeeting.handleReply at h
  split at h
  · rename_i hr
    cases h
    split at hc
    · obtain ⟨hop, rfl⟩ := executeWithOperationIdCheck_written hc
      exact .answer (by simp [Point.awaitsAnswer]) hop rfl rfl (.done rfl (by assumption) hr rfl)
    · obtain ⟨-, rfl⟩ := executeWithOperationIdCheck_written hc
      exact .leave (.inl rfl) (by simp) rfl
  · rename_i hr
    cases h
    obtain ⟨hop, rfl⟩ := executeWithOperationIdCheck_written hc
    exact .answer (by simp [Point.awaitsAnswer]) hop rfl rfl (.unknown hr rfl)
  · cases h
    obtain ⟨-, rfl⟩ := executeWithOperationIdCheck_written hc
    exact .leave (.inl rfl) rfl rfl
  · rename_i t hu hl hr
    cases h
    split at hc
    · rename_i hz
      obtain ⟨hop, rfl⟩ := executeWithOperationIdCheck_written hc
      exact .answer (by simp [Point.awaitsAnswer]) hop rfl rfl (.failed hr hz (fun a b => hl a b) rfl rfl fun _ => rfl)
    · cases hc
  · cases h

theorem deleteFromZoom_counts {operationId : Uuid} {c : Commit}
    (ht : s.row.syncOperationId = some operationId → s.row.syncOperationType = some .delete)
    (h : DeleteProjectMeeting.handleReply s.row operationId e.reply e.now = some c) (hc : c.written = some m') :
    Counts s (.delete (.deleteFromZoom operationId)) e m' := by
  unfold DeleteProjectMeeting.handleReply at h
  split at h
  · cases h
    obtain ⟨-, rfl⟩ := executeWithOperationIdCheck_written hc
    exact .leave (.inl rfl) rfl rfl
  · cases h
    obtain ⟨-, rfl⟩ := executeWithOperationIdCheck_written hc
    exact .leave (.inl rfl) rfl rfl
  · rename_i hr
    cases h
    obtain ⟨hop, rfl⟩ := executeWithOperationIdCheck_written hc
    exact .answer (by simp [Point.awaitsAnswer]) hop rfl rfl (.unknown hr rfl)
  · cases h
    obtain ⟨-, rfl⟩ := executeWithOperationIdCheck_written hc
    exact .leave (.inl rfl) rfl rfl
  · rename_i t hnf hu hl hr
    cases h
    split at hc
    · rename_i hz
      obtain ⟨hop, rfl⟩ := executeWithOperationIdCheck_written hc
      exact .answer (by simp [Point.awaitsAnswer]) hop rfl rfl (.failed hr hz (fun a b => hl a b) rfl rfl fun hup => by
        cases (ht hop).symm.trans hup)
    · cases hc
  · cases h

theorem update_counts {q : UpdateProjectMeeting.Point} {o : Outcome UpdateProjectMeeting.Point}
    (hf : (Point.update q).drawsUuid = true → e.uuid ∉ s.issued) (h : UpdateProjectMeeting.step q s.row e = some o)
    (ho : o.written = some m') : Counts s (.update q) e m' := by
  cases q with
  | saveUpdateIntent data =>
    simp only [UpdateProjectMeeting.step] at h
    split at h <;> cases h
    · rename_i hc
      cases ho
      unfold UpdateProjectMeeting.saveUpdateIntent at hc
      split at hc <;> cases hc
      exact .intend ⟨rfl, rfl, hf rfl⟩ rfl rfl rfl
    · cases ho
  | updateInZoom data op =>
    obtain ⟨c, hc, rfl⟩ := Option.map_eq_some_iff.mp h
    exact updateInZoom_counts hc ho

theorem delete_counts {q : DeleteProjectMeeting.Point} {o : Outcome DeleteProjectMeeting.Point}
    (hA : Knowledge s (.delete q)) (hf : (Point.delete q).drawsUuid = true → e.uuid ∉ s.issued)
    (h : DeleteProjectMeeting.step q s.row e = some o) (ho : o.written = some m') : Counts s (.delete q) e m' := by
  cases q with
  | handle =>
    cases h
    split at ho <;> cases ho
  | saveDeleteIntent =>
    simp only [DeleteProjectMeeting.step] at h
    split at h <;> cases h
    · rename_i hc
      cases ho
      unfold DeleteProjectMeeting.saveDeleteIntent at hc
      split_ifs at hc
      cases hc
      exact .intend ⟨rfl, rfl, hf rfl⟩ rfl rfl rfl
    · cases ho
  | deleteFromZoom op =>
    obtain ⟨c, hc, rfl⟩ := Option.map_eq_some_iff.mp h
    have ht (hop : s.row.syncOperationId = some op) : s.row.syncOperationType = some .delete := (hA.2 hop).1
    exact deleteFromZoom_counts ht hc ho

/-! ### The webhooks -/

theorem createdWebhook_counts {data : MeetingCreatedWebhookData}
    (h : (HandleMeetingCreatedWebhook.handle data s.row e.now).written = some m') :
    Counts s (.createdWebhook data) e m' := by
  simp only [HandleMeetingCreatedWebhook.handle, HandleMeetingCreatedWebhook.attachRemoteMeetingId] at h
  split_ifs at h with hopen hop ha
  · cases h
  · cases h
  · simp only [HandleMeetingCreatedWebhook.shouldAttachRemoteId, HandleMeetingCreatedWebhook.isValidSyncStatus,
      Bool.and_eq_true, Bool.or_eq_true, beq_iff_eq] at ha
    have ht : s.row.syncStatus.IsCreation := .of_open ha.1.2
    obtain ⟨m₁, h₁, rfl⟩ := Commit.afterTransition_written h
    split at h₁
    · obtain ⟨-, rfl⟩ := Meeting.transitionTo_ok h₁
      exact .attach rfl rfl ht rfl rfl
    · cases h₁
      exact .attach rfl rfl ht rfl rfl
  · cases h

theorem updatedWebhook_counts {q : HandleMeetingUpdatedWebhook.Point} {o : Outcome HandleMeetingUpdatedWebhook.Point}
    (h : HandleMeetingUpdatedWebhook.step E q s.row e = some o) (ho : o.written = some m') :
    Counts s (.updatedWebhook q) e m' := by
  obtain ⟨data, occurredAt, context, atFetch, rfl, hw⟩ := HandleMeetingUpdatedWebhook.step_written h ho
  have ha := (ZoomMeetingUpdatedWebhookProcessor.processLockedMeeting_frame hw).attempts
  obtain ⟨-, hs | hs | ⟨hs, -⟩⟩ := ZoomMeetingUpdatedWebhookProcessor.processLockedMeeting_written hw
  · exact .keep hs ha
  · exact .leave (.inl (congrArg Sync.operation hs)) ha (by rw [hs]; rfl)
  · exact .leave (.inl (congrArg Sync.operation hs)) ha (by rw [hs]; rfl)

/-- A runtime event writes neither. -/
theorem runtimeWebhook_counts {transition : Meeting → Time → Commit}
    (ht : ∀ m m' now, (transition m now).written = some m' → m'.sync = m.sync ∧ m'.syncAttempts = m.syncAttempts)
    {q : RuntimeWebhookPoint} {o : Outcome RuntimeWebhookPoint} (h : runtimeWebhookStep transition q s.row e = some o)
    (ho : o.written = some m') : Counts s p e m' := by
  cases q with
  | handle meetingId =>
    cases h
    split at ho <;> cases ho
  | transition =>
    cases h
    exact .keep (ht _ _ _ ho).1 (ht _ _ _ ho).2

theorem deletedWebhook_counts {q : HandleMeetingDeletedWebhook.Point} {o : Outcome HandleMeetingDeletedWebhook.Point}
    (h : HandleMeetingDeletedWebhook.step q s.row e = some o) (ho : o.written = some m') :
    Counts s (.deletedWebhook q) e m' := by
  cases q with
  | handle meetingId occurredAt =>
    cases h
    split at ho <;> cases ho
  | processDelete occurredAt =>
    cases h
    simp only [Outcome.last_written, HandleMeetingDeletedWebhook.processDeleteInTransaction] at ho
    split at ho <;> cases ho
    exact .leave (.inl rfl) rfl rfl

/-! ### Every step -/

/-- **What any write does to attempts and claim.** -/
theorem act_counts (hI : Inv s) (hA : Knowledge s p) (hf : p.drawsUuid = true → e.uuid ∉ s.issued)
    (h : act E p s.row e = some o) (hw : o.written = some m') : Counts s p e m' := by
  cases p with
  | create q =>
    obtain ⟨o₁, ho, rfl⟩ := Option.map_eq_some_iff.mp h
    obtain ⟨c, hc, rfl⟩ := Option.map_eq_some_iff.mp ho
    exact create_counts hI.wellFormed hc hw
  | update q =>
    obtain ⟨o₁, ho, rfl⟩ := Option.map_eq_some_iff.mp h
    exact update_counts hf ho hw
  | delete q =>
    obtain ⟨o₁, ho, rfl⟩ := Option.map_eq_some_iff.mp h
    exact delete_counts hA hf ho hw
  | recoverPending =>
    cases h
    exact recoverPending_counts (recoverPending_written hw)
  | recovery job stage =>
    obtain ⟨o₁, ho, rfl⟩ := Option.map_eq_some_iff.mp h
    exact recovery_counts ho hw
  | ambiguous q =>
    obtain ⟨o₁, ho, rfl⟩ := Option.map_eq_some_iff.mp h
    exact ambiguous_counts hI.wellFormed ho hw
  | manual q =>
    obtain ⟨o₁, ho, rfl⟩ := Option.map_eq_some_iff.mp h
    exact manual_counts ho hw
  | createdWebhook data =>
    cases h
    exact createdWebhook_counts hw
  | updatedWebhook q =>
    obtain ⟨o₁, ho, rfl⟩ := Option.map_eq_some_iff.mp h
    exact updatedWebhook_counts ho hw
  | deletedWebhook q =>
    obtain ⟨o₁, ho, rfl⟩ := Option.map_eq_some_iff.mp h
    exact deletedWebhook_counts ho hw
  | startedWebhook q =>
    obtain ⟨o₁, ho, rfl⟩ := Option.map_eq_some_iff.mp h
    refine runtimeWebhook_counts (fun m m' now hm => ?_) ho hw
    unfold HandleMeetingStartedWebhook.transitionToStarted at hm
    split at hm <;> cases hm
    exact ⟨rfl, rfl⟩
  | endedWebhook q =>
    obtain ⟨o₁, ho, rfl⟩ := Option.map_eq_some_iff.mp h
    refine runtimeWebhook_counts (fun m m' now hm => ?_) ho hw
    unfold HandleMeetingEndedWebhook.transitionToEnded at hm
    split at hm <;> cases hm
    exact ⟨rfl, rfl⟩

theorem move_counts (hI : Inv s) (hA : Knowledge s p) (h : (program E).move s p e = some (s', k)) :
    Counts s p e s'.row := by
  obtain ⟨o, ho, -, hrow, -, hf⟩ := moved h
  cases hw : o.written with
  | none =>
    rw [hw, Option.getD_none] at hrow
    exact .keep (congrArg Meeting.sync hrow) (congrArg Meeting.syncAttempts hrow)
  | some m' =>
    rw [hw, Option.getD_some] at hrow
    exact hrow ▸ act_counts hI hA hf ho hw

/-- A row under an operation was under it before, or the operation is new. -/
theorem Counts.operation_cases (h : Counts s p e m') {op : Uuid} (ho : m'.syncOperationId = some op) :
    s.row.syncOperationId = some op ∨ (op ∉ s.issued ∧ m'.syncAttempts = 0 ∧ m'.syncClaimToken = none) := by
  have kept (hs : SameOperation s.row m') : s.row.syncOperationId = some op := hs.operation ▸ ho
  cases h with
  | keep hs => exact .inl (kept (.of_sync hs))
  | intend hf hop ha hc =>
    have he := Option.some.inj (hop.symm.trans ho)
    exact .inr ⟨he ▸ hf.2.2, ha, hc⟩
  | consume _ _ _ hs => exact .inl (kept (.of_sync hs))
  | leave hop =>
    obtain hn | hs := hop
    · rw [hn] at ho
      cases ho
    · exact .inl (kept hs)
  | claim _ _ hs => exact .inl (kept hs)
  | retry _ _ hs => exact .inl (kept hs)
  | verify _ _ hs => exact .inl (kept hs)
  | giveUp _ _ hs => exact .inl (kept hs)
  | attach _ hs => exact .inl (kept hs)
  | answer _ _ hs => exact .inl (kept hs)
  | suspect _ _ hs => exact .inl (kept hs)

/-- **The attempts of an operation never decrease.** -/
theorem Counts.attempts_le (h : Counts s p e m') (hI : Inv s) {op : Uuid} (ho : s.row.syncOperationId = some op)
    (ho' : m'.syncOperationId = some op) : s.row.syncAttempts ≤ m'.syncAttempts := by
  cases h with
  | intend hf hop ha =>
    have he := Option.some.inj (hop.symm.trans ho')
    exact absurd (hI.operation_issued op ho) (he ▸ hf.2.2)
  | answer _ _ _ _ ha => cases ha <;> omega
  | _ => omega

/-- A claim is on a row that is in recovery. -/
theorem claimedOutline : Outline (program E) (fun _ _ _ => True) (fun s => Inv s ∧ s.row.sync.Claimed) Knowledge :=
  outline.strengthenStore (fun _ _ _ h => h) fun _ _ _ _ _ _ hA hc _ h => by
    rcases (move_effect hA h).1 with ⟨-, hl, -⟩ | ⟨-, hl, -⟩ | ⟨-, -, hs⟩
    · exact .late hl
    · exact .late hl
    · exact hc.step hs

theorem created_claimed (data : MeetingStoreData) (operationId : Uuid) (now : Time) :
    Holds (fun s => Inv s ∧ s.row.sync.Claimed) Knowledge (created data operationId now) := by
  obtain ⟨hI, hA⟩ := created_holds data operationId now
  refine ⟨⟨hI, fun hn => absurd ?_ hn⟩, hA⟩
  simp [created, CreateProjectMeeting.createMeetingWithOperation, CreateProjectMeeting.blankMeeting, Meeting.sync]

end Meetings
end Daywright
