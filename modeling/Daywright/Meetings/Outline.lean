/-
# What every process may rely on

A write of any process is a move of the protocol of the sync columns, but for the
answer of the creation (`move_effect`). With it goes a proof outline that every
run keeps, whatever the order of its steps (`outline`): the row is well formed,
its uuids have been drawn and `sync_started_at` is set (`Inv`); a process whose
request is with Zoom knows what kind of operation it finds as long as the row is
under its id, and a job that holds a copy of the row knows its lease as long as
the row is under its token (`Knowledge`).

Key definitions: `Inv`, `Knowledge`, `ActivatesLate`, `ConflictsLate`.
Key theorems: `move_effect`, `outline`.
-/
import Daywright.Meetings.Program

namespace Daywright
namespace Meetings

open Interleave Fence

/-! ### The invariant and the knowledge of the processes -/

structure Inv (s : Store) : Prop where
  wellFormed : s.row.sync.WellFormed
  operation_issued : ∀ op, s.row.syncOperationId = some op → op ∈ s.issued
  claim_issued : ∀ token, s.row.syncClaimToken = some token → token ∈ s.issued
  started : s.row.syncStartedAt ≠ none

/-- As long as the row is under this operation, `Q` holds of its type and payload. -/
def KnowsOperation (s : Store) (op : Uuid) (Q : Option MeetingSyncOperationType × Option SyncPayload → Prop) :
    Prop := op ∈ s.issued ∧ Knows op Q s.row.sync.operationRegister

/-- As long as the row is under this token, it has this lease. -/
def KnowsClaim (s : Store) (token : Uuid) (lease : Option Time) : Prop :=
  token ∈ s.issued ∧ Knows token (· = lease) s.row.sync.claimRegister

/-- A copy of the row that a job took while it owned it. -/
structure OwnedCopy (s : Store) (job : RecoverZoomMeetingOperationJob) (copy : Meeting) : Prop where
  operation : copy.syncOperationId = some job.operationId
  claim : copy.syncClaimToken = some job.claimToken
  lease : KnowsClaim s job.claimToken copy.syncLeaseExpiresAt

def Knowledge (s : Store) : Point → Prop
  | .update (.updateInZoom _ op) => KnowsOperation s op fun d => d.1 = some .update
  | .delete (.deleteFromZoom op) => KnowsOperation s op fun d => d.1 = some .delete ∧ d.2 = none
  | .recovery job (.fetchZoomMeeting _) => KnowsOperation s job.operationId fun d => d.1 = some .update
  | .recovery job .consumeMismatchCycle => KnowsOperation s job.operationId fun d => d.1 = some .update
  | .recovery job (.stampStartedAt copy _ _) => OwnedCopy s job copy
  | _ => True

/-! ### The effect of a move -/

/-- The answer of the creation makes the meeting Active under a pending operation. -/
def ActivatesLate (s : Store) (p : Point) (e : Input) : Prop :=
  ∃ q z, p = .create q ∧ e.reply = .created z ∧ CreateProjectMeeting.ActivatesLate s.row z

/-- The answer of the creation takes claim and due time from an open operation. -/
def ConflictsLate (s : Store) (p : Point) (e : Input) : Prop :=
  ∃ q z, p = .create q ∧ e.reply = .created z ∧ CreateProjectMeeting.ConflictsLate s.row z

/-- The meeting that the creation is answered with. -/
def createdBy (p : Point) (e : Input) : Option ZoomMeeting :=
  match p, e.reply with
  | .create _, .created z => some z
  | _, _ => none

theorem createdBy_eq_some {p : Point} {e : Input} {z : ZoomMeeting} :
    createdBy p e = some z ↔ ∃ q, p = .create q ∧ e.reply = .created z := by
  constructor
  · intro h
    unfold createdBy at h
    split at h
    · rename_i q z' he
      cases h
      exact ⟨q, rfl, he⟩
    · cases h
  · rintro ⟨q, rfl, he⟩
    simp [createdBy, he]

instance (s : Store) (p : Point) (e : Input) : Decidable (ActivatesLate s p e) :=
  decidable_of_iff (∃ z ∈ createdBy p e, CreateProjectMeeting.ActivatesLate s.row z) (by
    simp only [Option.mem_def, createdBy_eq_some, ActivatesLate]
    grind)

instance (s : Store) (p : Point) (e : Input) : Decidable (ConflictsLate s p e) :=
  decidable_of_iff (∃ z ∈ createdBy p e, CreateProjectMeeting.ConflictsLate s.row z) (by
    simp only [Option.mem_def, createdBy_eq_some, ConflictsLate]
    grind)

/-- The uuid a step draws. -/
def Fresh (s : Store) (p : Point) (e : Input) (u : Uuid) : Prop :=
  p.drawsUuid = true ∧ u = e.uuid ∧ u ∉ s.issued

/-- A late activation, a late conflict, or a move of the protocol. -/
def Effect (s : Store) (p : Point) (e : Input) (m' : Meeting) : Prop :=
  (ActivatesLate s p e ∧ Sync.Late s.row.sync m'.sync ∧ m'.syncStatus = .active) ∨
    (ConflictsLate s p e ∧ Sync.Late s.row.sync m'.sync ∧ m'.syncStatus = s.row.syncStatus) ∨
    (¬ ActivatesLate s p e ∧ ¬ ConflictsLate s p e ∧ Sync.Step (Fresh s p e) s.row.sync m'.sync)

variable {E : Env} {s s' : Store} {p : Point} {e : Input} {k : Option Point} {o : Outcome Point}
  {m' : Meeting}

theorem ActivatesLate.not_conflictsLate (h : ActivatesLate s p e) : ¬ ConflictsLate s p e := by
  obtain ⟨q, z, -, hz, ha, -⟩ := h
  rintro ⟨q', z', -, hz', hc, -⟩
  rw [hz] at hz'
  cases hz'
  rw [ha] at hc
  cases hc

theorem Effect.of_step (hp : ∀ q, p ≠ .create q) (h : Sync.Step (Fresh s p e) s.row.sync m'.sync) :
    Effect s p e m' := by
  refine .inr (.inr ⟨?_, ?_, h⟩)
  · rintro ⟨q, -, rfl, -⟩; exact hp q rfl
  · rintro ⟨q, -, rfl, -⟩; exact hp q rfl

theorem Effect.of_moves (hp : ∀ q, p ≠ .create q) (h : s.row.Moves (Fresh s p e) m') :
    Effect s p e m' ∧ (s.row.syncStartedAt ≠ none → m'.syncStartedAt ≠ none) :=
  ⟨.of_step hp h.sync, h.started⟩

theorem create_effect {q : CreateProjectMeeting.Point} (h : act E (.create q) s.row e = some o)
    (hw : o.written = some m') :
    Effect s (.create q) e m' ∧ (s.row.syncStartedAt ≠ none → m'.syncStartedAt ≠ none) := by
  obtain ⟨o₁, ho, rfl⟩ := Option.map_eq_some_iff.mp h
  obtain ⟨c, hc, rfl⟩ := Option.map_eq_some_iff.mp ho
  replace hw : c.written = some m' := hw
  have other : (∀ z, e.reply ≠ .created z) → s.row.Moves (Fresh s (.create q) e) m' →
      Effect s (.create q) e m' ∧ (s.row.syncStartedAt ≠ none → m'.syncStartedAt ≠ none) := by
    intro hr hm
    refine ⟨.inr (.inr ⟨?_, ?_, hm.sync⟩), hm.started⟩
    · rintro ⟨-, z, -, hz, -⟩; exact hr z hz
    · rintro ⟨-, z, -, hz, -⟩; exact hr z hz
  unfold CreateProjectMeeting.syncWithZoom at hc
  split at hc
  · rename_i z hz
    cases hc
    refine ⟨?_, CreateProjectMeeting.markMeetingAsSynced_started hw ▸ id⟩
    rcases CreateProjectMeeting.markMeetingAsSynced_written hw with h | h | ⟨ha, hn, h⟩
    · exact .inl ⟨⟨q, z, rfl, hz, h.1⟩, h.2⟩
    · exact .inr (.inl ⟨⟨q, z, rfl, hz, h.1⟩, h.2⟩)
    · refine .inr (.inr ⟨?_, ?_, h⟩)
      · rintro ⟨-, z', -, hz', hl⟩
        rw [hz] at hz'
        cases hz'
        exact ha hl
      · rintro ⟨-, z', -, hz', hl⟩
        rw [hz] at hz'
        cases hz'
        exact hn hl
  · rename_i hr
    cases hc
    exact other (by simp [hr]) (CreateProjectMeeting.markMeetingAsCreateUnknown_moves hw)
  · rename_i t hr
    cases hc
    split at hw
    · exact other (by simp [hr]) (CreateProjectMeeting.markMeetingAsFailed_moves hw)
    · cases hw
  · cases hc

theorem recoverPending_written (h : (recoverPendingStep s.row e).written = some m') :
    (RecoverPendingZoomMeetingOperations.claimNextDueOperation s.row e.uuid e.now e.now).written = some m' := by
  unfold recoverPendingStep at h
  split at h
  · rename_i hc
    rw [hc]
    exact h
  · cases h

/-- A write of a process that is not the creation is a move of the protocol. -/
theorem act_moves (hp : ∀ q, p ≠ .create q) (hA : Knowledge s p)
    (hf : p.drawsUuid = true → e.uuid ∉ s.issued) (h : act E p s.row e = some o)
    (hw : o.written = some m') : s.row.Moves (Fresh s p e) m' := by
  cases p with
  | create q => exact absurd rfl (hp q)
  | update q =>
    obtain ⟨o₁, ho, rfl⟩ := Option.map_eq_some_iff.mp h
    cases q with
    | saveUpdateIntent data =>
      simp only [UpdateProjectMeeting.step] at ho
      split at ho <;> cases ho
      · rename_i hc
        exact UpdateProjectMeeting.saveUpdateIntent_moves ⟨rfl, rfl, hf rfl⟩ (by rw [hc]; exact hw)
      · cases hw
    | updateInZoom data op =>
      obtain ⟨c, hc, rfl⟩ := Option.map_eq_some_iff.mp ho
      exact UpdateProjectMeeting.handleReply_moves hA.2 hc hw
  | delete q =>
    obtain ⟨o₁, ho, rfl⟩ := Option.map_eq_some_iff.mp h
    cases q with
    | handle =>
      cases ho
      split at hw <;> cases hw
    | saveDeleteIntent =>
      simp only [DeleteProjectMeeting.step] at ho
      split at ho <;> cases ho
      · rename_i hc
        exact DeleteProjectMeeting.saveDeleteIntent_moves ⟨rfl, rfl, hf rfl⟩ (by rw [hc]; exact hw)
      · cases hw
    | deleteFromZoom op =>
      obtain ⟨c, hc, rfl⟩ := Option.map_eq_some_iff.mp ho
      exact DeleteProjectMeeting.handleReply_moves hA.2 hc hw
  | recoverPending =>
    cases h
    exact RecoverPendingZoomMeetingOperations.claimNextDueOperation_moves ⟨rfl, rfl, hf rfl⟩
      (recoverPending_written hw)
  | recovery job stage =>
    obtain ⟨o₁, ho, rfl⟩ := Option.map_eq_some_iff.mp h
    refine (PerformZoomMeetingRecovery.step_written ?_ ho hw).1
    rintro rfl
    exact hA.2
  | ambiguous q =>
    obtain ⟨o₁, ho, rfl⟩ := Option.map_eq_some_iff.mp h
    refine RecoverAmbiguousZoomMeeting.step_moves ?_ ho hw
    rintro meeting rfl
    exact ⟨rfl, rfl, hf rfl⟩
  | manual q =>
    obtain ⟨o₁, ho, rfl⟩ := Option.map_eq_some_iff.mp h
    exact ResolveAmbiguousZoomMeetingManually.step_moves ho hw
  | createdWebhook data =>
    cases h
    exact (HandleMeetingCreatedWebhook.handle_written hw).1
  | updatedWebhook q =>
    obtain ⟨o₁, ho, rfl⟩ := Option.map_eq_some_iff.mp h
    exact HandleMeetingUpdatedWebhook.step_moves ho hw
  | deletedWebhook q =>
    obtain ⟨o₁, ho, rfl⟩ := Option.map_eq_some_iff.mp h
    exact (HandleMeetingDeletedWebhook.step_moves ho hw).1
  | startedWebhook q =>
    obtain ⟨o₁, ho, rfl⟩ := Option.map_eq_some_iff.mp h
    have hs := runtimeWebhookStep_sync transitionToStarted_sync ho hw
    exact .keep hs.1 (hs.2 ▸ id)
  | endedWebhook q =>
    obtain ⟨o₁, ho, rfl⟩ := Option.map_eq_some_iff.mp h
    have hs := runtimeWebhookStep_sync transitionToEnded_sync ho hw
    exact .keep hs.1 (hs.2 ▸ id)

/-- A success that comes late is written. -/
theorem written_of_late (h : act E p s.row e = some o) (hl : ActivatesLate s p e ∨ ConflictsLate s p e) :
    o.written ≠ none := by
  obtain ⟨q, z, rfl, hz, hl⟩ : ∃ q z, p = .create q ∧ e.reply = .created z ∧
      (CreateProjectMeeting.ActivatesLate s.row z ∨ CreateProjectMeeting.ConflictsLate s.row z) := by
    rcases hl with ⟨q, z, hp, hz, h⟩ | ⟨q, z, hp, hz, h⟩
    · exact ⟨q, z, hp, hz, .inl h⟩
    · exact ⟨q, z, hp, hz, .inr h⟩
  obtain ⟨o₁, ho, rfl⟩ := Option.map_eq_some_iff.mp h
  obtain ⟨c, hc, rfl⟩ := Option.map_eq_some_iff.mp ho
  simp only [CreateProjectMeeting.syncWithZoom, hz, Option.some.injEq] at hc
  subst hc
  exact CreateProjectMeeting.markMeetingAsSynced_of_late hl

/-- **The effect of a move.** Every step of every process is a move of the
protocol, or records the answer of the creation late. -/
theorem move_effect (hA : Knowledge s p) (h : (program E).move s p e = some (s', k)) :
    Effect s p e s'.row ∧ (s.row.syncStartedAt ≠ none → s'.row.syncStartedAt ≠ none) := by
  obtain ⟨o, ho, -, hrow, -, hf⟩ := moved h
  cases hw : o.written with
  | none =>
    rw [hw, Option.getD_none] at hrow
    rw [hrow]
    refine ⟨.inr (.inr ⟨fun hl => ?_, fun hl => ?_, .keep _⟩), id⟩
    · exact written_of_late ho (.inl hl) hw
    · exact written_of_late ho (.inr hl) hw
  | some m' =>
    rw [hw, Option.getD_some] at hrow
    rw [hrow]
    by_cases hp : ∃ q, p = .create q
    · obtain ⟨q, rfl⟩ := hp
      exact create_effect ho hw
    · have hp : ∀ q, p ≠ .create q := fun q hq => hp ⟨q, hq⟩
      exact Effect.of_moves hp (act_moves hp hA hf ho hw)

/-! ### The outline -/

theorem issued_subset (h : (program E).move s p e = some (s', k)) : ∀ u ∈ s.issued, u ∈ s'.issued := by
  obtain ⟨_, hmv⟩ := moved h
  intro u hu
  rw [hmv.issued]
  exact mem_drawn hu

theorem Fresh.issued (h : (program E).move s p e = some (s', k)) {u : Uuid} (hf : Fresh s p e u) :
    u ∈ s'.issued := by
  obtain ⟨_, hmv⟩ := moved h
  obtain ⟨hd, rfl, -⟩ := hf
  rw [hmv.issued]
  exact mem_drawn_self hd

theorem Effect.operation_change (h : Effect s p e m') :
    Change s.issued s.row.sync.operationRegister m'.sync.operationRegister := by
  rcases h with ⟨-, h, -⟩ | ⟨-, h, -⟩ | ⟨-, -, h⟩
  · exact h.operation_change
  · exact h.operation_change
  · exact h.operation_change fun u hu => hu.2.2

theorem Effect.claim_change (h : Effect s p e m') :
    Change s.issued s.row.sync.claimRegister m'.sync.claimRegister := by
  rcases h with ⟨-, h, -⟩ | ⟨-, h, -⟩ | ⟨-, -, h⟩
  · exact h.claim_change
  · exact h.claim_change
  · exact h.claim_change fun u hu => hu.2.2

theorem Effect.wellFormed (hw : s.row.sync.WellFormed) (h : Effect s p e m') : m'.sync.WellFormed := by
  rcases h with ⟨-, h, -⟩ | ⟨-, h, -⟩ | ⟨-, -, h⟩
  · exact hw.late h
  · exact hw.late h
  · exact hw.step h

theorem Effect.operation_mem (h : Effect s p e m') {op : Uuid} (ho : m'.syncOperationId = some op) :
    s.row.syncOperationId = some op ∨ Fresh s p e op := by
  rcases h with ⟨-, h, -⟩ | ⟨-, h, -⟩ | ⟨-, -, h⟩
  · exact .inl (h.operation.symm.trans ho)
  · exact .inl (h.operation.symm.trans ho)
  · exact h.operation_mem ho

theorem Effect.claim_mem (h : Effect s p e m') {token : Uuid} (hc : m'.syncClaimToken = some token) :
    s.row.syncClaimToken = some token ∨ Fresh s p e token := by
  rcases h with ⟨-, h, -⟩ | ⟨-, h, -⟩ | ⟨-, -, h⟩
  · rw [show m'.syncClaimToken = none from h.claim] at hc
    cases hc
  · rw [show m'.syncClaimToken = none from h.claim] at hc
    cases hc
  · exact h.claim_mem hc

theorem Inv.move (hI : Inv s) (hA : Knowledge s p) (h : (program E).move s p e = some (s', k)) : Inv s' := by
  obtain ⟨he, ht⟩ := move_effect hA h
  refine ⟨he.wellFormed hI.wellFormed, fun op ho => ?_, fun token hc => ?_, ht hI.started⟩
  · rcases he.operation_mem ho with ho | hf
    · exact issued_subset h _ (hI.operation_issued _ ho)
    · exact hf.issued h
  · rcases he.claim_mem hc with hc | hf
    · exact issued_subset h _ (hI.claim_issued _ hc)
    · exact hf.issued h

theorem KnowsOperation.frame {op : Uuid} {Q : Option MeetingSyncOperationType × Option SyncPayload → Prop}
    (hA : Knowledge s p) (h : (program E).move s p e = some (s', k)) (hq : KnowsOperation s op Q) :
    KnowsOperation s' op Q :=
  ⟨issued_subset h _ hq.1, (move_effect hA h).1.operation_change.frame hq.1 hq.2⟩

theorem KnowsClaim.frame {token : Uuid} {lease : Option Time} (hA : Knowledge s p)
    (h : (program E).move s p e = some (s', k)) (hq : KnowsClaim s token lease) : KnowsClaim s' token lease :=
  ⟨issued_subset h _ hq.1, (move_effect hA h).1.claim_change.frame hq.1 hq.2⟩

/-- What a process knows, no step of another makes false. -/
theorem Knowledge.frame (hA : Knowledge s p) (h : (program E).move s p e = some (s', k)) {q : Point}
    (hq : Knowledge s q) : Knowledge s' q := by
  unfold Knowledge at hq ⊢
  split
  · exact KnowsOperation.frame hA h hq
  · exact KnowsOperation.frame hA h hq
  · exact KnowsOperation.frame hA h hq
  · exact KnowsOperation.frame hA h hq
  · exact ⟨hq.operation, hq.claim, hq.lease.frame hA h⟩
  · trivial

theorem KnowsOperation.here {op : Uuid} {Q : Option MeetingSyncOperationType × Option SyncPayload → Prop}
    (hI : Inv s) (ho : s.row.syncOperationId = some op)
    (hq : Q (s.row.syncOperationType, s.row.syncPayload)) : KnowsOperation s op Q :=
  ⟨hI.operation_issued op ho, fun _ => hq⟩

theorem Knowledge.of_entry (h : p.entry = true) : Knowledge s p := by
  unfold Knowledge
  split <;> trivial

theorem update_next {q : UpdateProjectMeeting.Point} {r : Point} (hI : Inv s')
    (ho : act E (.update q) s.row e = some o) (hrow : s'.row = o.written.getD s.row)
    (hk : o.next = some r) : Knowledge s' r := by
  obtain ⟨o₁, ho₁, rfl⟩ := Option.map_eq_some_iff.mp ho
  cases q with
  | saveUpdateIntent data =>
    simp only [UpdateProjectMeeting.step] at ho₁
    split at ho₁ <;> cases ho₁ <;> cases hk
    rename_i m' hc
    obtain ⟨hop, ht⟩ := UpdateProjectMeeting.saveUpdateIntent_written (congrArg Commit.written hc)
    rw [Outcome.map_written, Option.getD_some] at hrow
    exact .here hI (hrow ▸ hop) (hrow ▸ ht)
  | updateInZoom data op =>
    obtain ⟨c, -, rfl⟩ := Option.map_eq_some_iff.mp ho₁
    cases hk

theorem delete_next {q : DeleteProjectMeeting.Point} {r : Point} (hI : Inv s')
    (ho : act E (.delete q) s.row e = some o) (hrow : s'.row = o.written.getD s.row)
    (hk : o.next = some r) : Knowledge s' r := by
  obtain ⟨o₁, ho₁, rfl⟩ := Option.map_eq_some_iff.mp ho
  cases q with
  | handle =>
    cases ho₁
    split at hk <;> cases hk
    trivial
  | saveDeleteIntent =>
    simp only [DeleteProjectMeeting.step] at ho₁
    split at ho₁ <;> cases ho₁ <;> cases hk
    rename_i m' hc
    obtain ⟨hop, ht⟩ := DeleteProjectMeeting.saveDeleteIntent_written (congrArg Commit.written hc)
    rw [Outcome.map_written, Option.getD_some] at hrow
    exact .here hI (hrow ▸ hop) (hrow ▸ ht)
  | deleteFromZoom op =>
    obtain ⟨c, -, rfl⟩ := Option.map_eq_some_iff.mp ho₁
    cases hk

/-- A job that goes on to one of these stages has written nothing. -/
theorem recovery_next {job : RecoverZoomMeetingOperationJob} {stage : PerformZoomMeetingRecovery.Stage}
    {r : Point} (hI : Inv s) (hA : Knowledge s (.recovery job stage))
    (ho : act E (.recovery job stage) s.row e = some o) (hk : o.next = some r) : Knowledge s r := by
  obtain ⟨o₁, ho₁, rfl⟩ := Option.map_eq_some_iff.mp ho
  obtain ⟨stage', hs, rfl⟩ := Option.map_eq_some_iff.mp hk
  have hr := PerformZoomMeetingRecovery.step_reaches ho₁ hs
  cases stage' with
  | fetchZoomMeeting payload => exact .here hI (PerformZoomMeetingRecovery.owns_iff.mp hr.1).2.2 hr.2
  | consumeMismatchCycle =>
    obtain ⟨payload, rfl⟩ := hr
    exact hA
  | stampStartedAt copy payload password =>
    obtain ⟨hown, rfl⟩ := hr
    obtain ⟨hc, -, hop⟩ := PerformZoomMeetingRecovery.owns_iff.mp hown
    exact ⟨hop, hc, hI.claim_issued _ hc, fun _ => rfl⟩
  | _ => trivial

/-- The point a process goes on to: it knows what it has found or written. -/
theorem Knowledge.next (hI : Inv s) (hA : Knowledge s p) (h : (program E).move s p e = some (s', k))
    {r : Point} (hk : k = some r) : Knowledge s' r := by
  obtain ⟨o, ho, rfl, hrow, -, -⟩ := moved h
  have hI' := hI.move hA h
  cases p with
  | update q => exact update_next hI' ho hrow hk
  | delete q => exact delete_next hI' ho hrow hk
  | recovery job stage => exact Knowledge.frame hA h (recovery_next hI hA ho hk)
  | recoverPending =>
    cases ho
    unfold recoverPendingStep at hk
    split at hk
    · obtain ⟨op, -, rfl⟩ := Option.map_eq_some_iff.mp hk
      trivial
    · cases hk
  | createdWebhook data =>
    cases ho
    cases hk
  | _ =>
    obtain ⟨o₁, -, rfl⟩ := Option.map_eq_some_iff.mp ho
    obtain ⟨r', -, rfl⟩ := Option.map_eq_some_iff.mp hk
    trivial

/-- **Every run keeps the outline**, late answers included. -/
theorem outline : Outline (program E) (fun _ _ _ => True) Inv Knowledge where
  entry _ _ _ hp := .of_entry hp
  move _ _ _ _ _ hI hA _ h := ⟨hI.move hA h, fun _ hk => hA.next hI h hk⟩
  frame _ _ _ _ _ _ _ hA _ h hq := hA.frame h hq

theorem created_holds (data : MeetingStoreData) (operationId : Uuid) (now : Time) :
    Holds Inv Knowledge (created data operationId now) := by
  refine ⟨⟨?_, ?_, ?_, ?_⟩, ?_⟩
  · constructor <;>
      simp [created, CreateProjectMeeting.createMeetingWithOperation, CreateProjectMeeting.blankMeeting,
        Meeting.sync]
  · simp [created, CreateProjectMeeting.createMeetingWithOperation]
  · simp [created, CreateProjectMeeting.createMeetingWithOperation, CreateProjectMeeting.blankMeeting]
  · simp [created, CreateProjectMeeting.createMeetingWithOperation]
  · intro p hp
    rw [List.mem_singleton.mp hp]
    trivial

/-- In every reachable configuration. -/
theorem holds_of_run {data : MeetingStoreData} {operationId : Uuid} {now : Time}
    {tr : List (Step Store Point Input)} {c : Config Store Point}
    (h : (program E).Run (created data operationId now) tr c) : Holds Inv Knowledge c :=
  outline.run (created_holds data operationId now) h fun _ _ _ _ _ => trivial

end Meetings
end Daywright
