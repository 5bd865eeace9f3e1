/-
# The late answer of a creation

A creation is still with Zoom when a webhook tells its Zoom id and the recovery
of creations makes the meeting Active. Whatever happens to the meeting then, the
answer of the creation leaves status, operation, claim, due times and runtime
status alone exactly if it is harmless (`undisturbed_iff`): an error, the same
Zoom id while no update or failed operation is pending, or another Zoom id while
there is no claim, lease or due time to lose.

Key definitions: `Undisturbed`, `Harmless`, `RecoveredBy`.
Key theorems: `syncWithZoom_undisturbed_iff`, `undisturbed_iff`.
-/
import Daywright.Meetings.Outline

namespace Daywright
namespace Meetings

open Interleave CreateProjectMeeting

/-! ### One answer -/

/-- What a late answer must leave alone. -/
structure Undisturbed (m m' : Meeting) : Prop where
  syncStatus : m'.syncStatus = m.syncStatus
  operation : m'.syncOperationId = m.syncOperationId
  type : m'.syncOperationType = m.syncOperationType
  payload : m'.syncPayload = m.syncPayload
  claim : m'.syncClaimToken = m.syncClaimToken
  lease : m'.syncLeaseExpiresAt = m.syncLeaseExpiresAt
  available : m'.syncAvailableAt = m.syncAvailableAt
  status : m'.status = m.status

/-- The answers that do. -/
def Harmless (m : Meeting) : Reply → Prop
  | .created z =>
    (m.meetingId = some z.meetingId ∧ m.syncStatus ≠ .updating ∧ m.syncStatus ≠ .updateFailed ∧
        m.syncStatus ≠ .deleteFailed) ∨
      (m.meetingId ≠ some z.meetingId ∧ m.syncClaimToken = none ∧ m.syncLeaseExpiresAt = none ∧
        m.syncAvailableAt = none)
  | _ => True

theorem Undisturbed.refl (m : Meeting) : Undisturbed m m := ⟨rfl, rfl, rfl, rfl, rfl, rfl, rfl, rfl⟩

variable {m : Meeting} {id : ZoomId} {z : ZoomMeeting} {now : Time}

theorem markMeetingAsFailed_established (he : m.sync.Established id) (e : Throwable) :
    markMeetingAsFailed m e = .unchanged :=
  if_pos fun hs => he.2 (.inr (.inl hs))

theorem markMeetingAsCreateUnknown_established (he : m.sync.Established id) (e : Throwable) :
    markMeetingAsCreateUnknown m e now = .unchanged := by
  unfold markMeetingAsCreateUnknown
  split
  · rfl
  · exact if_pos ⟨fun hs => he.2 (.inr (.inl hs)), fun hs => he.2 (.inr (.inr (.inl hs)))⟩

/-- The same Zoom id: recorded while an update or a failed deletion is pending,
dropped otherwise. -/
theorem markMeetingAsSynced_same (he : m.sync.Established id) (hz : m.meetingId = some z.meetingId) :
    Undisturbed m ((markMeetingAsSynced m z now).written.getD m) ↔
      m.syncStatus ≠ .updating ∧ m.syncStatus ≠ .updateFailed ∧ m.syncStatus ≠ .deleteFailed := by
  have hc : hasConflictingMeetingId m z = false := hasConflictingMeetingId_eq_false.mpr (.inr hz)
  have hsame : m.sameMeetingId z.meetingId = true := by simp [Meeting.sameMeetingId, hz]
  by_cases hs : m.syncStatus = .updating ∨ m.syncStatus = .updateFailed ∨ m.syncStatus = .deleteFailed
  · have hlate : (markMeetingAsSynced m z now).written ≠ none := markMeetingAsSynced_of_late (.inl ⟨hc, hs⟩)
    obtain ⟨m', hm'⟩ := Option.ne_none_iff_exists'.mp hlate
    have hw : _ ∨ _ ∨ (_ ∧ _ ∧ Sync.Step (fun _ => True) _ _) := markMeetingAsSynced_written hm'
    rcases hw with ⟨-, -, ha⟩ | ⟨h, -⟩ | ⟨h, -⟩
    · rw [hm', Option.getD_some]
      constructor
      · intro hu
        have hactive : m.syncStatus = .active := hu.syncStatus.symm.trans ha
        rw [hactive] at hs
        simp at hs
      · rintro ⟨h1, h2, h3⟩
        rcases hs with h | h | h
        · exact absurd h h1
        · exact absurd h h2
        · exact absurd h h3
    · have hconf : hasConflictingMeetingId m z = true := h.1
      rw [hc] at hconf
      cases hconf
    · exact absurd ⟨hc, hs⟩ h
  · simp only [not_or] at hs
    refine ⟨fun _ => ⟨hs.1, hs.2.1, hs.2.2⟩, fun _ => ?_⟩
    have hw : (markMeetingAsSynced m z now).written = none := by
      have hn := he.2
      simp only [MeetingSyncStatus.IsCreation, not_or] at hn
      cases hst : m.syncStatus with
      | active => simp [markMeetingAsSynced, isAlreadyActiveWithSameId, hst, hsame]
      | deleting =>
        simp [markMeetingAsSynced, isAlreadyActiveWithSameId, hst, hc, finalizeMeetingAsActive,
          Meeting.transitionTo, MeetingSyncStatus.validTransitions, Commit.afterTransition]
      | deleted =>
        simp [markMeetingAsSynced, isAlreadyActiveWithSameId, hst, hc, finalizeMeetingAsActive,
          Meeting.transitionTo, MeetingSyncStatus.validTransitions, Commit.afterTransition]
      | _ => simp_all [Meeting.sync]
    rw [hw]
    exact .refl m

/-- Another Zoom id: the claim, the lease and the due time are lost. -/
theorem markMeetingAsSynced_other (he : m.sync.Established id) (hz : m.meetingId ≠ some z.meetingId) :
    Undisturbed m ((markMeetingAsSynced m z now).written.getD m) ↔
      m.syncClaimToken = none ∧ m.syncLeaseExpiresAt = none ∧ m.syncAvailableAt = none := by
  have hid : m.meetingId = some id := he.1
  have hc : hasConflictingMeetingId m z = true := hasConflictingMeetingId_eq_true.mpr ⟨by simp [hid], hz⟩
  have hncr : m.syncStatus ≠ .creating := fun hs => he.2 (.inr (.inl hs))
  have hsync : markMeetingAsSynced m z now = handleMeetingIdConflict m := by
    simp [markMeetingAsSynced, isAlreadyActiveWithSameId, Meeting.sameMeetingId, hz, hc]
  obtain ⟨m', hm'⟩ : ∃ m', (handleMeetingIdConflict m).written = some m' := by
    simp [handleMeetingIdConflict, hncr, Commit.afterTransition]
  obtain ⟨-, hs, -, hst⟩ := handleMeetingIdConflict_written hm'
  have hs := hs hncr
  rw [hsync, hm', Option.getD_some]
  constructor
  · intro hu
    have hclaim : m'.syncClaimToken = none := congrArg Sync.claim hs
    have hlease : m'.syncLeaseExpiresAt = none := congrArg Sync.lease hs
    have havailable : m'.syncAvailableAt = none := congrArg Sync.available hs
    exact ⟨hu.claim.symm.trans hclaim, hu.lease.symm.trans hlease, hu.available.symm.trans havailable⟩
  · rintro ⟨hcl, hl, ha⟩
    exact ⟨congrArg Sync.status hs, congrArg Sync.operation hs, congrArg Sync.type hs,
      congrArg Sync.payload hs, (congrArg Sync.claim hs).trans hcl.symm,
      (congrArg Sync.lease hs).trans hl.symm, (congrArg Sync.available hs).trans ha.symm, hst⟩

theorem syncWithZoom_undisturbed_iff (he : m.sync.Established id) {reply : Reply} {c : Commit}
    (h : syncWithZoom m reply now = some c) : Undisturbed m (c.written.getD m) ↔ Harmless m reply := by
  unfold syncWithZoom at h
  split at h
  · rename_i z
    cases h
    by_cases hz : m.meetingId = some z.meetingId
    · simp [Harmless, markMeetingAsSynced_same he hz, hz]
    · simp [Harmless, markMeetingAsSynced_other he hz, hz]
  · cases h
    rw [markMeetingAsCreateUnknown_established he]
    exact ⟨fun _ => trivial, fun _ => .refl m⟩
  · cases h
    rw [markMeetingAsFailed_established he, ite_self]
    exact ⟨fun _ => trivial, fun _ => .refl m⟩
  · cases h

/-! ### Along a run -/

/-- The step is the recovery of creations making the meeting Active. -/
def RecoveredBy (st : Step Store Point Input) : Prop :=
  (∃ token z e, st.Fires (.ambiguous (.finalize token z)) e) ∧
    st.pre.store.row.syncStatus = .createUnknown ∧ st.post.store.row.syncStatus = .active

variable {E : Env}

theorem Effect.established {s : Store} {p : Point} {e : Input} {m' : Meeting}
    (he : s.row.sync.Established id) (h : Effect s p e m') : m'.sync.Established id := by
  rcases h with ⟨-, h, -⟩ | ⟨-, h, -⟩ | ⟨-, -, h⟩
  · exact he.late h
  · exact he.late h
  · exact he.step h

theorem establishedOutline (id : ZoomId) : Outline (program E) (fun _ _ _ => True)
    (fun s => Inv s ∧ s.row.sync.Established id) Knowledge :=
  outline.strengthenStore (fun _ _ _ h => h) fun _ _ _ _ _ _ hA hid _ h => by
    have he := (move_effect hA h).1
    exact he.established hid

/-- Finalising a recovery establishes the meeting. -/
theorem RecoveredBy.established {st : Step Store Point Input}
    (hs : (program E).step st.pre st.act = some st.post) (h : RecoveredBy st) :
    ∃ id, st.post.store.row.sync.Established id := by
  obtain ⟨⟨token, z, e, i, ha, hp⟩, hpre, hpost⟩ := h
  have hs' := hs
  rw [ha] at hs'
  rcases (program E).step_store hs' with he | ⟨p, e', k, hf, hm⟩
  · rw [he, hpre] at hpost
    cases hpost
  obtain ⟨rfl, rfl⟩ := (Step.fires_move hp).mp hf
  obtain ⟨o, ho, -, hrow, -, -⟩ := moved hm
  obtain ⟨o₁, ho₁, rfl⟩ := Option.map_eq_some_iff.mp ho
  cases hw : o₁.written with
  | none =>
    rw [Outcome.map_written, hw, Option.getD_none] at hrow
    rw [hrow, hpre] at hpost
    cases hpost
  | some m' =>
    rw [Outcome.map_written, hw, Option.getD_some] at hrow
    rw [hrow] at hpost ⊢
    have hid := RecoverAmbiguousZoomMeeting.finalize_written ho₁ hw hpost
    refine ⟨z.meetingId, hid, ?_⟩
    have hst : m'.sync.status = .active := hpost
    simp [MeetingSyncStatus.IsCreation, hst]

/-- **A late answer leaves the meeting alone exactly if it is harmless.** The
recovery of creations has made the meeting Active while the creation was with
Zoom; `c` is reached by whatever steps came after that, and the creation is
answered now. -/
theorem undisturbed_iff {data : MeetingStoreData} {operationId : Uuid} {t₀ : Time}
    {tr : List (Step Store Point Input)} {c c' : Config Store Point} {i : ℕ} {p : CreateProjectMeeting.Point}
    {e : Input} (h : (program E).Run (created data operationId t₀) tr c) (hrec : ∃ st ∈ tr, RecoveredBy st)
    (hp : c.procs[i]? = some (.create p)) (hs : (program E).step c (.move i e) = some c') :
    Undisturbed c.store.row c'.store.row ↔ Harmless c.store.row e.reply := by
  obtain ⟨st, hst, hr⟩ := hrec
  obtain ⟨tr₁, tr₂, -, h₁, h₂, h₃⟩ := h.of_mem (program E) hst
  obtain ⟨id, hid⟩ := hr.established h₂
  have hpost := holds_of_run (.snoc _ h₁ h₂)
  obtain ⟨⟨-, he⟩, -⟩ := (establishedOutline id).run ⟨⟨hpost.1, hid⟩, hpost.2⟩ h₃ fun _ _ _ _ _ => trivial
  obtain ⟨k, hm⟩ := (program E).move_of_step hp hs
  obtain ⟨o, ho, -, hrow, -, -⟩ := moved hm
  obtain ⟨o₁, ho₁, rfl⟩ := Option.map_eq_some_iff.mp ho
  obtain ⟨w, hw, rfl⟩ := Option.map_eq_some_iff.mp ho₁
  rw [hrow]
  exact syncWithZoom_undisturbed_iff he hw

/-! ### Runs -/

/-- The step is the webhook attaching the Zoom id to the creation. -/
def AttachedBy (st : Step Store Point Input) : Prop :=
  (∃ data e, st.Fires (.createdWebhook data) e) ∧ st.pre.store.row.meetingId = none ∧
    st.post.store.row.meetingId ≠ none

def isFinalize : Point → Bool
  | .ambiguous (.finalize _ _) => true
  | _ => false

def isCreatedWebhook : Point → Bool
  | .createdWebhook _ => true
  | _ => false

def attaches (st : Step Store Point Input) : Bool :=
  st.mover.any isCreatedWebhook && st.pre.store.row.meetingId.isNone && st.post.store.row.meetingId.isSome

def recovers (st : Step Store Point Input) : Bool :=
  st.mover.any isFinalize && st.pre.store.row.syncStatus == .createUnknown &&
    st.post.store.row.syncStatus == .active

theorem attachedBy_of_attaches {st : Step Store Point Input} (h : attaches st = true) : AttachedBy st := by
  simp only [attaches, Bool.and_eq_true, Option.isNone_iff_eq_none, Option.isSome_iff_ne_none] at h
  obtain ⟨p, hp, hc⟩ := (Option.any_eq_true _ _).mp h.1.1
  obtain ⟨e, hf⟩ := Step.fires_of_mover hp
  cases p <;> first | exact ⟨⟨_, e, hf⟩, h.1.2, h.2⟩ | cases hc

theorem recoveredBy_of_recovers {st : Step Store Point Input} (h : recovers st = true) : RecoveredBy st := by
  simp only [recovers, Bool.and_eq_true, beq_iff_eq] at h
  obtain ⟨p, hp, hc⟩ := (Option.any_eq_true _ _).mp h.1.1
  obtain ⟨e, hf⟩ := Step.fires_of_mover hp
  unfold isFinalize at hc
  split at hc
  · exact ⟨⟨_, _, e, hf⟩, h.1.2, h.2⟩
  · cases hc

/-- The creation is still with Zoom, and its answer takes the row as `q` says. -/
def answers (answer : Input) (q : Meeting → Meeting → Bool) (tr : List (Step Store Point Input))
    (c : Config Store Point) : Bool :=
  tr.any attaches && tr.any recovers &&
    c.procs[0]?.any (fun p => match p with | .create .createMeeting => true | _ => false) &&
    ((program Sample.env).step c (.move 0 answer)).any fun c' => q c.store.row c'.store.row

theorem exists_recovered (acts : List (Act Point Input)) (answer : Input) {q : Meeting → Meeting → Bool}
    (h : (((program Sample.env).replay Sample.start (Sample.establish ++ acts)).any fun r =>
      answers answer q r.1 r.2) = true) :
    ∃ tr c c', (program Sample.env).Run Sample.start tr c ∧ (∃ st ∈ tr, AttachedBy st) ∧
      (∃ st ∈ tr, RecoveredBy st) ∧ c.procs[0]? = some (.create .createMeeting) ∧
      (program Sample.env).step c (.move 0 answer) = some c' ∧ q c.store.row c'.store.row = true := by
  obtain ⟨tr, c, hrun, hq⟩ := (program Sample.env).exists_run_of_replay _ (q := answers answer q) h
  unfold answers at hq
  simp only [Bool.and_eq_true, List.any_eq_true] at hq
  obtain ⟨⟨⟨⟨st₁, h₁, ha⟩, st₂, h₂, hr⟩, hp⟩, hs⟩ := hq
  obtain ⟨c', hc', hq⟩ := (Option.any_eq_true _ _).mp hs
  obtain ⟨p, hp, hcr⟩ := (Option.any_eq_true _ _).mp hp
  split at hcr
  · exact ⟨tr, c, c', hrun, ⟨st₁, h₁, attachedBy_of_attaches ha⟩, ⟨st₂, h₂, recoveredBy_of_recovers hr⟩,
      hp, hc', hq⟩
  · cases hcr

/-- Rejected while the meeting is being updated, the creation leaves it alone. -/
theorem undisturbed_iff_rejected : ∃ tr c c', (program Sample.env).Run Sample.start tr c ∧
    (program Sample.env).step c (.move 0 (Sample.input 70000 "" (.throws .externalFailure))) = some c' ∧
    c.store.row.syncStatus = .updating ∧ Undisturbed c.store.row c'.store.row := by
  obtain ⟨tr, c, c', h, -, hr, hp, hs, hq⟩ := exists_recovered Sample.startUpdate
    (Sample.input 70000 "" (.throws .externalFailure)) (q := fun m _ => m.syncStatus == .updating) (by decide)
  exact ⟨tr, c, c', h, hs, by simpa using hq, (undisturbed_iff h hr hp hs).mpr trivial⟩

/-- Successful with the same Zoom id while the meeting is being updated, the
creation makes it Active. -/
theorem disturbed : ∃ tr c c', (program Sample.env).Run Sample.start tr c ∧
    (∃ st ∈ tr, AttachedBy st) ∧ (∃ st ∈ tr, RecoveredBy st) ∧
    c.procs[0]? = some (.create .createMeeting) ∧
    (program Sample.env).step c (Sample.answerCreate Sample.zoomMeeting) = some c' ∧
    ¬ Undisturbed c.store.row c'.store.row := by
  obtain ⟨tr, c, c', h, ha, hr, hp, hs, hq⟩ := exists_recovered Sample.startUpdate
    (Sample.input 70000 "" (.created Sample.zoomMeeting))
    (q := fun m m' => m.syncStatus == .updating && m'.syncStatus == .active) (by decide)
  simp only [Bool.and_eq_true, beq_iff_eq] at hq
  obtain ⟨hupdating, hactive⟩ := hq
  refine ⟨tr, c, c', h, ha, hr, hp, hs, fun hu => ?_⟩
  have hsame : c'.store.row.syncStatus = c.store.row.syncStatus := hu.syncStatus
  rw [hactive, hupdating] at hsame
  cases hsame

end Meetings
end Daywright
