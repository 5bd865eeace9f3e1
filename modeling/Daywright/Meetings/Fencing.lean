/-
# Fencing of recovery jobs

Every write of a job that locks the row first is made to a row that the job owns:
its token, an unexpired lease, its operation. The one write that does not lock
the row, the start of a retry, is made to such a row exactly if claim, lease and
operation are still those of the copy the job checked and that lease has not run
out (`fenced_iff`); the run `staleRestamp` shows the other case.

Key definitions: `Owned`, `Fenced`, `RestampsOwnCopy`.
Key theorems: `fenced_iff`.
-/
import Daywright.Meetings.Outline

namespace Daywright
namespace Meetings

open Interleave PerformZoomMeetingRecovery

/-- The row carries the job's token under an unexpired lease, and its operation. -/
def Owned (m : Meeting) (job : RecoverZoomMeetingOperationJob) (now : Time) : Prop :=
  m.syncClaimToken = some job.claimToken ∧ (∃ lease, m.syncLeaseExpiresAt = some lease ∧ now < lease) ∧
    m.syncOperationId = some job.operationId

/-- If the step is a write of a recovery job, the job owns the row it writes to. -/
def Fenced (E : Env) (st : Step Store Point Input) : Prop :=
  ∀ job stage e o, st.Fires (.recovery job stage) e → act E (.recovery job stage) st.pre.store.row e = some o →
    o.written ≠ none → Owned st.pre.store.row job e.now

/-- Where a job records the start of a retry, claim, lease and operation of the row
are still those of its copy, and the lease has not run out. -/
def RestampsOwnCopy (s : Store) (p : Point) (e : Input) : Prop :=
  ∀ job copy payload password, p = .recovery job (.stampStartedAt copy payload password) → e.reply = .none →
    s.row.syncClaimToken = copy.syncClaimToken ∧ s.row.syncLeaseExpiresAt = copy.syncLeaseExpiresAt ∧
      s.row.syncOperationId = copy.syncOperationId ∧
      ∃ lease, copy.syncLeaseExpiresAt = some lease ∧ e.now < lease

variable {E : Env} {s : Store} {job : RecoverZoomMeetingOperationJob}

/-- A job that still owns the row finds its copy of claim, lease and operation there. -/
theorem OwnedCopy.of_owned {copy : Meeting} {now : Time} (hc : OwnedCopy s job copy)
    (ho : Owned s.row job now) : s.row.syncClaimToken = copy.syncClaimToken ∧
      s.row.syncLeaseExpiresAt = copy.syncLeaseExpiresAt ∧ s.row.syncOperationId = copy.syncOperationId ∧
      ∃ lease, copy.syncLeaseExpiresAt = some lease ∧ now < lease := by
  obtain ⟨hclaim, hlease, hop⟩ := ho
  have hl : s.row.syncLeaseExpiresAt = copy.syncLeaseExpiresAt := hc.lease.2 hclaim
  exact ⟨hclaim.trans hc.claim.symm, hl, hop.trans hc.operation.symm, hl ▸ hlease⟩

theorem OwnedCopy.owned {copy : Meeting} {now : Time} (hc : OwnedCopy s job copy)
    (hclaim : s.row.syncClaimToken = copy.syncClaimToken)
    (hl : s.row.syncLeaseExpiresAt = copy.syncLeaseExpiresAt)
    (hop : s.row.syncOperationId = copy.syncOperationId)
    (hlease : ∃ lease, copy.syncLeaseExpiresAt = some lease ∧ now < lease) : Owned s.row job now :=
  ⟨hclaim.trans hc.claim, hl ▸ hlease, hop.trans hc.operation⟩

/-- The start of a retry is written whatever the row has become. -/
theorem act_stampStartedAt {copy : Meeting} {payload : Fields} {password : Bool} {m : Meeting} {e : Input}
    {o : Outcome Point} (h : act E (.recovery job (.stampStartedAt copy payload password)) m e = some o) :
    o.written ≠ none ↔ e.reply = .none := by
  obtain ⟨o₁, ho, rfl⟩ := Option.map_eq_some_iff.mp h
  unfold PerformZoomMeetingRecovery.step at ho
  cases hr : e.reply with
  | none =>
    simp only [hr, run] at ho
    cases ho
    simp
  | throws t =>
    simp only [hr, run] at ho
    obtain ⟨stage, -, rfl⟩ := Option.map_eq_some_iff.mp ho
    simp
  | _ => simp [hr, run] at ho

/-- The writes of one move are to an owned row exactly if a retry it starts is
recorded on the copy the job checked. -/
theorem owned_iff {p : Point} {e : Input} (hA : Knowledge s p) (ha : (act E p s.row e).isSome = true) :
    (∀ job stage o, p = .recovery job stage → act E p s.row e = some o → o.written ≠ none →
      Owned s.row job e.now) ↔ RestampsOwnCopy s p e := by
  constructor
  · rintro h job copy payload password rfl hr
    obtain ⟨o, ho⟩ := Option.isSome_iff_exists.mp ha
    exact OwnedCopy.of_owned hA (h job _ o rfl ho ((act_stampStartedAt ho).mpr hr))
  · rintro h job stage o rfl ho hw
    obtain ⟨m', hm'⟩ := Option.ne_none_iff_exists'.mp hw
    obtain ⟨o₁, ho₁, rfl⟩ := Option.map_eq_some_iff.mp ho
    have hmis : stage = .consumeMismatchCycle → s.row.syncOperationId = some job.operationId →
        s.row.syncOperationType = some .update := by
      rintro rfl
      exact hA.2
    obtain ⟨-, hown | ⟨copy, payload, password, rfl⟩⟩ : s.row.Moves (fun _ => True) m' ∧ _ :=
      step_written hmis ho₁ hm'
    · exact owns_iff.mp hown
    · obtain ⟨hclaim, hl, hop, hlease⟩ := h job copy payload password rfl ((act_stampStartedAt ho).mp hw)
      exact OwnedCopy.owned hA hclaim hl hop hlease

/-- **Fencing.** Along a run, every write of every recovery job is made to a row
that carries its unexpired claim and its operation, exactly if no retry is
recorded after claim, lease or operation of the checked copy are gone. -/
theorem fenced_iff {data : MeetingStoreData} {operationId : Uuid} {now : Time}
    {tr : List (Step Store Point Input)} {c : Config Store Point}
    (h : (program E).Run (created data operationId now) tr c) :
    (∀ st ∈ tr, Fenced E st) ↔ ∀ st ∈ tr, st.Meets RestampsOwnCopy := by
  refine (outline.restrict fun _ _ _ _ => trivial).forall_iff (fun c a c' hc hs => ?_)
    (created_holds data operationId now) h
  constructor
  · intro hf p e hfires
    obtain ⟨i, rfl, hp⟩ := hfires
    have hA := hc.2 p (List.mem_of_getElem? hp)
    obtain ⟨k, hm⟩ := (program E).move_of_step hp hs
    obtain ⟨o, ho, -⟩ := moved hm
    refine (owned_iff hA (Option.isSome_iff_exists.mpr ⟨o, ho⟩)).mp ?_
    rintro job stage o rfl ho hw
    exact hf job stage e o ⟨i, rfl, hp⟩ ho hw
  · intro hok job stage e o hfires ho hw
    obtain ⟨i, rfl, hp⟩ := hfires
    have hA := hc.2 _ (List.mem_of_getElem? hp)
    exact (owned_iff hA (Option.isSome_iff_exists.mpr ⟨o, ho⟩)).mpr (hok _ e ⟨i, rfl, hp⟩) job stage o rfl ho hw

/-! ### A retry recorded too late -/

/-- The scheduler claims an update that was never answered; the job finds that Zoom
does not have it and checks its copy under the cache lock; then a webhook reports
the meeting deleted. -/
def staleJob : List (Act Point Input) :=
  Sample.establish ++ Sample.startUpdate ++
    [.arrive .recoverPending,
      .move 2 (Sample.input 360000 "token-1" .none),
      .move 2 (Sample.input 361000 "" .none),
      .move 2 (Sample.input 362000 "" (.fetched (some Sample.zoomMeeting))),
      .move 2 (Sample.input 363000 "" .none),
      .arrive (.deletedWebhook (.handle 77 (some 363500))),
      .move 3 (Sample.input 364000 "" .none),
      .move 3 (Sample.input 364000 "" .none)]

/-- The job is about to record the start of a retry that is no change of password. -/
def restamps : Point → Bool
  | .recovery _ (.stampStartedAt _ _ false) => true
  | _ => false

theorem exists_of_restamps {p : Point} (h : restamps p = true) :
    ∃ job copy payload, p = .recovery job (.stampStartedAt copy payload false) := by
  unfold restamps at h
  split at h
  · exact ⟨_, _, _, rfl⟩
  · cases h

/-- The job records the start of its retry on a meeting that is deleted. -/
theorem staleJob_restamps : ∃ tr c c' job copy payload, (program Sample.env).Run Sample.start tr c ∧
    (program Sample.env).step c (.move 2 (Sample.input 365000 "" .none)) = some c' ∧
    c.procs[2]? = some (.recovery job (.stampStartedAt copy payload false)) ∧
    c.store.row.syncStatus = .deleted ∧ c.store.row.syncClaimToken = none := by
  obtain ⟨tr, c, h, hc⟩ := (program Sample.env).exists_run_of_replay staleJob (c := Sample.start)
    (q := fun _ c => c.store.row.syncStatus == .deleted && c.store.row.syncClaimToken == none &&
      ((program Sample.env).step c (.move 2 (Sample.input 365000 "" .none))).isSome &&
      c.procs[2]?.any restamps)
    (by decide)
  simp only [Bool.and_eq_true, beq_iff_eq] at hc
  obtain ⟨⟨⟨hs, ht⟩, hstep⟩, hp⟩ := hc
  obtain ⟨c', hc'⟩ := Option.isSome_iff_exists.mp hstep
  obtain ⟨p, hp, hr⟩ := (Option.any_eq_true _ _).mp hp
  obtain ⟨job, copy, payload, rfl⟩ := exists_of_restamps hr
  exact ⟨tr, c, c', job, copy, payload, h, hc', hp, hs, ht⟩

/-- The write of a job that lost its claim, its lease and its operation. -/
theorem staleRestamp : ∃ tr c, (program Sample.env).Run Sample.start tr c ∧
    ¬ ∀ st ∈ tr, Fenced Sample.env st := by
  obtain ⟨tr, c, c', job, copy, payload, h, hc', hp, -, ht⟩ := staleJob_restamps
  refine ⟨_, c', .snoc _ h hc', fun hf => ?_⟩
  have ho : act Sample.env (.recovery job (.stampStartedAt copy payload false)) c.store.row
      (Sample.input 365000 "" .none) = some ⟨some { c.store.row with syncStartedAt := some 365000 },
        some (.recovery job (.updateMeeting payload false))⟩ := rfl
  have hclaim := (hf _ (List.mem_append_right _ (List.mem_singleton_self _)) job _ _ _ ⟨2, rfl, hp⟩ ho
    (by simp)).1
  rw [show c.store.row.syncClaimToken = none from ht] at hclaim
  cases hclaim

/-- The run of `staleJob` breaks the condition on retries. -/
theorem fenced_iff_staleJob : ∃ tr c, (program Sample.env).Run Sample.start tr c ∧
    ((∀ st ∈ tr, Fenced Sample.env st) ↔ ∀ st ∈ tr, st.Meets RestampsOwnCopy) ∧
    ¬ ∀ st ∈ tr, st.Meets RestampsOwnCopy := by
  obtain ⟨tr, c, c', job, copy, payload, h, hc', hp, -, ht⟩ := staleJob_restamps
  have hrun := Program.Run.snoc _ h hc'
  refine ⟨_, c', hrun, fenced_iff hrun, fun hok => ?_⟩
  have hA := (holds_of_run h).2 _ (List.mem_of_getElem? hp)
  have hclaim := (hok _ (List.mem_append_right _ (List.mem_singleton_self _)) _ _ ⟨2, rfl, hp⟩ job copy payload
    false rfl rfl).1
  rw [show c.store.row.syncClaimToken = none from ht, hA.claim] at hclaim
  cases hclaim

end Meetings
end Daywright
