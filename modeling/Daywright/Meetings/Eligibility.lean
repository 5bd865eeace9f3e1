/-
# No meeting is stranded

An open meeting (Creating, Updating, Deleting, or CreateUnknown and not left to
manual review) has a time from which on the readiness scopes select it, along
every run in which no creation is answered with a second Zoom id while an update
or a deletion is open (`findable_iff`); the run `stranded` shows what happens
then. Whatever the run, the row that the scheduler's query returns first can be
claimed (`isClaimable_of_firstDue`).

Key definitions: `Findable`, `Reachable`.
Key theorems: `findable_iff`.
-/
import Daywright.Meetings.Outline

namespace Daywright
namespace Meetings

open Interleave RecoverPendingZoomMeetingOperations

/-! ### The scopes -/

theorem exists_dueBy {column : Option Time} (h : column ≠ none) :
    ∃ T, ∀ t, T ≤ t → Meeting.dueBy column t = true := by
  obtain ⟨T, rfl⟩ := Option.ne_none_iff_exists'.mp h
  exact ⟨T, fun t ht => by simpa [Meeting.dueBy] using ht⟩

/-- An open meeting, by its columns. -/
def IsOpen (m : Meeting) : Prop :=
  m.syncStatus = .creating ∨ m.syncStatus = .updating ∨ m.syncStatus = .deleting ∨
    m.syncStatus = .createUnknown ∧ m.awaitsManualZoomRecovery = false

/-- The columns of an open meeting give it a time, a claim has a lease, and the
scopes find the meeting sooner or later. -/
structure Findable (m : Meeting) : Prop where
  creating : m.syncStatus = .creating → m.syncLeaseExpiresAt ≠ none
  pending : m.syncStatus = .updating ∨ m.syncStatus = .deleting →
    m.syncLeaseExpiresAt ≠ none ∨ m.syncAvailableAt ≠ none
  unknown : m.syncStatus = .createUnknown →
    m.syncAvailableAt ≠ none ∨ m.awaitsManualZoomRecovery = true
  lease_of_claim : m.syncClaimToken ≠ none → m.syncLeaseExpiresAt ≠ none
  selected : IsOpen m → ∃ T, ∀ t, T ≤ t → m.readyForAnyRecoveryAt t = true

theorem selected_of_pending {m : Meeting} (hs : m.syncStatus = .updating ∨ m.syncStatus = .deleting)
    (hd : m.syncLeaseExpiresAt ≠ none ∨ m.syncAvailableAt ≠ none) :
    ∃ T, ∀ t, T ≤ t → m.readyForAnyRecoveryAt t = true := by
  have due : ∃ T, ∀ t, T ≤ t →
      Meeting.dueBy m.syncLeaseExpiresAt t = true ∨ Meeting.dueBy m.syncAvailableAt t = true := by
    rcases hd with hd | hd
    · obtain ⟨T, hT⟩ := exists_dueBy hd
      exact ⟨T, fun t ht => .inl (hT t ht)⟩
    · obtain ⟨T, hT⟩ := exists_dueBy hd
      exact ⟨T, fun t ht => .inr (hT t ht)⟩
  obtain ⟨T, hT⟩ := due
  refine ⟨T, fun t ht => ?_⟩
  have := hT t ht
  rcases hs with h | h <;>
    simp [Meeting.readyForAnyRecoveryAt, Meeting.readyForUpdateRecoveryAt, Meeting.readyForDeleteRecoveryAt,
      Meeting.updatingWithExpiredLeaseAt, Meeting.deletingWithExpiredLeaseAt, h, this]

theorem findable_of_schedulable {m : Meeting} (hw : m.sync.WellFormed) (h : m.sync.Schedulable) :
    Findable m := by
  have unknown : m.syncStatus = .createUnknown →
      m.syncAvailableAt ≠ none ∨ m.awaitsManualZoomRecovery = true := by
    intro hs
    by_cases ha : m.syncAvailableAt = none
    · obtain ⟨hc, hl⟩ := (h.unknown hs).resolve_left fun hn => hn ha
      replace hc : m.syncClaimToken = none := hc
      replace hl : m.syncLeaseExpiresAt = none := hl
      exact .inr (by simp [Meeting.awaitsManualZoomRecovery, hs, ha, hc, hl])
    · exact .inl ha
  refine ⟨h.creating, h.pending, unknown, hw.lease_of_claim, ?_⟩
  rintro (hs | hs | hs | ⟨hs, hm⟩)
  · obtain ⟨T, hT⟩ := exists_dueBy (h.creating hs)
    refine ⟨T, fun t ht => ?_⟩
    have : Meeting.dueBy m.syncLeaseExpiresAt t = true := hT t ht
    simp [Meeting.readyForAnyRecoveryAt, Meeting.readyForZoomRecoveryAt,
      Meeting.creatingWithExpiredLeaseAt, hs, this]
  · exact selected_of_pending (.inl hs) (h.pending (.inl hs))
  · exact selected_of_pending (.inr hs) (h.pending (.inr hs))
  · obtain ⟨T, hT⟩ := exists_dueBy ((unknown hs).resolve_right (by simp [hm]))
    refine ⟨T, fun t ht => ?_⟩
    simp [Meeting.readyForAnyRecoveryAt, Meeting.readyForZoomRecoveryAt, Meeting.createUnknownDueAt, hs,
      hT t ht]

/-! ### The scheduler -/

/-- A row that some run of the processes on its meeting leads to. -/
def Reachable (E : Env) (m : Meeting) : Prop :=
  ∃ data operationId now tr c, (program E).Run (created data operationId now) tr c ∧ c.store.row = m

theorem firstDue_mem {rows : List Meeting} {now : Time} {m : Meeting} (h : firstDue rows now = some m) :
    m ∈ rows ∧ isDue m now = true := by
  have := List.mem_mergeSort.mp (List.mem_of_head? h)
  simpa using this

/-- A row that the query returns can be claimed, so it hides no other row. -/
theorem isClaimable_of_isDue {m : Meeting} {now checkedAt : Time} (ht : now ≤ checkedAt)
    (hl : m.syncClaimToken ≠ none → m.syncLeaseExpiresAt ≠ none) (h : isDue m now = true) :
    isClaimable m checkedAt = true := by
  simp only [isDue, Bool.and_eq_true, Bool.or_eq_true, Option.isNone_iff_eq_none] at h
  simp only [isClaimable, ZoomRecoveryPolicy.shouldSkipExpiredLease, Bool.or_eq_true,
    Option.isNone_iff_eq_none]
  rcases h.2 with (hc | hn) | hd
  · exact .inl hc
  · by_contra hcon
    exact hl (fun hc => hcon (.inl hc)) hn
  · obtain ⟨lease, hlease, hle⟩ := (Option.any_eq_true _ _).mp hd
    have : lease ≤ now := by simpa using hle
    exact .inr ((Option.any_eq_true _ _).mpr ⟨lease, hlease, by simpa using Nat.le_trans this ht⟩)

theorem isClaimable_of_firstDue {E : Env} {rows : List Meeting} (hr : ∀ m ∈ rows, Reachable E m)
    {now checkedAt : Time} (ht : now ≤ checkedAt) {m : Meeting} (h : firstDue rows now = some m) :
    isClaimable m checkedAt = true := by
  obtain ⟨hm, hd⟩ := firstDue_mem h
  obtain ⟨data, operationId, t₀, tr, c, hrun, rfl⟩ := hr m hm
  exact isClaimable_of_isDue ht (holds_of_run hrun).1.wellFormed.lease_of_claim hd

/-! ### Along a run -/

variable {E : Env} {data : MeetingStoreData} {operationId : Uuid} {now : Time}
  {tr : List (Step Store Point Input)} {c : Config Store Point}

theorem created_schedulable (data : MeetingStoreData) (operationId : Uuid) (now : Time) :
    (created data operationId now).store.row.sync.Schedulable := by
  constructor <;> simp [created, CreateProjectMeeting.createMeetingWithOperation, Meeting.sync]

theorem Effect.schedulable {s : Store} {p : Point} {e : Input} {m' : Meeting} (hI : Inv s)
    (hc : s.row.sync.Schedulable) (h : Effect s p e m') (hok : ¬ ConflictsLate s p e) :
    m'.sync.Schedulable := by
  rcases h with ⟨-, -, hs⟩ | ⟨hn, -, -⟩ | ⟨-, -, h⟩
  · exact Sync.Schedulable.activate hs
  · exact absurd hn hok
  · exact hc.step hI.wellFormed h

/-- One move keeps an open meeting findable exactly if it is no late conflict. -/
theorem Effect.findable_step {s : Store} {p : Point} {e : Input} {m' : Meeting} (hI : Inv s)
    (hc : s.row.sync.Schedulable) (h : Effect s p e m') : Findable m' ↔ ¬ ConflictsLate s p e := by
  refine ⟨fun hf hn => ?_, fun hok => ?_⟩
  · rcases h with ⟨ha, -, -⟩ | ⟨-, h, hs⟩ | ⟨-, hn', -⟩
    · exact ha.not_conflictsLate hn
    · have hm' : m'.sync = s.row.sync.unclaim none := h.eq_unclaim hs
      obtain ⟨q, z, -, -, -, hst⟩ := hn
      have hp := hf.pending (by rw [hs]; exact hst)
      rcases hp with hp | hp
      · exact hp (congrArg Sync.lease hm')
      · exact hp (congrArg Sync.available hm')
    · exact hn' hn
  · exact findable_of_schedulable (h.wellFormed hI.wellFormed) (h.schedulable hI hc hok)

theorem schedulableOutline : Outline (program E) (fun s p e => ¬ ConflictsLate s p e)
    (fun s => Inv s ∧ s.row.sync.Schedulable) Knowledge := by
  refine outline.strengthenStore (fun _ _ _ _ => trivial) ?_
  intro s p e s' k hI hA hc hok h
  have he : Effect s p e s'.row := (move_effect hA h).1
  exact he.schedulable hI hc hok

/-- **No meeting is stranded** along a run exactly if no creation is answered with
a second Zoom id while an update or a deletion is open; and among the rows of the
table, reached by whatever runs, the one that the scheduler's query returns first
can be claimed. -/
theorem findable_iff (h : (program E).Run (created data operationId now) tr c) :
    ((∀ st ∈ tr, Findable st.post.store.row) ↔
      ∀ st ∈ tr, st.Meets fun s p e => ¬ ConflictsLate s p e) ∧
      ∀ rows, (∀ m ∈ rows, Reachable E m) → ∀ t checkedAt, t ≤ checkedAt →
        ∀ m, firstDue rows t = some m → isClaimable m checkedAt = true := by
  refine ⟨?_, fun rows hr t checkedAt ht m hm => isClaimable_of_firstDue hr ht hm⟩
  have h₀ := created_holds data operationId now
  have hs₀ := created_schedulable data operationId now
  refine schedulableOutline.forall_store_iff (Q := fun s => Findable s.row)
    (fun s hs => findable_of_schedulable hs.1.wellFormed hs.2) ?_ ⟨⟨h₀.1, hs₀⟩, h₀.2⟩ h
  intro s p e s' k hs hA hm
  have he : Effect s p e s'.row := (move_effect hA hm).1
  exact he.findable_step hs.1 hs.2

/-- The meeting is found while it is being updated, the creation having been answered in
time. -/
theorem findable_iff_answer : ∃ tr c, (program Sample.env).Run Sample.start tr c ∧
    c.store.row.syncStatus = .updating ∧ ∀ st ∈ tr, Findable st.post.store.row := by
  obtain ⟨tr, c, h, hc⟩ := (program Sample.env).exists_run_of_replay Sample.answered (c := Sample.start)
    (q := fun tr c => c.store.row.syncStatus == .updating &&
      decide (∀ st ∈ tr, st.Meets fun s p e => ¬ ConflictsLate s p e)) (by decide)
  simp only [Bool.and_eq_true, beq_iff_eq, decide_eq_true_eq] at hc
  exact ⟨tr, c, h, hc.1, (findable_iff h).1.mpr hc.2⟩

/-- A second Zoom id, reported by the late success of a creation, takes claim and
due time from a meeting that is being deleted. -/
theorem stranded : ∃ tr c, (program Sample.env).Run Sample.start tr c ∧
    c.store.row.syncStatus = .deleting ∧ c.store.row.syncLeaseExpiresAt = none ∧
    c.store.row.syncAvailableAt = none ∧ ∀ t, c.store.row.readyForAnyRecoveryAt t = false := by
  obtain ⟨tr, c, h, hc⟩ := (program Sample.env).exists_run_of_replay
    (Sample.establish ++ Sample.startDelete ++
      [Sample.answerCreate { Sample.zoomMeeting with meetingId := 78 }])
    (c := Sample.start)
    (q := fun _ c => c.store.row.syncStatus == .deleting && c.store.row.syncLeaseExpiresAt == none &&
      c.store.row.syncAvailableAt == none)
    (by decide)
  simp only [Bool.and_eq_true, beq_iff_eq] at hc
  refine ⟨tr, c, h, hc.1.1, hc.1.2, hc.2, fun t => ?_⟩
  simp [Meeting.readyForAnyRecoveryAt, Meeting.readyForZoomRecoveryAt, Meeting.readyForUpdateRecoveryAt,
    Meeting.readyForDeleteRecoveryAt, Meeting.creatingWithExpiredLeaseAt, Meeting.createUnknownDueAt,
    Meeting.updatingWithExpiredLeaseAt, Meeting.updateFailedDueAt, Meeting.deletingWithExpiredLeaseAt,
    Meeting.deleteFailedDueAt, Meeting.dueBy, hc.1.1, hc.1.2, hc.2]

end Meetings
end Daywright
