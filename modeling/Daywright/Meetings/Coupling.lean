/-
# The status goes with the operation

In every run, the status of a meeting and its pending operation go together
(`Sync.Coherent`), as long as no success of the creation is recorded while an
update or a failed deletion is pending; in the run of `coherent_lost` one is.
`Deleted` is absorbing in every run, such runs included.

Key theorems: `coherent_iff`, `deleted_absorbing`.
-/
import Daywright.Meetings.Outline

namespace Daywright
namespace Meetings

open Interleave

variable {E : Env} {data : MeetingStoreData} {operationId : Uuid} {now : Time}
  {tr : List (Step Store Point Input)} {c : Config Store Point}

theorem created_coherent (data : MeetingStoreData) (operationId : Uuid) (now : Time) :
    (created data operationId now).store.row.sync.Coherent := by
  constructor <;> simp [created, CreateProjectMeeting.createMeetingWithOperation, Meeting.sync]

/-- One move keeps the coherence exactly if it is no late activation. -/
theorem Effect.coherent_step {s : Store} {p : Point} {e : Input} {m' : Meeting} (hI : Inv s)
    (hc : s.row.sync.Coherent) (h : Effect s p e m') : m'.sync.Coherent ↔ ¬ ActivatesLate s p e := by
  rcases h with ⟨ha, h, hs⟩ | ⟨hn, h, hs⟩ | ⟨hn, -, h⟩
  · exact ⟨fun hc' => absurd hc' (h.not_coherent hc hs), fun hn => absurd ha hn⟩
  · refine ⟨fun _ ha => ha.not_conflictsLate hn, fun _ => ?_⟩
    rw [h.eq_unclaim hs]
    exact hc.conflict none
  · exact ⟨fun _ => hn, fun _ => hc.step hI.wellFormed h⟩

theorem coherentOutline : Outline (program E) (fun s p e => ¬ ActivatesLate s p e)
    (fun s => Inv s ∧ s.row.sync.Coherent) Knowledge := by
  refine outline.strengthenStore (fun _ _ _ _ => trivial) ?_
  intro s p e s' k hI hA hc hok h
  have he : Effect s p e s'.row := (move_effect hA h).1
  exact (he.coherent_step hI hc).mpr hok

/-- **The status goes with the operation** along a run exactly if no success of the
creation is recorded while an update or a failed deletion is pending. -/
theorem coherent_iff (h : (program E).Run (created data operationId now) tr c) :
    (∀ st ∈ tr, st.post.store.row.sync.Coherent) ↔
      ∀ st ∈ tr, st.Meets fun s p e => ¬ ActivatesLate s p e := by
  have h₀ := created_holds data operationId now
  have hc₀ := created_coherent data operationId now
  refine coherentOutline.forall_store_iff (fun s hs => hs.2) ?_ ⟨⟨h₀.1, hc₀⟩, h₀.2⟩ h
  intro s p e s' k hs hA hm
  have he : Effect s p e s'.row := (move_effect hA hm).1
  exact he.coherent_step hs.1 hs.2

/-- The meeting is coherent while an update is pending, the creation having been answered
in time. -/
theorem coherent_iff_answer : ∃ tr c, (program Sample.env).Run Sample.start tr c ∧
    c.store.row.syncOperationType = some .update ∧ ∀ st ∈ tr, st.post.store.row.sync.Coherent := by
  obtain ⟨tr, c, h, hc⟩ := (program Sample.env).exists_run_of_replay Sample.answered (c := Sample.start)
    (q := fun tr c => c.store.row.syncOperationType == some .update &&
      decide (∀ st ∈ tr, st.Meets fun s p e => ¬ ActivatesLate s p e)) (by decide)
  simp only [Bool.and_eq_true, beq_iff_eq, decide_eq_true_eq] at hc
  exact ⟨tr, c, h, hc.1, (coherent_iff h).mpr hc.2⟩

/-- The late success of a creation makes a meeting Active under a pending update. -/
theorem coherent_lost : ∃ tr c, (program Sample.env).Run Sample.start tr c ∧
    ¬ c.store.row.sync.Coherent := by
  obtain ⟨tr, c, h, hc⟩ := (program Sample.env).exists_run_of_replay
    (Sample.establish ++ Sample.startUpdate ++ [Sample.answerCreate Sample.zoomMeeting])
    (c := Sample.start)
    (q := fun _ c => c.store.row.syncStatus == .active && c.store.row.syncOperationType == some .update)
    (by decide)
  simp only [Bool.and_eq_true, beq_iff_eq] at hc
  obtain ⟨hactive, hupdate⟩ := hc
  refine ⟨tr, c, h, fun hn => ?_⟩
  have hnone : c.store.row.syncOperationType = none := (hn.settled (.inl hactive)).1
  rw [hupdate] at hnone
  cases hnone

/-! ### Deleted is absorbing -/

theorem Effect.deleted {s : Store} {p : Point} {e : Input} {m' : Meeting} (hI : Inv s)
    (hd : s.row.syncStatus = .deleted) (h : Effect s p e m') : m'.syncStatus = .deleted := by
  rcases h with ⟨-, h, -⟩ | ⟨-, h, -⟩ | ⟨-, -, h⟩
  · exact absurd hd h.not_deleted
  · exact absurd hd h.not_deleted
  · exact h.deleted hI.wellFormed hd

theorem deletedOutline : Outline (program E) (fun _ _ _ => True)
    (fun s => Inv s ∧ s.row.syncStatus = .deleted) Knowledge := by
  refine outline.strengthenStore (fun _ _ _ h => h) ?_
  intro s p e s' k hI hA hd _ h
  have he : Effect s p e s'.row := (move_effect hA h).1
  exact he.deleted hI hd

/-- **Deleted is absorbing**: whatever answers, recoveries, webhooks and requests
are still to come, the meeting stays deleted, without operation and claim. -/
theorem deleted_absorbing {tr' : List (Step Store Point Input)} {c' : Config Store Point}
    (h : (program E).Run (created data operationId now) tr c) (hd : c.store.row.syncStatus = .deleted)
    (h' : (program E).Run c tr' c') :
    c'.store.row.syncStatus = .deleted ∧ c'.store.row.syncOperationType = none ∧
      c'.store.row.syncPayload = none ∧ c'.store.row.syncClaimToken = none := by
  have hc := holds_of_run h
  obtain ⟨⟨hI, hd'⟩, -⟩ := deletedOutline.run ⟨⟨hc.1, hd⟩, hc.2⟩ h' fun _ _ _ _ _ => trivial
  obtain ⟨ho, hcl⟩ := hI.wellFormed.deleted hd'
  have ht := hI.wellFormed.type_of_operation ho
  exact ⟨hd', ht, hI.wellFormed.payload_of_type ht, hcl⟩

/-- A deletion that overtakes the answer of the creation: the answer changes
nothing any more. -/
theorem deleted_absorbing_lateAnswer : ∃ tr c tr' c', (program Sample.env).Run Sample.start tr c ∧
    (program Sample.env).Run c tr' c' ∧ tr'.length = 1 ∧ c'.store.row.syncStatus = .deleted ∧
    c'.store.row.syncOperationType = none ∧ c'.store.row.syncPayload = none ∧
    c'.store.row.syncClaimToken = none := by
  obtain ⟨tr, c, h, hc⟩ := (program Sample.env).exists_run_of_replay
    (Sample.establish ++ Sample.startDelete ++ [.move 1 (Sample.input 61000 "" .done)]) (c := Sample.start)
    (q := fun _ c => c.store.row.syncStatus == .deleted &&
      ((program Sample.env).step c (Sample.answerCreate Sample.zoomMeeting)).isSome) (by decide)
  simp only [Bool.and_eq_true, beq_iff_eq] at hc
  obtain ⟨c', hc'⟩ := Option.isSome_iff_exists.mp hc.2
  have h' := (program Sample.env).run_single hc'
  exact ⟨tr, c, _, c', h, h', rfl, deleted_absorbing h hc.1 h'⟩

end Meetings
end Daywright
