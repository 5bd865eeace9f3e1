/-
# The runtime status along a run

A meeting has a runtime status as soon as its creation is recorded (`StatusKnown`),
so a handler that has found it Active can set it (`FoundStatus`). Unless the
creation is answered late, nothing takes `ended` back, nor `started` but `ended`
(`runtimeStatus_stays`), and the update of a handler leads there
(`transition_reaches`).

Key definitions: `StatusKnown`, `Reached`, `handlerOf`.
Key theorems: `runtimeOutline`, `runtimeStatus_stays`, `transition_reaches`.
-/
import Daywright.Meetings.Coupling
import Daywright.Meetings.Establish

namespace Daywright

/-- There is no runtime status during the creation, and one after it. -/
structure Meeting.StatusKnown (m : Meeting) : Prop where
  creation : m.syncStatus.IsCreation → m.status = none
  unknown : m.status = none → m.syncStatus.IsCreation ∨ m.syncStatus = .deleted

namespace Meetings

open Interleave

variable {E : Env} {s s' : Store} {p q : Point} {e : Input} {k : Option Point} {m' : Meeting}

theorem Told.status_ne_none (h : Told s p e m') (hs : s.row.status ≠ none) : m'.status ≠ none := by
  have of_told {t : Option ℤ} {v : Option String} (h : m'.told = (t, v)) : m'.status = v := congrArg Prod.snd h
  cases h with
  | kept h => rwa [show m'.status = s.row.status from congrArg Prod.snd h]
  | created z _ h _ => simp [of_told h]
  | event t _ h => rwa [of_told h]
  | started _ _ h => simp [of_told h]
  | ended _ _ h => simp [of_told h]

/-- Without a runtime status a write gives one only by recording the creation. -/
theorem Told.status_eq_none (h : Told s p e m') (hs : s.row.status = none) :
    m'.status = none ∨ m'.syncStatus = .active := by
  cases h with
  | kept h => exact .inl ((congrArg Prod.snd h).trans hs)
  | created z _ _ ha => exact .inr ha
  | event t _ h => exact .inl ((congrArg Prod.snd h).trans hs)
  | started _ hd => simp [statusDiffers, hs] at hd
  | ended _ hd => simp [statusDiffers, hs] at hd

/-- Where a step leads a meeting whose creation is not recorded yet. -/
theorem move_of_creation (hI : Inv s) (hA : Knowledge s p) (hB : Typed s p)
    (hc : s.row.syncStatus.IsCreation) (hok : ¬ ActivatesLate s p e)
    (h : (program E).move s p e = some (s', k)) : s'.row.syncStatus.IsCreation ∨
      s'.row.syncStatus = .deleted ∨ s'.row.syncStatus = .active ∧ s'.row.status ≠ none := by
  obtain ⟨o, hmv⟩ := moved h
  rcases (move_effect hA h).1 with ⟨hl, -, -⟩ | ⟨-, -, hs⟩ | ⟨-, -, hs⟩
  · exact absurd hl hok
  · exact .inl (hs ▸ hc)
  · rcases hs.of_creation hI.wellFormed hc with hs | hs | ha
    · exact .inl hs
    · exact .inr (.inl hs)
    · refine .inr (.inr ⟨ha, ?_⟩)
      replace ha : s'.row.syncStatus = .active := ha
      cases hw : o.written with
      | none =>
        rw [hmv.row, hw, Option.getD_none] at ha
        simp [ha, MeetingSyncStatus.IsCreation] at hc
      | some m' =>
        rw [hmv.row, hw, Option.getD_some] at ha ⊢
        refine (act_of_creation hI hA hc ?_ hmv.outcome hw ha).2
        rintro job updateData rfl
        exact hB.not_owns hI hc

theorem StatusKnown.move (hI : Inv s) (hA : Knowledge s p) (hB : Typed s p) (hK : s.row.StatusKnown)
    (hok : ¬ ActivatesLate s p e) (h : (program E).move s p e = some (s', k)) : s'.row.StatusKnown where
  creation hc' := by
    have hc : s.row.syncStatus.IsCreation := by
      by_contra hc
      rcases (move_effect hA h).1 with ⟨hl, -, -⟩ | ⟨-, -, hs⟩ | ⟨-, -, hs⟩
      · exact hok hl
      · exact hc (hs ▸ hc')
      · exact hs.not_creation hc hc'
    rcases (move_told h).status_eq_none (hK.creation hc) with hn | ha
    · exact hn
    · simp [ha, MeetingSyncStatus.IsCreation] at hc'
  unknown hn' := by
    have hn : s.row.status = none := by
      by_contra hn
      exact (move_told h).status_ne_none hn hn'
    rcases hK.unknown hn with hc | hd
    · rcases move_of_creation hI hA hB hc hok h with hc' | hd | ⟨-, hs⟩
      · exact .inl hc'
      · exact .inr hd
      · exact absurd hn' hs
    · exact .inr (Effect.deleted hI hd (move_effect hA h).1)

/-- The handler has found the meeting Active, so with a runtime status. -/
def FoundStatus (s : Store) : Point → Prop
  | .startedWebhook .transition | .endedWebhook .transition => s.row.status ≠ none
  | _ => True

theorem FoundStatus.of_entry (h : p.entry = true) : FoundStatus s p := by
  unfold FoundStatus
  split
  · cases h
  · cases h
  · trivial

theorem FoundStatus.frame (h : (program E).move s p e = some (s', k)) (hq : FoundStatus s q) :
    FoundStatus s' q := by
  unfold FoundStatus at hq ⊢
  split
  · exact (move_told h).status_ne_none hq
  · exact (move_told h).status_ne_none hq
  · trivial

/-- A handler that goes on has found the meeting Active. -/
theorem runtimeWebhookStep_next {transition : Meeting → Time → Commit} {p q : RuntimeWebhookPoint} {m : Meeting}
    {o : Outcome RuntimeWebhookPoint} (h : runtimeWebhookStep transition p m e = some o)
    (hk : o.next = some q) : m.syncStatus = .active := by
  cases p with
  | handle meetingId =>
    cases h
    split at hk
    · rename_i hc
      simp only [ZoomWebhookSupport.ensureActiveSyncStatus, MeetingSyncStatus.acceptsZoomRuntimeWebhook,
        Bool.and_eq_true, beq_iff_eq] at hc
      exact hc.2
    · cases hk
  | transition =>
    cases h
    cases hk

theorem FoundStatus.next (hK : s.row.StatusKnown) (h : (program E).move s p e = some (s', some q)) :
    FoundStatus s' q := by
  have found (ha : s.row.syncStatus = .active) : s.row.status ≠ none := fun hn => by
    rcases hK.unknown hn with hc | hd
    · simp [ha, MeetingSyncStatus.IsCreation] at hc
    · cases ha.symm.trans hd
  refine FoundStatus.frame h ?_
  obtain ⟨o, ho, hk, -⟩ := moved h
  cases p with
  | startedWebhook p =>
    obtain ⟨o₁, ho₁, rfl⟩ := Option.map_eq_some_iff.mp ho
    obtain ⟨q', hk', rfl⟩ := Option.map_eq_some_iff.mp hk.symm
    cases q' with
    | handle meetingId => trivial
    | transition => exact found (runtimeWebhookStep_next ho₁ hk')
  | endedWebhook p =>
    obtain ⟨o₁, ho₁, rfl⟩ := Option.map_eq_some_iff.mp ho
    obtain ⟨q', hk', rfl⟩ := Option.map_eq_some_iff.mp hk.symm
    cases q' with
    | handle meetingId => trivial
    | transition => exact found (runtimeWebhookStep_next ho₁ hk')
  | recoverPending =>
    cases ho
    unfold recoverPendingStep at hk
    split at hk
    · obtain ⟨op, -, rfl⟩ := Option.map_eq_some_iff.mp hk.symm
      trivial
    · cases hk
  | createdWebhook data =>
    cases ho
    cases hk
  | _ =>
    obtain ⟨o₁, -, rfl⟩ := Option.map_eq_some_iff.mp ho
    obtain ⟨r', -, rfl⟩ := Option.map_eq_some_iff.mp hk.symm
    trivial

theorem runtimeOutline : Outline (program E) (fun s p e => ¬ ActivatesLate s p e)
    (fun s => Inv s ∧ s.row.StatusKnown) (fun s p => Knowledge s p ∧ Typed s p ∧ FoundStatus s p) :=
  outline.strengthen (fun _ _ _ _ => trivial)
    (fun _ _ _ _ hp => ⟨.of_entry hp, .of_entry hp⟩)
    (fun _ _ _ _ _ hI hA hK hB hok h => ⟨StatusKnown.move hI hA hB.1 hK hok h,
      fun _ hk => ⟨.next hI hA hB.1 (hk ▸ h), .next hK (hk ▸ h)⟩⟩)
    (fun _ _ _ _ _ _ _ hA _ _ _ h _ hq => ⟨hq.1.frame hA h, hq.2.frame h⟩)

theorem created_runtime (data : MeetingStoreData) (operationId : Uuid) (now : Time) :
    Holds (fun s => Inv s ∧ s.row.StatusKnown) (fun s p => Knowledge s p ∧ Typed s p ∧ FoundStatus s p)
      (created data operationId now) := by
  obtain ⟨hI, hA⟩ := created_holds data operationId now
  refine ⟨⟨hI, ⟨fun _ => ?_, fun _ => .inl ?_⟩⟩, fun p hp => ⟨hA p hp, ?_⟩⟩
  · rfl
  · exact .inr (.inl rfl)
  · rw [List.mem_singleton.mp hp]
    exact ⟨trivial, trivial⟩

/-! ### Where the runtime status stays -/

/-- The status that the event of this type brings, or one that comes after it. -/
def Reached (eventType : String) (m : Meeting) : Prop :=
  m.status = some "ended" ∨ eventType = "meeting.started" ∧ m.status = some "started"

/-- What an event has brought about stays. -/
theorem runtimeStatus_stays {eventType : String} (hK : s.row.StatusKnown) (hok : ¬ ActivatesLate s p e)
    (h : (program E).move s p e = some (s', k)) (hr : Reached eventType s.row) : Reached eventType s'.row := by
  have hn : s.row.status ≠ none := by rcases hr with h | ⟨-, h⟩ <;> simp [h]
  have same (hs : s'.row.status = s.row.status) : Reached eventType s'.row := by
    unfold Reached
    rwa [hs]
  cases move_told h with
  | kept h => exact same (congrArg Prod.snd h)
  | created z hc _ _ =>
    rcases hc with hc | hl
    · exact absurd (hK.creation hc) hn
    · exact absurd hl hok
  | event t _ h => exact same (congrArg Prod.snd h)
  | started _ hd _ =>
    exfalso
    rcases hr with h | ⟨-, h⟩ <;> simp [statusDiffers, h] at hd
  | ended _ _ h => exact .inl (congrArg Prod.snd h)

/-- The handler of a runtime event. -/
def handlerOf (eventType : String) : Option (RuntimeWebhookPoint → Point) :=
  if eventType = "meeting.started" then some .startedWebhook
  else if eventType = "meeting.ended" then some .endedWebhook
  else none

/-- The update of the handler brings the status about. -/
theorem transition_reaches {eventType : String} {handler : RuntimeWebhookPoint → Point}
    (ht : handlerOf eventType = some handler) (hs : s.row.status ≠ none)
    (h : (program E).move s (handler .transition) e = some (s', k)) : Reached eventType s'.row := by
  obtain ⟨o, hmv⟩ := moved h
  obtain ⟨v, hv⟩ := Option.ne_none_iff_exists'.mp hs
  have hrow := hmv.row
  unfold handlerOf at ht
  split at ht
  · rename_i he
    cases ht
    cases hmv.outcome
    simp only [Outcome.map_written, Outcome.last_written,
      HandleMeetingStartedWebhook.transitionToStarted] at hrow
    split at hrow
    · rw [hrow]
      exact .inr ⟨he, rfl⟩
    · rename_i hd
      rw [hrow]
      simp only [statusDiffers, hv, Option.any_some, bne_iff_ne, ne_eq, Bool.and_eq_true, not_and,
        not_not] at hd
      by_cases hv' : v = "started"
      · exact .inr ⟨he, by simpa [hv'] using hv⟩
      · exact .inl (by simpa [hd hv'] using hv)
  · split at ht <;> cases ht
    cases hmv.outcome
    simp only [Outcome.map_written, Outcome.last_written, HandleMeetingEndedWebhook.transitionToEnded] at hrow
    split at hrow
    · rw [hrow]
      exact .inl rfl
    · rename_i hd
      rw [hrow]
      simp only [statusDiffers, hv, Option.any_some, bne_iff_ne, ne_eq, not_not] at hd
      exact .inl (by simpa [hd] using hv)

end Meetings
end Daywright
