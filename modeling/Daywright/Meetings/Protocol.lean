/-
# The protocol of the sync columns

What the synchronisation of a meeting is meant to be, on the columns that carry
it (`Sync`): one pending operation at a time under an id, a claim with a lease
for whoever recovers it, and a status that goes with both. `Step` lists the moves
of the protocol, `Late` the two that the answer of a creation makes when it comes
after the meeting has moved on.

`WellFormed` survives every move, late ones included. `Coherent` (the status goes
with the operation) and `Schedulable` (an open meeting can be found again) survive
the moves of the protocol. Operation and claim are registers fenced by fresh uuids
(`Change`).

Key definitions: `Sync`, `Step`, `Late`, `WellFormed`, `Coherent`, `Schedulable`.
Key theorems: `WellFormed.step`, `Coherent.step`, `Schedulable.step`,
`Step.operation_change`, `Step.claim_change`, `Established.step`.
-/
import Daywright.Fence
import Daywright.Meeting

namespace Daywright

open MeetingSyncStatus

namespace MeetingSyncOperationType

@[simp] def inProgress : MeetingSyncOperationType → MeetingSyncStatus
  | .create => .creating
  | .update => .updating
  | .delete => .deleting

@[simp] def failure : MeetingSyncOperationType → MeetingSyncStatus
  | .create => .failed
  | .update => .updateFailed
  | .delete => .deleteFailed

end MeetingSyncOperationType

/-- The meeting is not known to exist in Zoom yet. -/
def MeetingSyncStatus.IsCreation (s : MeetingSyncStatus) : Prop :=
  s = .pending ∨ s = .creating ∨ s = .createUnknown ∨ s = .failed

theorem MeetingSyncStatus.IsCreation.of_open {s : MeetingSyncStatus} (h : s = .creating ∨ s = .createUnknown) :
    s.IsCreation :=
  .inr (h.imp id .inl)

/-- The statuses of an operation are none of a creation, and not Deleted. -/
theorem MeetingSyncOperationType.inProgress_settled {t : MeetingSyncOperationType} (h : t ≠ .create) :
    ¬ t.inProgress.IsCreation ∧ t.inProgress ≠ .deleted := by
  cases t <;> simp [MeetingSyncStatus.IsCreation] at h ⊢

theorem MeetingSyncOperationType.failure_settled {t : MeetingSyncOperationType} (h : t ≠ .create) :
    ¬ t.failure.IsCreation ∧ t.failure ≠ .deleted := by
  cases t <;> simp [MeetingSyncStatus.IsCreation] at h ⊢

/-- The columns of the synchronisation. -/
structure Sync where
  status : MeetingSyncStatus
  meetingId : Option ZoomId
  operation : Option Uuid
  type : Option MeetingSyncOperationType
  payload : Option SyncPayload
  claim : Option Uuid
  lease : Option Time
  available : Option Time

def Meeting.sync (m : Meeting) : Sync where
  status := m.syncStatus
  meetingId := m.meetingId
  operation := m.syncOperationId
  type := m.syncOperationType
  payload := m.syncPayload
  claim := m.syncClaimToken
  lease := m.syncLeaseExpiresAt
  available := m.syncAvailableAt

namespace Sync

/-- The claim is given up; the row is due at `a`, if ever. -/
def unclaim (s : Sync) (a : Option Time) : Sync := { s with claim := none, lease := none, available := a }

/-- No operation is pending and nobody has a claim. -/
def cleared (s : Sync) (status : MeetingSyncStatus) (a : Option Time) : Sync :=
  { s with status, operation := none, type := none, payload := none, claim := none, lease := none,
           available := a }

/-- The moves of the protocol; new ids and tokens are `fresh`. -/
inductive Step (fresh : Uuid → Prop) : Sync → Sync → Prop
  /-- None of these columns is written. -/
  | keep (s) : Step fresh s s
  /-- A user asks for an update or a deletion. -/
  | intend (s : Sync) {t op} (payload lease) : fresh op → t ≠ .create →
      (s.status = .active ∨ s.status = .updateFailed ∨ s.status = .deleteFailed) →
      (payload ≠ none ↔ t = .update) →
      Step fresh s
        { s with status := t.inProgress, operation := some op, type := some t, payload, claim := none,
                 lease := some lease, available := none }
  /-- The scheduler claims a pending operation. -/
  | claimOperation (s : Sync) {token} (lease) : fresh token →
      (s.status = .updating ∨ s.status = .updateFailed ∨ s.status = .deleting ∨ s.status = .deleteFailed) →
      Step fresh s { s with claim := some token, lease := some lease }
  /-- A recovery claims a creation. -/
  | claimCreation (s : Sync) {token} (lease a) : fresh token →
      (s.status = .creating ∨ s.status = .createUnknown) →
      Step fresh s { s with status := .createUnknown, claim := some token, lease := some lease, available := some a }
  /-- Whoever has a claim or answers for the operation leaves it for later. -/
  | postpone (s : Sync) (a) : (s.claim ≠ none ∨ s.type ≠ none) → Step fresh s (s.unclaim (some a))
  /-- The result of the pending request is unknown. -/
  | await (s : Sync) {t} (a) : s.type = some t → t ≠ .create →
      Step fresh s { s.unclaim (some a) with status := t.inProgress }
  /-- The pending request failed, or nobody knows how to go on. -/
  | fail (s : Sync) {t} : s.type = some t → t ≠ .create →
      Step fresh s { s.unclaim none with status := t.failure }
  /-- The pending operation is done, or taken back. -/
  | settle (s : Sync) (a) : s.operation ≠ none → Step fresh s (s.cleared .active a)
  /-- The meeting is gone. -/
  | remove (s : Sync) : Step fresh s (s.cleared .deleted none)
  /-- A webhook tells the Zoom id of a creation. -/
  | attach (s : Sync) (id a) : (s.status = .creating ∨ s.status = .createUnknown) → s.meetingId = none →
      Step fresh s { s.unclaim (some a) with status := .createUnknown, meetingId := some id }
  /-- The result of a creation is unknown. -/
  | suspect (s : Sync) (a) : (s.status = .creating ∨ s.status = .createUnknown) →
      Step fresh s { s.unclaim (some a) with status := .createUnknown }
  /-- A creation is left to manual review. -/
  | review (s : Sync) : (s.status = .creating ∨ s.status = .createUnknown) →
      Step fresh s { s.unclaim none with status := .createUnknown }
  /-- The meeting was created. -/
  | activate (s : Sync) (id) : s.status.IsCreation → (s.meetingId = none ∨ s.meetingId = some id) →
      Step fresh s { s.unclaim none with status := .active, meetingId := some id }
  /-- The meeting was not created. -/
  | reject (s : Sync) : (s.status = .creating ∨ s.status = .createUnknown) →
      Step fresh s { s.unclaim none with status := .failed }
  /-- A second Zoom id is reported while nobody needs the claim. -/
  | disturb (s : Sync) : s.status ≠ .creating → s.status ≠ .createUnknown → s.status ≠ .updating →
      s.status ≠ .deleting → Step fresh s (s.unclaim none)

/-- The moves of a late answer to the creation: the meeting is made Active under
a pending operation, or an open operation loses its claim and its due time. -/
inductive Late : Sync → Sync → Prop
  | activate (s : Sync) (id) : (s.status = .updating ∨ s.status = .updateFailed ∨ s.status = .deleteFailed) →
      (s.meetingId = none ∨ s.meetingId = some id) →
      Late s { s.unclaim none with status := .active, meetingId := some id }
  | conflict (s : Sync) : (s.status = .updating ∨ s.status = .deleting) → s.meetingId ≠ none →
      Late s (s.unclaim none)

variable {fresh : Uuid → Prop} {drawn : List Uuid} {s s' : Sync}

/-! ### The columns of an operation -/

/-- What holds of the row whatever happens to it. -/
structure WellFormed (s : Sync) : Prop where
  payload_of_type : s.type = none → s.payload = none
  type_of_operation : s.operation = none → s.type = none
  payload_of_update : s.type = some .update → s.payload ≠ none
  payload_of_delete : s.type = some .delete → s.payload = none
  not_create : s.type ≠ some .create
  creation : s.status.IsCreation → s.type = none
  creating : s.status = .creating → s.claim = none
  lease_of_claim : s.claim ≠ none → s.lease ≠ none
  deleted : s.status = .deleted → s.operation = none ∧ s.claim = none

/-- The claim is given up, whatever becomes of the status. -/
theorem WellFormed.unclaim (hw : WellFormed s) (id : Option ZoomId) (a : Option Time) {st : MeetingSyncStatus}
    (hc : st.IsCreation → s.type = none) (hd : st = .deleted → s.operation = none) :
    WellFormed { s.unclaim a with status := st, meetingId := id } where
  payload_of_type := hw.payload_of_type
  type_of_operation := hw.type_of_operation
  payload_of_update := hw.payload_of_update
  payload_of_delete := hw.payload_of_delete
  not_create := hw.not_create
  creation := hc
  creating _ := rfl
  lease_of_claim h := absurd rfl h
  deleted h := ⟨hd h, rfl⟩

/-- The row is claimed. -/
theorem WellFormed.claim (hw : WellFormed s) (token : Uuid) (lease : Time) (a : Option Time)
    {st : MeetingSyncStatus} (hc : st.IsCreation → s.type = none) (hn : st ≠ .creating) (hd : st ≠ .deleted) :
    WellFormed { s with status := st, claim := some token, lease := some lease, available := a } where
  payload_of_type := hw.payload_of_type
  type_of_operation := hw.type_of_operation
  payload_of_update := hw.payload_of_update
  payload_of_delete := hw.payload_of_delete
  not_create := hw.not_create
  creation := hc
  creating h := absurd h hn
  lease_of_claim _ := nofun
  deleted h := absurd h hd

theorem WellFormed.cleared (st : MeetingSyncStatus) (a : Option Time) : WellFormed (s.cleared st a) := by
  constructor <;> simp [Sync.cleared]

theorem WellFormed.step (hw : WellFormed s) (h : Step fresh s s') : WellFormed s' := by
  have opened (hs : s.status = .creating ∨ s.status = .createUnknown) : s.type = none :=
    hw.creation (.of_open hs)
  cases h with
  | keep => exact hw
  | intend payload lease hf ht hs hp =>
    rename_i t op
    cases t <;> constructor <;> simp_all [MeetingSyncStatus.IsCreation]
  | claimOperation lease hf hs =>
    refine hw.claim _ lease s.available hw.creation ?_ ?_ <;> rcases hs with h | h | h | h <;> simp [h]
  | claimCreation lease a hf hs => exact hw.claim _ lease (some a) (fun _ => opened hs) (by simp) (by simp)
  | postpone a hc => exact hw.unclaim s.meetingId (some a) hw.creation fun h => (hw.deleted h).1
  | await a ht hc =>
    obtain ⟨h₁, h₂⟩ := MeetingSyncOperationType.inProgress_settled hc
    exact hw.unclaim s.meetingId (some a) (fun h => absurd h h₁) fun h => absurd h h₂
  | fail ht hc =>
    obtain ⟨h₁, h₂⟩ := MeetingSyncOperationType.failure_settled hc
    exact hw.unclaim s.meetingId none (fun h => absurd h h₁) fun h => absurd h h₂
  | settle a ho => exact .cleared _ _
  | remove => exact .cleared _ _
  | attach id a hs hm => exact hw.unclaim (some id) (some a) (fun _ => opened hs) (by simp)
  | suspect a hs => exact hw.unclaim s.meetingId (some a) (fun _ => opened hs) (by simp)
  | review hs => exact hw.unclaim s.meetingId none (fun _ => opened hs) (by simp)
  | activate id hs hm => exact hw.unclaim (some id) none (fun _ => hw.creation hs) (by simp)
  | reject hs => exact hw.unclaim s.meetingId none (fun _ => opened hs) (by simp)
  | disturb h1 h2 h3 h4 => exact hw.unclaim s.meetingId none hw.creation fun h => (hw.deleted h).1

theorem WellFormed.late (hw : WellFormed s) (h : Late s s') : WellFormed s' := by
  cases h with
  | activate id hs hm =>
    exact hw.unclaim (some id) none (fun h => by simp [MeetingSyncStatus.IsCreation] at h) (by simp)
  | conflict hs hm => exact hw.unclaim s.meetingId none hw.creation fun h => (hw.deleted h).1

/-! ### Operation and claim as fenced registers -/

open Fence

/-- The pending operation: its type and payload under its id. -/
def operationRegister (s : Sync) :
    Register Uuid (Option MeetingSyncOperationType × Option SyncPayload) := ⟨s.operation, (s.type, s.payload)⟩

/-- The claim: the lease under its token. -/
def claimRegister (s : Sync) : Register Uuid (Option Time) := ⟨s.claim, s.lease⟩

theorem Step.operation_change (hd : ∀ u, fresh u → u ∉ drawn) (h : Step fresh s s') :
    Change drawn s.operationRegister s'.operationRegister := by
  cases h with
  | intend payload lease hf ht hs hp => exact .grant _ _ (hd _ hf)
  | settle a ho => exact .release _ _
  | remove => exact .release _ _
  | _ => exact .keep _

theorem Step.claim_change (hd : ∀ u, fresh u → u ∉ drawn) (h : Step fresh s s') :
    Change drawn s.claimRegister s'.claimRegister := by
  cases h with
  | keep => exact .keep _
  | claimOperation lease hf hs => exact .grant _ _ (hd _ hf)
  | claimCreation lease a hf hs => exact .grant _ _ (hd _ hf)
  | _ => exact .release _ _

/-- Every uuid on the row was there before or is fresh. -/
theorem Step.operation_mem (h : Step fresh s s') {op : Uuid} (ho : s'.operation = some op) :
    s.operation = some op ∨ fresh op := by
  cases h <;> simp_all [cleared, unclaim]

theorem Step.claim_mem (h : Step fresh s s') {token : Uuid} (hc : s'.claim = some token) :
    s.claim = some token ∨ fresh token := by
  cases h <;> simp_all [cleared, unclaim]

theorem Late.operation_change (h : Late s s') : Change drawn s.operationRegister s'.operationRegister := by
  cases h <;> exact .keep _

theorem Late.claim_change (h : Late s s') : Change drawn s.claimRegister s'.claimRegister := by
  cases h <;> exact .release _ _

/-- A late answer that leaves the status is a conflict. -/
theorem Late.eq_unclaim (h : Late s s') (hs : s'.status = s.status) : s' = s.unclaim none := by
  cases h with
  | activate id hst hm => rcases hst with h | h | h <;> cases hs.trans h
  | conflict hst hm => rfl

theorem Late.operation (h : Late s s') : s'.operation = s.operation := by cases h <;> rfl

theorem Late.claim (h : Late s s') : s'.claim = none := by cases h <;> rfl

/-! ### The status goes with the operation -/

structure Coherent (s : Sync) : Prop where
  update : s.status = .updating ∨ s.status = .updateFailed →
    s.type = some .update ∧ s.operation ≠ none ∧ s.payload ≠ none
  delete : s.status = .deleting ∨ s.status = .deleteFailed → s.type = some .delete ∧ s.operation ≠ none
  settled : s.status = .active ∨ s.status = .deleted → s.type = none ∧ s.payload = none

theorem Coherent.step (hw : WellFormed s) (hc : Coherent s) (h : Step fresh s s') : Coherent s' := by
  obtain ⟨h1, h2, h3⟩ := hc
  cases h with
  | keep => exact ⟨h1, h2, h3⟩
  | @intend t op payload lease hf ht hs hp =>
    cases t <;> constructor <;> simp_all
  | claimOperation lease hf hs => exact ⟨h1, h2, h3⟩
  | claimCreation lease a hf hs => constructor <;> simp
  | postpone a hp => exact ⟨h1, h2, h3⟩
  | @await t a ht hn =>
    have ho : s.operation ≠ none := fun ho => by simp [hw.type_of_operation ho] at ht
    cases t <;> constructor <;>
      simp_all [unclaim, hw.payload_of_update]
  | @fail t ht hn =>
    have ho : s.operation ≠ none := fun ho => by simp [hw.type_of_operation ho] at ht
    cases t <;> constructor <;>
      simp_all [unclaim, hw.payload_of_update]
  | settle a ho => constructor <;> simp [cleared]
  | remove => constructor <;> simp [cleared]
  | attach id a hs hm => constructor <;> simp
  | suspect a hs => constructor <;> simp
  | review hs => constructor <;> simp
  | activate id hs hm =>
    have ht := hw.creation hs
    constructor <;> simp [unclaim, ht, hw.payload_of_type ht]
  | reject hs => constructor <;> simp
  | disturb _ _ _ _ => exact ⟨h1, h2, h3⟩

/-- A pending update shows in the status. -/
theorem Coherent.updating (hw : WellFormed s) (hc : Coherent s) (ht : s.type = some .update) :
    s.status = .updating ∨ s.status = .updateFailed := by
  have hn : s.type ≠ none := by simp [ht]
  cases hs : s.status with
  | updating => exact .inl rfl
  | updateFailed => exact .inr rfl
  | active => exact absurd (hc.settled (.inl hs)).1 hn
  | deleted => exact absurd (hc.settled (.inr hs)).1 hn
  | deleting =>
    rw [(hc.delete (.inl hs)).1] at ht
    cases ht
  | deleteFailed =>
    rw [(hc.delete (.inr hs)).1] at ht
    cases ht
  | _ => exact absurd (hw.creation (by simp [MeetingSyncStatus.IsCreation, hs])) hn

/-- A late activation leaves an operation behind under an Active meeting. -/
theorem Late.not_coherent (hc : Coherent s) (h : Late s s') (ha : s'.status = .active) :
    ¬ Coherent s' := by
  intro hc'
  have := (hc'.settled (.inl ha)).1
  cases h with
  | activate id hs hm =>
    rcases hs with h | h | h
    · simp [unclaim, (hc.update (.inl h)).1] at this
    · simp [unclaim, (hc.update (.inr h)).1] at this
    · simp [unclaim, (hc.delete (.inr h)).1] at this
  | conflict hs hm => rcases hs with h | h <;> simp [unclaim, h] at ha

theorem Coherent.conflict (hc : Coherent s) (a : Option Time) : Coherent (s.unclaim a) :=
  ⟨hc.update, hc.delete, hc.settled⟩

/-! ### An open meeting can be found again -/

structure Schedulable (s : Sync) : Prop where
  creating : s.status = .creating → s.lease ≠ none
  pending : s.status = .updating ∨ s.status = .deleting → s.lease ≠ none ∨ s.available ≠ none
  unknown : s.status = .createUnknown → s.available ≠ none ∨ s.claim = none ∧ s.lease = none

theorem Schedulable.step (hw : WellFormed s) (hc : Schedulable s) (h : Step fresh s s') :
    Schedulable s' := by
  obtain ⟨h1, h2, h3⟩ := hc
  cases h with
  | keep => exact ⟨h1, h2, h3⟩
  | @intend t op payload lease hf ht hs hp =>
    cases t <;> constructor <;> simp_all
  | claimOperation lease hf hs => rcases hs with h | h | h | h <;> constructor <;> simp [h]
  | claimCreation lease a hf hs => constructor <;> simp
  | postpone a hp =>
    refine ⟨fun h => ?_, fun _ => Or.inr (by simp [unclaim]), fun _ => Or.inl (by simp [unclaim])⟩
    rcases hp with hp | hp
    · exact absurd (hw.creating h) hp
    · exact absurd (hw.creation (.inr (.inl h))) hp
  | @await t a ht hn => cases t <;> constructor <;> simp_all [unclaim]
  | @fail t ht hn => cases t <;> constructor <;> simp_all [unclaim]
  | settle a ho => constructor <;> simp [cleared]
  | remove => constructor <;> simp [cleared]
  | attach id a hs hm => constructor <;> simp [unclaim]
  | suspect a hs => constructor <;> simp [unclaim]
  | review hs => constructor <;> simp [unclaim]
  | activate id hs hm => constructor <;> simp
  | reject hs => constructor <;> simp
  | disturb h1 h2 h3 h4 => constructor <;> simp_all [unclaim]

theorem Schedulable.activate (hs : s'.status = .active) : Schedulable s' := by
  constructor <;> simp [hs]

/-! ### A meeting that exists in Zoom -/

/-- A Zoom id once stored stays. -/
theorem Step.meetingId {id : ZoomId} (hi : s.meetingId = some id) (h : Step fresh s s') :
    s'.meetingId = some id := by
  cases h with
  | attach id' a hs hn =>
    rw [hn] at hi
    cases hi
  | activate id' hs hm => exact (hm.resolve_left (by simp [hi])).symm.trans hi
  | _ => exact hi

theorem Late.meetingId {id : ZoomId} (hi : s.meetingId = some id) (h : Late s s') : s'.meetingId = some id := by
  cases h with
  | activate id' hs hm => exact (hm.resolve_left (by simp [hi])).symm.trans hi
  | conflict hs hm => exact hi

/-- The meeting is known to exist in Zoom, under this id. -/
def Established (id : ZoomId) (s : Sync) : Prop := s.meetingId = some id ∧ ¬ s.status.IsCreation

theorem Established.step {id : ZoomId} (he : Established id s) (h : Step fresh s s') : Established id s' := by
  obtain ⟨hi, hs⟩ := he
  have closed (ho : s.status = .creating ∨ s.status = .createUnknown) : Established id s' :=
    absurd (.of_open ho) hs
  cases h with
  | keep | claimOperation | postpone | disturb => exact ⟨hi, hs⟩
  | intend payload lease hf ht => exact ⟨hi, (MeetingSyncOperationType.inProgress_settled ht).1⟩
  | await a ht hc => exact ⟨hi, (MeetingSyncOperationType.inProgress_settled hc).1⟩
  | fail ht hc => exact ⟨hi, (MeetingSyncOperationType.failure_settled hc).1⟩
  | settle | remove => exact ⟨hi, by simp [cleared, MeetingSyncStatus.IsCreation]⟩
  | activate id' ha => exact absurd ha hs
  | claimCreation lease a hf ho => exact closed ho
  | attach id' a ho => exact closed ho
  | suspect a ho => exact closed ho
  | review ho => exact closed ho
  | reject ho => exact closed ho

theorem Established.late {id : ZoomId} (he : Established id s) (h : Late s s') : Established id s' := by
  cases h with
  | activate id' hs hm =>
    have hid : id' = id := by
      rcases hm with hm | hm
      · rw [he.1] at hm
        cases hm
      · rw [he.1] at hm
        exact (Option.some.inj hm).symm
    exact ⟨congrArg some hid, by simp [MeetingSyncStatus.IsCreation]⟩
  | conflict hs hm => exact he

/-! ### A deleted meeting -/

/-- No move leaves Deleted. -/
theorem Step.deleted (hw : WellFormed s) (hd : s.status = .deleted) (h : Step fresh s s') :
    s'.status = .deleted := by
  have ho := (hw.deleted hd).1
  have ht := hw.type_of_operation ho
  have closed (hs : s.status.IsCreation) : s'.status = .deleted := by
    rw [hd] at hs
    simp [MeetingSyncStatus.IsCreation] at hs
  cases h with
  | keep | postpone | disturb => exact hd
  | intend payload lease hf ht hs =>
    rw [hd] at hs
    simp at hs
  | claimOperation lease hf hs =>
    rw [hd] at hs
    simp at hs
  | await a hty =>
    rw [ht] at hty
    cases hty
  | fail hty =>
    rw [ht] at hty
    cases hty
  | settle a hop => exact absurd ho hop
  | remove => rfl
  | activate id hs => exact closed hs
  | claimCreation lease a hf hs => exact closed (.of_open hs)
  | attach id a hs => exact closed (.of_open hs)
  | suspect a hs => exact closed (.of_open hs)
  | review hs => exact closed (.of_open hs)
  | reject hs => exact closed (.of_open hs)

theorem Late.not_deleted (h : Late s s') : s.status ≠ .deleted := by
  intro hd
  cases h with
  | activate id hs =>
    rw [hd] at hs
    simp at hs
  | conflict hs =>
    rw [hd] at hs
    simp at hs

end Sync
end Daywright
