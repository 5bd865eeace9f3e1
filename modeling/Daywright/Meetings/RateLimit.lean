/-
# A request that Zoom's rate limit refuses

An update or a deletion saves its intent over what is recorded on the meeting, and only
then asks Zoom. When Zoom limits the rate the request is rolled back, for the user to
repeat: the meeting becomes Active again, without an operation, a payload or an error
(`handle_rateLimited`). What the meeting is, as its users see it, stays as it was. So a
meeting that was Active without any of these is left as if nothing had been asked of it,
and one whose earlier operation had failed is not (`rateLimited_rollsBack`).

Key definitions: `alone`, `MeetingRequest.handle`, `rolledBack`, `Unchanged`.
Key theorems: `handle_rateLimited`, `rateLimited_rollsBack`.
-/
import Daywright.Meetings.Create
import Daywright.Meetings.Update
import Daywright.Meetings.Delete

namespace Daywright
namespace Meetings

open Php

/-- The row that a process leaves whose steps nobody else writes between. -/
def alone {π : Type} (step : π → Meeting → Input → Option (Outcome π)) :
    Option π → Meeting → List Input → Option Meeting
  | none, m, [] => some m
  | some p, m, e :: es => (step p m e).bind fun o => alone step o.next (o.written.getD m) es
  | _, _, _ => none

inductive MeetingRequest where
  | update (data : MeetingUpdateData)
  | delete

namespace MeetingRequest

/-- The statuses from which the request is accepted. -/
def acceptedFrom : MeetingRequest → List MeetingSyncStatus
  | .update _ => [.active, .updateFailed]
  | .delete => [.active, .updateFailed, .deleteFailed]

/-- `handle` of the two actions: the intent is saved with the one input, and Zoom's
answer is recorded with the other. -/
def handle (m : Meeting) (intent answer : Input) : MeetingRequest → Option Meeting
  | .update data => alone UpdateProjectMeeting.step (some (.saveUpdateIntent data)) m [intent, answer]
  | .delete => alone DeleteProjectMeeting.step (some .handle) m [intent, intent, answer]

end MeetingRequest

/-- The meeting after the rollback of a request that was started then. -/
def rolledBack (m : Meeting) (startedAt : Time) : Meeting :=
  { m with
    syncStatus := .active
    syncError := none
    syncAttempts := 0
    syncOperationId := none
    syncOperationType := none
    syncPayload := none
    syncClaimToken := none
    syncStartedAt := some startedAt
    syncLeaseExpiresAt := none
    syncAvailableAt := none }

/-- Users see the same meeting. -/
structure SameContent (m m' : Meeting) : Prop where
  meetingId : m'.meetingId = m.meetingId
  attributes : m'.attributes = m.attributes
  status : m'.status = m.status

/-- A request has left no trace: neither in what users see nor in what is recorded of an
earlier operation. -/
structure Unchanged (m m' : Meeting) : Prop extends SameContent m m' where
  syncStatus : m'.syncStatus = m.syncStatus
  syncOperationType : m'.syncOperationType = m.syncOperationType
  syncPayload : m'.syncPayload = m.syncPayload
  syncError : m'.syncError = m.syncError

variable {m : Meeting} {intent answer : Input} {retryAfter : Option ℕ} {application : Bool}

theorem update_rateLimited {data : MeetingUpdateData} (hs : m.syncStatus = .active ∨ m.syncStatus = .updateFailed)
    (hr : answer.reply = .throws (.rateLimit retryAfter application)) :
    (MeetingRequest.update data).handle m intent answer = some (rolledBack m intent.now) := by
  have hc : ¬ (m.syncStatus ≠ .active ∧ m.syncStatus ≠ .updateFailed) := fun hn => hs.elim hn.1 hn.2
  simp [MeetingRequest.handle, alone, UpdateProjectMeeting.step, UpdateProjectMeeting.saveUpdateIntent, if_neg hc,
    UpdateProjectMeeting.handleReply, hr, UpdateProjectMeeting.rollbackToActive, executeWithOperationIdCheck,
    rolledBack, Outcome.last]

theorem delete_rateLimited
    (hs : m.syncStatus = .active ∨ m.syncStatus = .updateFailed ∨ m.syncStatus = .deleteFailed)
    (hr : answer.reply = .throws (.rateLimit retryAfter application)) :
    MeetingRequest.delete.handle m intent answer = some (rolledBack m intent.now) := by
  have hd : m.syncStatus ≠ .deleted := by rcases hs with h | h | h <;> simp [h]
  have hg : m.syncStatus ≠ .deleting := by rcases hs with h | h | h <;> simp [h]
  simp [MeetingRequest.handle, alone, DeleteProjectMeeting.step, DeleteProjectMeeting.saveDeleteIntent, hd, hg, hs,
    DeleteProjectMeeting.handleReply, hr, DeleteProjectMeeting.rollbackToActive, executeWithOperationIdCheck,
    rolledBack, Outcome.last, Outcome.goOn]

/-- Whatever the request, and whatever was recorded on the meeting. -/
theorem handle_rateLimited {request : MeetingRequest} (hs : m.syncStatus ∈ request.acceptedFrom)
    (hr : answer.reply = .throws (.rateLimit retryAfter application)) :
    request.handle m intent answer = some (rolledBack m intent.now) := by
  cases request with
  | update data => exact update_rateLimited (by simpa [MeetingRequest.acceptedFrom] using hs) hr
  | delete => exact delete_rateLimited (by simpa [MeetingRequest.acceptedFrom] using hs) hr

theorem rolledBack_sameContent (m : Meeting) (startedAt : Time) : SameContent m (rolledBack m startedAt) :=
  ⟨rfl, rfl, rfl⟩

/-- The rollback restores what was there before only where nothing was. -/
theorem unchanged_rolledBack_iff {startedAt : Time} : Unchanged m (rolledBack m startedAt) ↔
    m.syncStatus = .active ∧ m.syncOperationType = none ∧ m.syncPayload = none ∧ m.syncError = none := by
  constructor
  · rintro ⟨-, hs, ht, hp, he⟩
    exact ⟨hs.symm, ht.symm, hp.symm, he.symm⟩
  · rintro ⟨hs, ht, hp, he⟩
    exact ⟨rolledBack_sameContent m startedAt, hs.symm, ht.symm, hp.symm, he.symm⟩

/-- **A rate-limited request is rolled back to Active**, with its users seeing the same
meeting; nothing else of the meeting has changed exactly if it was Active, without an
operation, a payload or an error. -/
theorem rateLimited_rollsBack {request : MeetingRequest} (hs : m.syncStatus ∈ request.acceptedFrom)
    (hr : answer.reply = .throws (.rateLimit retryAfter application)) :
    ∃ m', request.handle m intent answer = some m' ∧ SameContent m m' ∧
      (m'.syncStatus = .active ∧ m'.syncOperationType = none ∧ m'.syncPayload = none ∧ m'.syncError = none) ∧
      (Unchanged m m' ↔
        m.syncStatus = .active ∧ m.syncOperationType = none ∧ m.syncPayload = none ∧ m.syncError = none) :=
  ⟨rolledBack m intent.now, handle_rateLimited hs hr, rolledBack_sameContent m intent.now, ⟨rfl, rfl, rfl, rfl⟩,
    unchanged_rolledBack_iff⟩

namespace Sample

/-- A meeting whose update Zoom has refused. -/
def updateFailed : Meeting :=
  { CreateProjectMeeting.blankMeeting with
    meetingId := some 77
    syncStatus := .updateFailed
    syncError := some "Zoom request failed."
    syncAttempts := 1
    syncOperationId := some "op-1"
    syncOperationType := some .update
    syncPayload := some (.json [("topic", .str "Planning")])
    syncStartedAt := some 0 }

def intended : Input := ⟨1000, "op-2", .none⟩

def refusal : Input := ⟨2000, "", .throws (.rateLimit (some 60) false)⟩

end Sample

theorem rateLimited_rollsBack_failed :
    ∃ m', MeetingRequest.delete.handle Sample.updateFailed Sample.intended Sample.refusal = some m' ∧
      SameContent Sample.updateFailed m' ∧ m'.syncStatus = .active := by
  have hs : Sample.updateFailed.syncStatus ∈ MeetingRequest.delete.acceptedFrom := by decide
  have hr : Sample.refusal.reply = .throws (.rateLimit (some 60) false) := rfl
  obtain ⟨m', hm, hc, ⟨hs, -⟩, -⟩ := rateLimited_rollsBack hs hr
  exact ⟨m', hm, hc, hs⟩

/-- The failed update is forgotten: the meeting is Active, its payload and error are gone. -/
theorem failure_forgotten : ∃ m', (MeetingRequest.update ⟨some "Review", none, none, none, none, none, none⟩).handle
    Sample.updateFailed Sample.intended Sample.refusal = some m' ∧ ¬ Unchanged Sample.updateFailed m' := by
  refine ⟨rolledBack Sample.updateFailed 1000, update_rateLimited (.inr rfl) rfl, fun h => ?_⟩
  cases h.syncPayload

end Meetings
end Daywright
