/-
# Transactions and steps of a process

A process works on the row in transactions, with calls of Zoom between them. A
transaction ends in a `Commit`; a step of a process ends in an `Outcome`: what it
wrote, and where the process goes on. The environment chooses the time of every
step and the answers of Zoom (`Input`).

Every action comes with what its writes are in the protocol (`Meeting.Moves`).

Key definitions: `Meeting.Moves`, `Commit`, `Input`, `Outcome`, `executeWithOperationIdCheck`.
-/
import Daywright.Meetings.Protocol
import Daywright.Webhooks.Changes

namespace Daywright

/-- A write that is a move of the protocol, and leaves `sync_started_at` set. -/
structure Meeting.Moves (fresh : Uuid → Prop) (m m' : Meeting) : Prop where
  sync : Sync.Step fresh m.sync m'.sync
  started : m.syncStartedAt ≠ none → m'.syncStartedAt ≠ none

theorem Meeting.Moves.keep {fresh : Uuid → Prop} {m m' : Meeting} (hs : m'.sync = m.sync)
    (ht : m.syncStartedAt ≠ none → m'.syncStartedAt ≠ none) : m.Moves fresh m' :=
  ⟨hs ▸ .keep _, ht⟩

/-- How a transaction, or a single `update`, on the row ends. -/
inductive Commit where
  /-- Rolled back. -/
  | throws (e : Throwable)
  /-- Nothing was written. -/
  | unchanged
  | wrote (m : Meeting)

namespace Commit

def written : Commit → Option Meeting
  | .wrote m => some m
  | _ => none

/-- A transaction that goes through `transitionTo` first. -/
def afterTransition (moved : Except Throwable Meeting) (change : Meeting → Meeting) : Commit :=
  match moved with
  | .error e => .throws e
  | .ok m => .wrote (change m)

@[simp] theorem written_wrote (m : Meeting) : (Commit.wrote m).written = some m := rfl
@[simp] theorem written_unchanged : Commit.unchanged.written = none := rfl
@[simp] theorem written_throws (e : Throwable) : (Commit.throws e).written = none := rfl

theorem eq_wrote {c : Commit} {m : Meeting} (h : c.written = some m) : c = .wrote m := by
  cases c with
  | wrote m' => exact congrArg Commit.wrote (Option.some.inj h)
  | throws e => cases h
  | unchanged => cases h

theorem afterTransition_written {moved : Except Throwable Meeting} {change : Meeting → Meeting} {m' : Meeting}
    (h : (afterTransition moved change).written = some m') : ∃ m, moved = .ok m ∧ m' = change m := by
  cases moved with
  | error e => cases h
  | ok m => exact ⟨m, rfl, by simpa [afterTransition] using h.symm⟩

end Commit

/-- The answer to the call a process is waiting for. -/
inductive Reply where
  /-- The step waits for no answer. -/
  | none
  /-- The request was carried out. -/
  | done
  | created (z : ZoomMeeting)
  | fetched (z : Option ZoomMeeting)
  /-- The list of meetings, each with what fetching it returns. -/
  | listed (meetings : List (MeetingSummary × Option ZoomMeeting))
  | throws (e : Throwable)

structure Input where
  now : Time
  /-- The value of `Str::uuid()`, in a step that draws one. -/
  uuid : Uuid
  reply : Reply

/-- A step of a process that goes on from `next`, if at all. -/
structure Outcome (π : Type) where
  written : Option Meeting
  next : Option π

namespace Outcome

variable {π ρ : Type}

/-- Nothing is written and the process goes on. -/
def goOn (p : π) : Outcome π := ⟨none, some p⟩

/-- Nothing is written and the process is over. -/
def stop : Outcome π := ⟨none, none⟩

/-- The last transaction of a process. -/
def last (c : Commit) : Outcome π := ⟨c.written, none⟩

def map (f : π → ρ) (o : Outcome π) : Outcome ρ := ⟨o.written, o.next.map f⟩

@[simp] theorem goOn_written (p : π) : (goOn p).written = none := rfl
@[simp] theorem stop_written : (stop : Outcome π).written = none := rfl
@[simp] theorem last_written (c : Commit) : (last c : Outcome π).written = c.written := rfl
@[simp] theorem map_written (f : π → ρ) (o : Outcome π) : (o.map f).written = o.written := rfl

end Outcome

/-- `MeetingOperationValidation::executeWithOperationIdCheck`. -/
def executeWithOperationIdCheck (m : Meeting) (operationId : Uuid) (callback : Meeting → Meeting) : Commit :=
  if m.syncOperationId ≠ some operationId then .unchanged else .wrote (callback m)

theorem executeWithOperationIdCheck_written {m m' : Meeting} {operationId : Uuid}
    {callback : Meeting → Meeting}
    (h : (executeWithOperationIdCheck m operationId callback).written = some m') :
    m.syncOperationId = some operationId ∧ m' = callback m := by
  unfold executeWithOperationIdCheck at h
  split at h
  · cases h
  · rename_i hop
    exact ⟨not_not.mp hop, by simpa using h.symm⟩

end Daywright
