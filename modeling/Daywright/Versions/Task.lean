/-
# The update of a task

`TaskService::updateTask`: under the lock of the task it checks the version, makes the
transition to a new status, which saves the task, and then saves the other attributes
with the next version; a status alone gets a save of its own for the version. A task
that changes its due date or its notification rule is to be notified again
(`ResetTaskNotificationAction`).

However a run goes, a body that commits had the version its request carries, a
legal status, and made at most one step of the version (`updateTask_versioned`).

Key definitions: `TaskUpdateData`, `Task`, `updateTask`, `taskService`.
Key theorem: `updateTask_versioned`.
-/
import Daywright.Versions.StateMachine

namespace Daywright
namespace Versions

open Transaction Php

inductive TaskSystemStatus where
  | Pending
  | InProgress
  | UnderReview
  | Completed
  | Cancelled
  deriving DecidableEq, Repr

def TaskSystemStatus.name : TaskSystemStatus → String
  | .Pending => "Pending"
  | .InProgress => "InProgress"
  | .UnderReview => "UnderReview"
  | .Completed => "Completed"
  | .Cancelled => "Cancelled"

def TaskSystemStatus.value : TaskSystemStatus → ℤ
  | .Pending => 1
  | .InProgress => 2
  | .UnderReview => 3
  | .Completed => 4
  | .Cancelled => 5

def TaskSystemStatus.backed : BackedEnum TaskSystemStatus where
  enum := "App\\Enums\\TaskSystemStatus"
  cases := [.Pending, .InProgress, .UnderReview, .Completed, .Cancelled]
  name := TaskSystemStatus.name
  value := TaskSystemStatus.value

/-- The columns of a task that an update reads or writes. -/
structure Task where
  title : Value
  description : Value
  notified : Value
  notifySent : Value
  dueAt : Option Time
  statusId : Option ℤ
  version : ℤ
  deletedAt : Option Time
  updatedAt : Time
  deriving DecidableEq, Repr

/-- `Task::validTransitions`. -/
def Task.validTransitions : List (ℤ × List ℤ) :=
  [(TaskSystemStatus.Pending.value, [TaskSystemStatus.InProgress.value, TaskSystemStatus.Cancelled.value]),
   (TaskSystemStatus.InProgress.value, [TaskSystemStatus.UnderReview.value, TaskSystemStatus.Pending.value,
     TaskSystemStatus.Cancelled.value]),
   (TaskSystemStatus.UnderReview.value, [TaskSystemStatus.Completed.value, TaskSystemStatus.InProgress.value,
     TaskSystemStatus.Cancelled.value]),
   (TaskSystemStatus.Completed.value, []),
   (TaskSystemStatus.Cancelled.value, [])]

/-! ### The request -/

/-- What an update may set, and the version it carries. -/
structure TaskUpdateData where
  attributes : List (String × Value)
  version : Option ℤ
  known : ∀ f ∈ attributes, f.1 ∈ ["title", "description", "due_at", "status_id", "notified", "notify_sent"]
  deriving DecidableEq

namespace TaskUpdateData

def fromArray (payload : List (String × Value)) : TaskUpdateData where
  attributes := only ["title", "description", "due_at", "status_id", "notified", "notify_sent"] payload
  version := payloadVersion payload
  known := mem_only

variable (data : TaskUpdateData)

def isEmpty : Bool := data.attributes.isEmpty

def hasDueAt : Bool := hasKey "due_at" data.attributes

def dueAt : Option String := (field "due_at" data.attributes).bind string?

def hasNotified : Bool := hasKey "notified" data.attributes

def notified : Option String := (field "notified" data.attributes).bind string?

/-- `null` also without `hasStatusUpdate`. -/
def statusId : Option ℤ := (field "status_id" data.attributes).bind numeric

def attributesWithoutStatus : List (String × Value) := data.attributes.filter fun f => f.1 != "status_id"

/-- The version is not carried over. -/
def withNotificationReset : TaskUpdateData where
  attributes := data.attributes.filter (fun f => f.1 != "notify_sent") ++ [("notify_sent", .bool false)]
  version := none
  known f hf := by
    rcases List.mem_append.mp hf with hf | hf
    · exact data.known f (List.mem_of_mem_filter hf)
    · rw [List.mem_singleton.mp hf]
      decide

end TaskUpdateData

/-- How Carbon and the column read a date (`none`: one of them refuses it), and how
Carbon writes it. -/
structure Carbon where
  fromDateTime : Value → Option Time
  toIso8601String : Time → String

namespace ResetTaskNotificationAction

variable (C : Carbon) (task : Task) (data : TaskUpdateData)

def dueDateChanged : Bool :=
  data.hasDueAt && decide (some (data.dueAt.getD "") ≠ task.dueAt.map C.toIso8601String)

def notifyRuleChanged : Bool :=
  data.hasNotified && decide (data.notified.getD "" ≠ toText task.notified)

def shouldResetNotification : Bool := dueDateChanged C task data || notifyRuleChanged task data

def execute : TaskUpdateData := if shouldResetNotification C task data then data.withNotificationReset else data

end ResetTaskNotificationAction

/-! ### The update -/

/-- The due date after a `fill`; `none`: it is refused. -/
def filledDueAt (C : Carbon) (attributes : List (String × Value)) (old : Option Time) : Option (Option Time) :=
  match field "due_at" attributes with
  | none => some old
  | some .null => some none
  | some v => (C.fromDateTime v).map some

def Task.fill (C : Carbon) (attributes : List (String × Value)) (task : Task) : Option Task :=
  (filledDueAt C attributes task.dueAt).map fun dueAt =>
    { task with
      title := filled "title" attributes task.title
      description := filled "description" attributes task.description
      notified := filled "notified" attributes task.notified
      notifySent := filled "notify_sent" attributes task.notifySent
      dueAt }

/-- The task is saved with the next version. -/
def Task.bump (task : Task) (t : Clock) : Task :=
  { task with version := task.version + 1, updatedAt := t.freshTimestamp }

/-- The end of the transaction: the other attributes, or the version alone. -/
def updateAttributes (C : Carbon) (payload : TaskUpdateData) (statusChanged : Bool) (freshTask : Task) : Update Task :=
  if payload.attributesWithoutStatus ≠ [] then
    match freshTask.fill C payload.attributesWithoutStatus with
    | none => .fail (.invalidFormat ((field "due_at" payload.attributes).getD .null))
    | some task => .update task.bump .commit
  else if statusChanged then .update freshTask.bump .commit
  else .commit freshTask

/-- What `updateTask` does with the version checked. -/
def updateStatus (C : Carbon) (data : TaskUpdateData) (freshTask : Task) : Update Task :=
  let payload := ResetTaskNotificationAction.execute C freshTask data
  match data.statusId with
  | none => updateAttributes C payload false freshTask
  | some status =>
    match TaskSystemStatus.backed.tryFrom status with
    | none => .fail (.valueError status TaskSystemStatus.backed.enum)
    | some newStatus =>
      if some newStatus.value = freshTask.statusId then updateAttributes C payload false freshTask
      else
        HasStateMachine.transitionTo TaskSystemStatus.backed Task.validTransitions freshTask.statusId newStatus
          (fun t => { freshTask with statusId := some newStatus.value, updatedAt := t.freshTimestamp })
          (updateAttributes C payload true)

/-- The transaction of `updateTask`, on the task under its lock. -/
def updateTask (C : Carbon) (data : TaskUpdateData) (freshTask : Task) : Update Task :=
  onVersion freshTask.deletedAt data.version freshTask.version (updateStatus C data freshTask)

def taskService (C : Carbon) : Service Task TaskUpdateData Error Clock where
  refuse data :=
    if data.isEmpty then some (.validation "task" "Field missing in task")
    else if data.version = none then some versionRequired
    else none
  body := updateTask C

/-! ### Its versions -/

variable {C : Carbon} {data : TaskUpdateData} {task task' model : Task}

/-- The status that is asked for, if one is, may be asked for. -/
def TaskUpdateData.Legal (data : TaskUpdateData) (task : Task) : Prop :=
  ∀ status, data.statusId = some status →
    StateLegal TaskSystemStatus.backed Task.validTransitions task.statusId status

theorem version_of_fill {attributes : List (String × Value)} (h : task.fill C attributes = some task') :
    task'.version = task.version := by
  obtain ⟨dueAt, -, rfl⟩ := Option.map_eq_some_iff.mp h
  rfl

/-- The end of the transaction makes one step of the version, or had nothing to save. -/
theorem version_of_updateAttributes {payload : TaskUpdateData} {statusChanged : Bool}
    (h : (updateAttributes C payload statusChanged task).Commits task task' model) :
    task'.version = task.version + 1 ∨ (statusChanged = false ∧ task' = task) := by
  unfold updateAttributes at h
  split at h
  · split at h
    · exact absurd h Body.commits_fail
    · rename_i filled hfill
      obtain ⟨t, h⟩ := Body.commits_update.mp h
      obtain ⟨-, rfl⟩ := Body.commits_commit.mp h
      refine .inl ?_
      rw [← version_of_fill hfill]
      rfl
  · split at h
    · obtain ⟨t, h⟩ := Body.commits_update.mp h
      obtain ⟨-, rfl⟩ := Body.commits_commit.mp h
      exact .inl rfl
    · rename_i hchanged
      exact .inr ⟨by simpa using hchanged, (Body.commits_commit.mp h).2⟩

/-- Without a transition the task is saved once, or not at all. -/
theorem version_of_unchanged {payload : TaskUpdateData}
    (h : (updateAttributes C payload false task).Commits task task' model) :
    task' = task ∨ task'.version = task.version + 1 :=
  (version_of_updateAttributes h).symm.imp_left And.right

/-- After a transition it is saved once more. -/
theorem version_of_transition {payload : TaskUpdateData}
    (h : (updateAttributes C payload true task).Commits task task' model) : task'.version = task.version + 1 := by
  rcases version_of_updateAttributes h with h | ⟨h, -⟩
  · exact h
  · cases h

theorem updateStatus_commits (h : (updateStatus C data task).Commits task task' model) :
    data.Legal task ∧ (task' = task ∨ task'.version = task.version + 1) := by
  simp only [updateStatus] at h
  split at h
  · rename_i hnone
    exact ⟨by simp [TaskUpdateData.Legal, hnone], version_of_unchanged h⟩
  rename_i status hstatus
  have legal (hl : StateLegal TaskSystemStatus.backed Task.validTransitions task.statusId status) :
      data.Legal task := by
    intro status' hstatus'
    cases hstatus.symm.trans hstatus'
    exact hl
  split at h
  · exact absurd h Body.commits_fail
  rename_i newStatus hnew
  split at h
  · rename_i hsame
    exact ⟨legal (.of_same hnew hsame), version_of_unchanged h⟩
  · obtain ⟨hmem, t, h⟩ := HasStateMachine.commits_transitionTo.mp h
    have hver := version_of_transition h
    exact ⟨legal (.of_allowed hnew hmem), .inr hver⟩

theorem updateTask_versioned (C : Carbon) :
    Versioned (taskService C) Task.version TaskUpdateData.version TaskUpdateData.Legal := by
  intro data task task' model h
  obtain ⟨-, hcarried, h⟩ := commits_onVersion.mp h
  obtain ⟨hlegal, hver⟩ := updateStatus_commits h
  exact ⟨⟨hcarried, hlegal⟩, hver⟩

end Versions
end Daywright
