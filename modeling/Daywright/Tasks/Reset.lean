/-
# The mark of a notified task

`ResetTaskNotificationAction` compares the due date and the rule of an update with those
of the task, the date by its text. For what the request passes on that is the right
comparison: the mark is taken back exactly if the update changes the instant or the rule
(`shouldResetNotification_iff`), so after an update a task is marked if it was before
and keeps its setting (`isSent_of_updateTask`).

Key definitions: `Carbon.Exact`, `Task.setting`, `Task.isSent`.
Key theorems: `shouldResetNotification_iff`, `isSent_of_updateTask`.
-/
import Daywright.Tasks.UpdateRequest

namespace Daywright
namespace Versions

open Php Transaction

/-- A date is written in UTC as the second it stands for, and what is written so is read as
this second. -/
structure Carbon.Exact (C : Carbon) (instant : Time → ℤ) : Prop where
  toIso8601String : ∀ t, C.toIso8601String t = Iso8601Timestamp.normalForm (instant t)
  fromDateTime : ∀ n t, Iso8601Timestamp.InRange n →
    C.fromDateTime (.str (Iso8601Timestamp.normalForm n)) = some t → instant t = n

/-- The due date, as an instant, and the notification rule. -/
def Task.setting (instant : Time → ℤ) (task : Task) : Option ℤ × Value := (task.dueAt.map instant, task.notified)

def Task.isSent (task : Task) : Bool := Php.toBool task.notifySent

/-- The column of the rule holds a text or a null. -/
def Task.RuleStored (task : Task) : Prop := task.notified = .null ∨ ∃ s, task.notified = .str s

/-- What a save of the attributes makes of what concerns the notification. -/
structure Task.Filled (C : Carbon) (attributes : List (String × Value)) (task task' : Task) : Prop where
  dueAt : filledDueAt C attributes task.dueAt = some task'.dueAt
  notified : task'.notified = filled "notified" attributes task.notified
  notifySent : task'.notifySent = filled "notify_sent" attributes task.notifySent

variable {C : Carbon} {instant : Time → ℤ} {data payload : TaskUpdateData} {task task' model : Task}
  {attributes : List (String × Value)}

/-! ### When the mark is taken back -/

open ResetTaskNotificationAction

/-- The due dates have another text exactly if they are other instants. -/
theorem dueDateChanged_iff (hC : C.Exact instant) (hd : TaskUpdateRequest.Normal data)
    (ha : field "due_at" attributes = field "due_at" data.attributes) {dueAt : Option Time}
    (hdue : filledDueAt C attributes task.dueAt = some dueAt) :
    dueDateChanged C task data = true ↔ dueAt.map instant ≠ task.dueAt.map instant := by
  rw [dueDateChanged, TaskUpdateData.hasDueAt, TaskUpdateData.dueAt, hasKey_eq]
  rw [filledDueAt, ha] at hdue
  cases hv : field "due_at" data.attributes with
  | none =>
    rw [hv] at hdue
    cases hdue
    simp
  | some v =>
    obtain ⟨n, hn, rfl⟩ := hd.dueAt v hv
    rw [hv] at hdue
    obtain ⟨t, ht, rfl⟩ := Option.map_eq_some_iff.mp hdue
    have hinstant : (some t).map instant = some n := congrArg some (hC.fromDateTime n t hn ht)
    show (true && decide (some (Iso8601Timestamp.normalForm n) ≠ task.dueAt.map C.toIso8601String)) = true ↔
      (some t).map instant ≠ task.dueAt.map instant
    rw [hinstant, Bool.true_and, decide_eq_true_iff, not_iff_not]
    cases task.dueAt with
    | none => simp
    | some t₀ =>
      rw [Option.map_some, Option.map_some, Option.some.injEq, Option.some.injEq, hC.toIso8601String, eq_comm,
        Iso8601Timestamp.normalForm_inj hn, eq_comm]

/-- The texts of the rules differ exactly if the rules do. -/
theorem notifyRuleChanged_iff (hd : TaskUpdateRequest.Normal data) (hs : task.RuleStored)
    (ha : field "notified" attributes = field "notified" data.attributes) :
    notifyRuleChanged task data = true ↔ filled "notified" attributes task.notified ≠ task.notified := by
  rw [notifyRuleChanged, TaskUpdateData.hasNotified, TaskUpdateData.notified, hasKey_eq, filled, ha]
  cases hv : field "notified" data.attributes with
  | none => simp
  | some v =>
    obtain ⟨s, hmem, rfl⟩ := hd.notified v hv
    show (true && decide (s ≠ toText task.notified)) = true ↔ Value.str s ≠ task.notified
    rw [Bool.true_and, decide_eq_true_iff, not_iff_not]
    rcases hs with hnull | ⟨s₀, hstr⟩
    · have hne : s ≠ "" := by
        rintro rfl
        exact absurd hmem (by decide)
      rw [hnull]
      simp [toText, hne]
    · rw [hstr]
      simp [toText]

/-- **The mark is taken back exactly if the update changes the setting.** -/
theorem shouldResetNotification_iff (hC : C.Exact instant) (hd : TaskUpdateRequest.Normal data) (hs : task.RuleStored)
    (hdue : field "due_at" attributes = field "due_at" data.attributes)
    (hrule : field "notified" attributes = field "notified" data.attributes) (hf : task.Filled C attributes task') :
    shouldResetNotification C task data = true ↔ task'.setting instant ≠ task.setting instant := by
  rw [shouldResetNotification, Bool.or_eq_true, dueDateChanged_iff hC hd hdue hf.dueAt,
    notifyRuleChanged_iff hd hs hrule, ← hf.notified]
  simp only [Task.setting, ne_eq, Prod.mk.injEq, not_and_or]

/-! ### The update -/

/-- What is saved of the update: its attributes, and the mark if it is taken back. -/
theorem field_execute (hd : TaskUpdateRequest.Normal data) {key : String} (hk : key ≠ "status_id") :
    field key (execute C task data).attributesWithoutStatus =
      if key = "notify_sent" then if shouldResetNotification C task data then some (.bool false) else none
      else field key data.attributes := by
  have hstatus (data : TaskUpdateData) : field key data.attributesWithoutStatus = field key data.attributes := by
    rw [TaskUpdateData.attributesWithoutStatus, field_filter fun name => name != "status_id", if_pos (by simpa using hk)]
  rw [hstatus, execute]
  by_cases hreset : shouldResetNotification C task data = true
  · rw [if_pos hreset, if_pos hreset, TaskUpdateData.withNotificationReset]
    dsimp only
    rw [field_append, field_filter fun name => name != "notify_sent"]
    by_cases hn : key = "notify_sent"
    · rw [hn]
      rfl
    · rw [if_pos (by simpa using hn), if_neg hn]
      simp [field, Ne.symm hn]
  · rw [if_neg hreset, if_neg hreset]
    by_cases hn : key = "notify_sent"
    · rw [if_pos hn, hn, hd.notifySent]
    · rw [if_neg hn]

/-- The mark and the setting after a save of the attributes. -/
theorem isSent_of_filled (hC : C.Exact instant) (hd : TaskUpdateRequest.Normal data) (hs : task.RuleStored)
    (hf : task.Filled C (execute C task data).attributesWithoutStatus task') :
    task'.isSent = (task.isSent && decide (task'.setting instant = task.setting instant)) ∧ task'.RuleStored := by
  have hdue : field "due_at" (execute C task data).attributesWithoutStatus = field "due_at" data.attributes :=
    field_execute hd (by decide)
  have hrule : field "notified" (execute C task data).attributesWithoutStatus = field "notified" data.attributes :=
    field_execute hd (by decide)
  have hmark : field "notify_sent" (execute C task data).attributesWithoutStatus =
      if shouldResetNotification C task data then some (.bool false) else none := field_execute hd (by decide)
  have hreset := shouldResetNotification_iff hC hd hs hdue hrule hf
  constructor
  · rw [Task.isSent, hf.notifySent, filled, hmark]
    by_cases hr : shouldResetNotification C task data = true
    · rw [if_pos hr, decide_eq_false (hreset.mp hr), Bool.and_false]
      rfl
    · rw [if_neg hr, decide_eq_true (not_not.mp fun hne => hr (hreset.mpr hne)), Bool.and_true]
      rfl
  · rw [Task.RuleStored, hf.notified, filled, hrule]
    cases hv : field "notified" data.attributes with
    | none => exact hs
    | some v =>
      obtain ⟨s, -, rfl⟩ := hd.notified v hv
      exact .inr ⟨s, rfl⟩

theorem filled_of_updateAttributes {statusChanged : Bool} {freshTask : Task}
    (h : (updateAttributes C payload statusChanged freshTask).Commits freshTask task' model)
    (hdue : freshTask.dueAt = task.dueAt) (hrule : freshTask.notified = task.notified)
    (hmark : freshTask.notifySent = task.notifySent) : task.Filled C payload.attributesWithoutStatus task' := by
  have hnone : payload.attributesWithoutStatus = [] → task'.dueAt = task.dueAt → task'.notified = task.notified →
      task'.notifySent = task.notifySent → task.Filled C payload.attributesWithoutStatus task' := by
    intro hnil hdue' hrule' hmark'
    rw [hnil]
    exact ⟨congrArg some hdue'.symm, hrule', hmark'⟩
  unfold updateAttributes at h
  split at h
  · split at h
    · exact absurd h Body.commits_fail
    · rename_i filledTask hfill
      obtain ⟨t, h⟩ := Body.commits_update.mp h
      obtain ⟨-, rfl⟩ := Body.commits_commit.mp h
      obtain ⟨dueAt, hd, rfl⟩ := Option.map_eq_some_iff.mp hfill
      rw [hdue] at hd
      exact ⟨hd, congrArg (filled "notified" payload.attributesWithoutStatus) hrule,
        congrArg (filled "notify_sent" payload.attributesWithoutStatus) hmark⟩
  · rename_i hnil
    split at h
    · obtain ⟨t, h⟩ := Body.commits_update.mp h
      obtain ⟨-, rfl⟩ := Body.commits_commit.mp h
      exact hnone (not_not.mp hnil) hdue hrule hmark
    · obtain ⟨-, rfl⟩ := Body.commits_commit.mp h
      exact hnone (not_not.mp hnil) hdue hrule hmark

/-- **After an update a task is marked** if it was before and has kept its setting. -/
theorem isSent_of_updateTask (hC : C.Exact instant) (hd : TaskUpdateRequest.Normal data) (hs : task.RuleStored)
    (h : (updateTask C data task).Commits task task' model) :
    task'.isSent = (task.isSent && decide (task'.setting instant = task.setting instant)) ∧ task'.RuleStored := by
  obtain ⟨-, -, h⟩ := commits_onVersion.mp h
  refine isSent_of_filled hC hd hs ?_
  simp only [updateStatus] at h
  split at h
  · exact filled_of_updateAttributes h rfl rfl rfl
  split at h
  · exact absurd h Body.commits_fail
  split at h
  · exact filled_of_updateAttributes h rfl rfl rfl
  · obtain ⟨-, t, h⟩ := HasStateMachine.commits_transitionTo.mp h
    exact filled_of_updateAttributes h rfl rfl rfl

end Versions
end Daywright
