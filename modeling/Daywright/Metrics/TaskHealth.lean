/-
# The task health of a project

`TaskHealthMetricAction` scores a project by three rates: of the tasks completed among
the active, of the overdue among those still open, and of the abandoned among all. They
are computed here over the rationals. Completing a task that is not overdue raises the
first rate, and the second as well, whose denominator shrinks: what it does to the sum is
`health_complete`. So it never lowers the score where the condition of
`complete_and_markOverdue` holds; elsewhere it lowers the weighted sum. One overdue task
more never raises the score.

Key definitions: `execute`, `taskHealth`, `weights`, `complete`, `markOverdue`.
Key theorems: `health_complete`, `complete_and_markOverdue`.
-/
import Mathlib.Algebra.Order.Field.Rat
import Mathlib.Data.Rat.Floor
import Mathlib.Tactic.FieldSimp
import Mathlib.Tactic.Linarith
import Mathlib.Tactic.Positivity

namespace Daywright

/-- `round($x, $precision)`: a half goes away from zero. -/
def Php.round (x : ℚ) (precision : ℕ) : ℚ :=
  let scaled := x * 10 ^ precision
  ((if 0 ≤ scaled then ⌊scaled + 1 / 2⌋ else ⌈scaled - 1 / 2⌉ : ℤ) : ℚ) / 10 ^ precision

theorem Php.round_le_round {x y : ℚ} (h : x ≤ y) (precision : ℕ) : Php.round x precision ≤ Php.round y precision := by
  have hpos : (0 : ℚ) < 10 ^ precision := by positivity
  have hs : x * 10 ^ precision ≤ y * 10 ^ precision := mul_le_mul_of_nonneg_right h hpos.le
  unfold Php.round
  refine div_le_div_of_nonneg_right (Int.cast_le.mpr ?_) hpos.le
  split_ifs with hx hy hy
  · exact Int.floor_le_floor (by linarith)
  · exact absurd (hx.trans hs) hy
  · calc ⌈x * 10 ^ precision - 1 / 2⌉ ≤ 0 := Int.ceil_le.mpr (by push_cast; linarith)
      _ ≤ ⌊y * 10 ^ precision + 1 / 2⌋ := Int.floor_nonneg.mpr (by linarith)
  · exact Int.ceil_le_ceil (by linarith)

/-- The counts loaded with a project; those that are not loaded are null. -/
structure ProjectCounts where
  tasksCount : Option ℤ
  activeTasksCount : Option ℤ
  completedTasksCount : Option ℤ
  overdueTasksCount : Option ℤ
  abandonedTasksCount : Option ℤ
  deriving DecidableEq, Repr

/-- `project-metrics.health.tasks.weights`. -/
structure TaskWeightConfig where
  completion : Option ℚ
  overdue : Option ℚ
  abandonment : Option ℚ

structure TaskWeightConfig.Positive (cfg : TaskWeightConfig) : Prop where
  completion : 0 < cfg.completion.getD 50
  overdue : 0 < cfg.overdue.getD 30
  abandonment : 0 < cfg.abandonment.getD 20

namespace TaskHealthMetricAction

structure Counts where
  total : ℤ
  active : ℤ
  completed : ℤ
  overdue : ℤ
  abandoned : ℤ
  deriving DecidableEq, Repr

structure Weights where
  completion : ℚ
  overdue : ℚ
  abandonment : ℚ

def getCountsFromProject (project : ProjectCounts) : Counts where
  total := project.tasksCount.getD 0
  active := project.activeTasksCount.getD 0
  completed := project.completedTasksCount.getD 0
  overdue := project.overdueTasksCount.getD 0
  abandoned := project.abandonedTasksCount.getD 0

def computeCompletionRate (activeTasks completedCount : ℤ) : ℚ :=
  if activeTasks ≤ 0 then 0 else completedCount / activeTasks * 100

def computeOverdueRate (activeTasks completedCount overdueCount : ℤ) : ℚ :=
  let nonCompletedActive := max 0 (activeTasks - completedCount)
  if nonCompletedActive ≤ 0 then 0 else min 100 (overdueCount / nonCompletedActive * 100)

def computeAbandonmentRate (totalTasks abandonedCount : ℤ) : ℚ :=
  if totalTasks ≤ 0 then 0 else abandonedCount / totalTasks * 100

def weights (cfg : TaskWeightConfig) : Weights :=
  let completion := cfg.completion.getD 50
  let overdue := cfg.overdue.getD 30
  let abandonment := cfg.abandonment.getD 20
  let sum := completion + overdue + abandonment
  if sum ≤ 0 then ⟨1 / 2, 3 / 10, 1 / 5⟩ else ⟨completion / sum, overdue / sum, abandonment / sum⟩

/-- The weighted sum, before it is rounded. -/
def taskHealth (w : Weights) (n : Counts) : ℚ :=
  computeCompletionRate n.active n.completed * w.completion +
    (100 - computeOverdueRate n.active n.completed n.overdue) * w.overdue +
    (100 - computeAbandonmentRate n.total n.abandoned) * w.abandonment

def execute (cfg : TaskWeightConfig) (project : ProjectCounts) : ℚ :=
  let n := getCountsFromProject project
  if n.total = 0 then 0 else max 0 (min 100 (Php.round (taskHealth (weights cfg) n) 1))

/-! ### One task changes -/

/-- One more task is completed. -/
def complete (project : ProjectCounts) : ProjectCounts :=
  { project with completedTasksCount := some (project.completedTasksCount.getD 0 + 1) }

/-- One more task is overdue. -/
def markOverdue (project : ProjectCounts) : ProjectCounts :=
  { project with overdueTasksCount := some (project.overdueTasksCount.getD 0 + 1) }

/-- The counts of a project with an open task that is not overdue. -/
structure HasOpen (n : Counts) : Prop where
  completed_nonneg : 0 ≤ n.completed
  overdue_nonneg : 0 ≤ n.overdue
  abandoned_nonneg : 0 ≤ n.abandoned
  open_task : n.completed + n.overdue < n.active
  total_eq : n.active + n.abandoned = n.total

/-- Completing a task gains at least what its open neighbours lose. -/
def Gains (w : Weights) (n : Counts) : Prop :=
  w.overdue * (n.overdue * n.active) ≤ w.completion * ((n.active - n.completed) * (n.active - n.completed - 1))

variable {cfg : TaskWeightConfig} {w : Weights} {n : Counts} {p : ProjectCounts}

/-- No more tasks are overdue than are open: the cap is not reached. -/
theorem computeOverdueRate_eq {active completed overdue : ℤ} (h : 0 ≤ overdue) (hle : overdue ≤ active - completed) :
    computeOverdueRate active completed overdue = overdue / (active - completed : ℤ) * 100 := by
  unfold computeOverdueRate
  rw [max_eq_right (h.trans hle)]
  dsimp only
  split_ifs with hopen
  · have hzero : overdue = 0 := le_antisymm (hle.trans hopen) h
    rw [hzero, Int.cast_zero, zero_div, zero_mul]
  · have hpos : (0 : ℚ) < (active - completed : ℤ) := Int.cast_pos.mpr (not_le.mp hopen)
    have hone : (overdue : ℚ) / (active - completed : ℤ) ≤ 1 := (div_le_one hpos).mpr (Int.cast_le.mpr hle)
    exact min_eq_right (by linarith)

namespace HasOpen

variable (h : HasOpen n)

include h

theorem active_pos : 0 < n.active := by
  have := h.completed_nonneg
  have := h.overdue_nonneg
  have := h.open_task
  omega

/-- The weighted sum, with the rates written out. -/
theorem taskHealth_eq : taskHealth w n = n.completed / n.active * 100 * w.completion +
    (100 - n.overdue / (n.active - n.completed : ℤ) * 100) * w.overdue +
      (100 - computeAbandonmentRate n.total n.abandoned) * w.abandonment := by
  have hopen : n.overdue ≤ n.active - n.completed := by
    have := h.open_task
    omega
  rw [taskHealth, computeOverdueRate_eq h.overdue_nonneg hopen, computeCompletionRate, if_neg (not_le.mpr h.active_pos)]

/-- The same after one of the open tasks is completed. -/
theorem taskHealth_completed : taskHealth w { n with completed := n.completed + 1 } =
    (n.completed + 1) / n.active * 100 * w.completion +
    (100 - n.overdue / (n.active - n.completed - 1 : ℤ) * 100) * w.overdue +
      (100 - computeAbandonmentRate n.total n.abandoned) * w.abandonment := by
  have hopen : n.overdue ≤ n.active - (n.completed + 1) := by
    have := h.open_task
    omega
  rw [taskHealth, computeOverdueRate_eq h.overdue_nonneg hopen, computeCompletionRate, if_neg (not_le.mpr h.active_pos),
    Int.cast_add, Int.cast_one, sub_add_eq_sub_sub]

end HasOpen

/-- Of `k + 1` open tasks, one is completed: the gain of the first rate against the loss
of the second. -/
theorem gain_le_iff {wc wo a c o k : ℚ} (ha : 0 < a) (hk : 0 < k) :
    c / a * 100 * wc + (100 - o / (k + 1) * 100) * wo ≤ (c + 1) / a * 100 * wc + (100 - o / k * 100) * wo ↔
      wo * (o * a) ≤ wc * ((k + 1) * k) := by
  have hk1 : k + 1 ≠ 0 := by positivity
  have hdiff : (c + 1) / a * 100 * wc + (100 - o / k * 100) * wo -
      (c / a * 100 * wc + (100 - o / (k + 1) * 100) * wo) =
      100 / (a * ((k + 1) * k)) * (wc * ((k + 1) * k) - wo * (o * a)) := by
    have ha' : a ≠ 0 := ha.ne'
    have hk' : k ≠ 0 := hk.ne'
    field_simp
    ring
  have hfactor : 0 < 100 / (a * ((k + 1) * k)) := by positivity
  rw [← sub_nonneg, hdiff, mul_nonneg_iff_of_pos_left hfactor, sub_nonneg]

/-- **What completing a task does to the weighted sum.** -/
theorem health_complete (h : HasOpen n) (hw : 0 ≤ w.completion) :
    taskHealth w n ≤ taskHealth w { n with completed := n.completed + 1 } ↔ Gains w n := by
  have ha : (0 : ℚ) < n.active := Int.cast_pos.mpr h.active_pos
  obtain ⟨k, hk⟩ : ∃ k, k = n.active - n.completed - 1 := ⟨_, rfl⟩
  have hopen : n.active - n.completed = k + 1 := by omega
  have hcast : (n.active : ℚ) - n.completed = k + 1 := by exact_mod_cast hopen
  have hle : n.overdue ≤ k := by
    have := h.open_task
    omega
  rw [h.taskHealth_eq, h.taskHealth_completed, Gains, add_le_add_iff_right, hopen, hcast, add_sub_cancel_right,
    add_sub_cancel_right]
  rcases (h.overdue_nonneg.trans hle).eq_or_lt with hzero | hpos
  · -- it was the last open task, and none is overdue
    have hnone : n.overdue = 0 := le_antisymm (hzero ▸ hle) h.overdue_nonneg
    have hgain : (0 : ℚ) ≤ w.completion / n.active := div_nonneg hw ha.le
    rw [hnone, ← hzero]
    simp only [Int.cast_zero, zero_div, zero_mul, mul_zero, le_refl, iff_true, add_div, add_mul]
    have : 1 / (n.active : ℚ) * 100 * w.completion = 100 * (w.completion / n.active) := by ring
    linarith
  · push_cast
    exact gain_le_iff ha (Int.cast_pos.mpr hpos)

/-- One overdue task more never raises the weighted sum. -/
theorem health_markOverdue (h : HasOpen n) (hw : 0 ≤ w.overdue) :
    taskHealth w { n with overdue := n.overdue + 1 } ≤ taskHealth w n := by
  have hle : n.overdue + 1 ≤ n.active - n.completed := by
    have := h.open_task
    omega
  have hk : (0 : ℚ) ≤ (n.active - n.completed : ℤ) := by
    have := h.overdue_nonneg
    exact_mod_cast (by omega : 0 ≤ n.active - n.completed)
  have hrate : computeOverdueRate n.active n.completed n.overdue ≤
      computeOverdueRate n.active n.completed (n.overdue + 1) := by
    rw [computeOverdueRate_eq h.overdue_nonneg (by omega), computeOverdueRate_eq (by have := h.overdue_nonneg; omega) hle]
    have hdiv : (n.overdue : ℚ) / (n.active - n.completed : ℤ) ≤ (n.overdue + 1 : ℤ) / (n.active - n.completed : ℤ) :=
      div_le_div_of_nonneg_right (Int.cast_le.mpr (by omega)) hk
    linarith
  have hterm : (100 - computeOverdueRate n.active n.completed (n.overdue + 1)) * w.overdue ≤
      (100 - computeOverdueRate n.active n.completed n.overdue) * w.overdue :=
    mul_le_mul_of_nonneg_right (by linarith) hw
  simp only [taskHealth]
  linarith

/-! ### The score -/

/-- The score goes with the weighted sum. -/
theorem execute_le_execute {p' : ProjectCounts} (ht : (getCountsFromProject p').total = (getCountsFromProject p).total)
    (h : taskHealth (weights cfg) (getCountsFromProject p) ≤ taskHealth (weights cfg) (getCountsFromProject p')) :
    execute cfg p ≤ execute cfg p' := by
  simp only [execute, ht]
  split
  · exact le_refl _
  · exact max_le_max_left 0 (min_le_min_left 100 (Php.round_le_round h 1))

theorem weights_of_positive (h : cfg.Positive) : 0 < (weights cfg).completion ∧ 0 < (weights cfg).overdue := by
  obtain ⟨hc, ho, ha⟩ := h
  have hsum : 0 < cfg.completion.getD 50 + cfg.overdue.getD 30 + cfg.abandonment.getD 20 := by linarith
  simp only [weights, if_neg (not_le.mpr hsum)]
  exact ⟨div_pos hc hsum, div_pos ho hsum⟩

/-- **Completing a task** that is not overdue lowers the weighted sum exactly if its gain
does not make up for the fewer open tasks; if it does, the score is not lowered either.
**One overdue task more** never raises the score. -/
theorem complete_and_markOverdue (hw : cfg.Positive) (h : HasOpen (getCountsFromProject p)) :
    (taskHealth (weights cfg) (getCountsFromProject p) ≤ taskHealth (weights cfg) (getCountsFromProject (complete p)) ↔
      Gains (weights cfg) (getCountsFromProject p)) ∧
    (Gains (weights cfg) (getCountsFromProject p) → execute cfg p ≤ execute cfg (complete p)) ∧
    execute cfg (markOverdue p) ≤ execute cfg p := by
  obtain ⟨hc, ho⟩ := weights_of_positive hw
  have hhealth := health_complete h hc.le
  refine ⟨hhealth, fun hg => ?_, ?_⟩
  · exact execute_le_execute rfl (hhealth.mpr hg)
  · exact execute_le_execute rfl (health_markOverdue h ho.le)

/-! ### The default weights -/

namespace Sample

def defaults : TaskWeightConfig := ⟨some 50, some 30, some 20⟩

theorem defaults_positive : defaults.Positive := ⟨by norm_num [defaults], by norm_num [defaults], by norm_num [defaults]⟩

/-- Ten active tasks, five of them completed and one overdue. -/
def early : ProjectCounts := ⟨some 10, some 10, some 5, some 1, some 0⟩

/-- Ten active tasks, seven of them completed and two overdue. -/
def late : ProjectCounts := ⟨some 10, some 10, some 7, some 2, some 0⟩

end Sample

theorem complete_and_markOverdue_early :
    execute Sample.defaults Sample.early ≤ execute Sample.defaults (complete Sample.early) := by
  have h : HasOpen (getCountsFromProject Sample.early) := ⟨by decide, by decide, by decide, by decide, by decide⟩
  refine (complete_and_markOverdue Sample.defaults_positive h).2.1 ?_
  norm_num [Gains, weights, Sample.defaults, getCountsFromProject, Sample.early]

/-- With the last task done that is not overdue, all open tasks are overdue: 65 becomes 60. -/
theorem late_complete_lowers : HasOpen (getCountsFromProject Sample.late) ∧ Sample.defaults.Positive ∧
    execute Sample.defaults (complete Sample.late) < execute Sample.defaults Sample.late := by
  refine ⟨⟨by decide, by decide, by decide, by decide, by decide⟩, Sample.defaults_positive, ?_⟩
  decide +kernel

end TaskHealthMetricAction
end Daywright
