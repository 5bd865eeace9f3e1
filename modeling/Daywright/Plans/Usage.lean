/-
# How usage grows

What a limit counts is the usage of a scope: the projects of a user, or the tasks or the
members of a project. A write grows the usage of the scope whose row its transaction has
locked, by one, and no other (`write_usage`); a new project has the starter tasks, of
which there are fewer than any plan allows. Of the statements only the restoring of an
archived project grows any usage (`statement_usage`).

Key definitions: `Scope`, `Data.WellFormed`, `Later`, `Grows`, `Restores`.
Key theorems: `write_usage`, `statement_usage`.
-/
import Mathlib.Data.List.Count
import Daywright.Plans.Service

namespace Daywright
namespace Plans

open Guard Php

/-- What a limit is a limit of. -/
inductive Scope where
  | projects (user : ℕ)
  | tasks (project : ℕ)
  | members (project : ℕ)
  deriving DecidableEq, Repr

def Scope.type : Scope → PlanLimitType
  | .projects _ => .Projects
  | .tasks _ => .TasksPerProject
  | .members _ => .MembersPerProject

/-- The row under whose lock its usage is counted. -/
def Scope.row : Scope → Row
  | .projects user => .user user
  | .tasks project | .members project => .project project

/-- Its project has been created. -/
def Scope.In (d : Data) : Scope → Prop
  | .projects _ => True
  | .tasks project | .members project => project < d.nextProject

/-- The user whose plan limits it. -/
def Scope.Owns (d : Data) (user : ℕ) : Scope → Prop
  | .projects u => u = user
  | .tasks project | .members project => ∃ p ∈ d.projects, p.id = project ∧ p.userId = user

def usage (E : Env) (d : Data) : Scope → ℕ
  | .projects user => d.projectsCount user
  | .tasks project => d.activeTasksCount project
  | .members project => d.activeMembersCount E project

/-- Keys are unique, and name what has been created. -/
structure Data.WellFormed (d : Data) : Prop where
  projects : (d.projects.map Project.id).Nodup
  projectIds : ∀ p ∈ d.projects, p.id < d.nextProject
  tasks : (d.tasks.map Task.id).Nodup
  taskIds : ∀ t ∈ d.tasks, t.id < d.nextTask
  taskProjects : ∀ t ∈ d.tasks, t.projectId < d.nextProject
  members : (d.members.map fun m => (m.projectId, m.userId)).Nodup
  memberProjects : ∀ m ∈ d.members, m.projectId < d.nextProject

/-- What no step takes back: keys are not used again, a project keeps its owner and a
task its project. -/
structure Later (d d' : Data) : Prop where
  projectIds : d.nextProject ≤ d'.nextProject
  taskIds : d.nextTask ≤ d'.nextTask
  owner : ∀ p' ∈ d'.projects, p'.id < d.nextProject → ∃ p ∈ d.projects, p.id = p'.id ∧ p.userId = p'.userId
  project : ∀ t' ∈ d'.tasks, t'.id < d.nextTask → ∃ t ∈ d.tasks, t.id = t'.id ∧ t.projectId = t'.projectId

/-- The task, if it is still there, is of the project. -/
def InProject (d : Data) (task project : ℕ) : Prop :=
  task < d.nextTask ∧ ∀ t ∈ d.tasks, t.id = task → t.projectId = project

/-- The scope whose usage a write may grow. -/
def Grows (d : Data) : Write → Scope → Prop
  | .nothing, _ => True
  | .createProject user tasks, l => l = .projects user ∧ tasks.length ≤ 3
  | .createTask project _, l => l = .tasks project ∧ project < d.nextProject
  | .restoreTask task, l => ∃ project, l = .tasks project ∧ InProject d task project
  | .invite project _, l => l = .members project ∧ project < d.nextProject
  | .activate project _, l => l = .members project

/-- The statement makes an archived project of the user live again. -/
def Restores (d : Data) (f : Statement) (user : ℕ) : Prop :=
  ∃ p ∈ d.projects, f = .restoreProject p.id ∧ p.userId = user ∧ p.trashed = true

section Later

variable {d d' : Data} {l : Scope} {user task project : ℕ}

theorem Later.refl (d : Data) : Later d d where
  projectIds := Nat.le_refl _
  taskIds := Nat.le_refl _
  owner p hp _ := ⟨p, hp, rfl, rfl⟩
  project t ht _ := ⟨t, ht, rfl, rfl⟩

theorem Later.inProject (h : Later d d') (ht : InProject d task project) : InProject d' task project := by
  refine ⟨Nat.lt_of_lt_of_le ht.1 h.taskIds, fun t' hmem hid => ?_⟩
  obtain ⟨t, htm, hti, htp⟩ := h.project t' hmem (hid ▸ ht.1)
  rw [← htp]
  exact ht.2 t htm (hti.trans hid)

theorem Later.owns (h : Later d d') (hl : l.In d) (ho : l.Owns d' user) : l.Owns d user := by
  cases l with
  | projects => exact ho
  | _ =>
    obtain ⟨p', hp', rfl, rfl⟩ := ho
    exact h.owner p' hp' hl

theorem Later.grows {w : Write} (h : Later d d') (hg : Grows d w l) : Grows d' w l := by
  cases w with
  | nothing | createProject | activate => exact hg
  | createTask | invite => exact ⟨hg.1, Nat.lt_of_lt_of_le hg.2 h.projectIds⟩
  | restoreTask =>
    obtain ⟨project, hl, ht⟩ := hg
    exact ⟨project, hl, h.inProject ht⟩

end Later

/-! ### What each operation does -/

variable {E : Env} {d : Data}

/-- Nothing is counted for a project that has not been created. -/
theorem usage_not_in (hw : d.WellFormed) {l : Scope} (hl : ¬ l.In d) : usage E d l = 0 := by
  cases l with
  | projects => exact absurd trivial hl
  | tasks project =>
    refine List.countP_eq_zero.mpr fun t ht h => hl ?_
    simp only [Bool.and_eq_true, beq_iff_eq] at h
    exact h.1 ▸ hw.taskProjects t ht
  | members project =>
    refine List.countP_eq_zero.mpr fun m hm h => hl ?_
    simp only [Bool.and_eq_true, beq_iff_eq] at h
    exact h.1.1 ▸ hw.memberProjects m hm

section AddTasks

variable {project : ℕ} {tasks : List (List (String × Value))}

theorem mem_addTasks {t : Task} : t ∈ (d.addTasks project tasks).tasks ↔
    t ∈ d.tasks ∨ ∃ i, ∃ h : i < tasks.length, ⟨d.nextTask + i, project, tasks[i], false⟩ = t := by
  simp [Data.addTasks, List.mem_mapIdx]

theorem addTasks_wellFormed (hw : d.WellFormed) (hp : project < d.nextProject) :
    (d.addTasks project tasks).WellFormed where
  projects := hw.projects
  projectIds := hw.projectIds
  tasks := by
    simp only [Data.addTasks, List.map_append, List.nodup_append]
    refine ⟨hw.tasks, ?_, ?_⟩
    · refine List.nodup_iff_injective_getElem.mpr fun i j hij => ?_
      simp only [List.getElem_map, List.getElem_mapIdx, Nat.add_left_cancel_iff] at hij
      exact Fin.ext hij
    · rintro a ha b hb rfl
      obtain ⟨t, ht, rfl⟩ := List.mem_map.mp ha
      obtain ⟨t', ht', he⟩ := List.mem_map.mp hb
      obtain ⟨i, hi, rfl⟩ := List.mem_mapIdx.mp ht'
      have := hw.taskIds t ht
      simp only at he
      omega
  taskIds t ht := by
    rcases mem_addTasks.mp ht with ht | ⟨i, hi, rfl⟩
    · exact Nat.lt_add_right _ (hw.taskIds t ht)
    · exact Nat.add_lt_add_left hi _
  taskProjects t ht := by
    rcases mem_addTasks.mp ht with ht | ⟨i, hi, rfl⟩
    · exact hw.taskProjects t ht
    · exact hp
  members := hw.members
  memberProjects := hw.memberProjects

theorem addTasks_later : Later d (d.addTasks project tasks) where
  projectIds := Nat.le_refl _
  taskIds := Nat.le_add_right _ _
  owner p hp _ := ⟨p, hp, rfl, rfl⟩
  project t ht hlt := by
    rcases mem_addTasks.mp ht with ht | ⟨i, hi, rfl⟩
    · exact ⟨t, ht, rfl, rfl⟩
    · exact absurd hlt (Nat.not_lt.mpr (Nat.le_add_right _ _))

theorem usage_addTasks (l : Scope) : usage E (d.addTasks project tasks) l =
    usage E d l + if l = .tasks project then tasks.length else 0 := by
  cases l with
  | projects | members => simp [usage, Data.addTasks, Data.projectsCount, Data.activeMembersCount]
  | tasks project' =>
    simp only [usage, Data.addTasks, Data.activeTasksCount, List.countP_append, Scope.tasks.injEq,
      Nat.add_left_cancel_iff]
    split
    · rename_i h
      rw [List.countP_eq_length.mpr, List.length_mapIdx]
      rintro t ht
      obtain ⟨i, hi, rfl⟩ := List.mem_mapIdx.mp ht
      simp [h]
    · rename_i h
      refine List.countP_eq_zero.mpr fun t ht => ?_
      obtain ⟨i, hi, rfl⟩ := List.mem_mapIdx.mp ht
      simp [Ne.symm h]

end AddTasks

/-- Rows are changed or lost, but none is added, and no key is changed. -/
structure Shrinks (d d' : Data) : Prop where
  projects : (d'.projects.map fun p => (p.id, p.userId)).Sublist (d.projects.map fun p => (p.id, p.userId))
  tasks : (d'.tasks.map fun t => (t.id, t.projectId)).Sublist (d.tasks.map fun t => (t.id, t.projectId))
  members : (d'.members.map fun m => (m.projectId, m.userId)).Sublist (d.members.map fun m => (m.projectId, m.userId))
  nextProject : d'.nextProject = d.nextProject
  nextTask : d'.nextTask = d.nextTask

namespace Shrinks

variable {d' : Data}

theorem project (h : Shrinks d d') {p' : Project} (hp : p' ∈ d'.projects) :
    ∃ p ∈ d.projects, p.id = p'.id ∧ p.userId = p'.userId := by
  obtain ⟨p, hp, he⟩ := List.mem_map.mp (h.projects.subset (List.mem_map_of_mem hp))
  exact ⟨p, hp, (Prod.mk.injEq .. ▸ he).1, (Prod.mk.injEq .. ▸ he).2⟩

theorem task (h : Shrinks d d') {t' : Task} (ht : t' ∈ d'.tasks) :
    ∃ t ∈ d.tasks, t.id = t'.id ∧ t.projectId = t'.projectId := by
  obtain ⟨t, ht, he⟩ := List.mem_map.mp (h.tasks.subset (List.mem_map_of_mem ht))
  exact ⟨t, ht, (Prod.mk.injEq .. ▸ he).1, (Prod.mk.injEq .. ▸ he).2⟩

theorem member (h : Shrinks d d') {m' : Member} (hm : m' ∈ d'.members) :
    ∃ m ∈ d.members, m.projectId = m'.projectId := by
  obtain ⟨m, hm, he⟩ := List.mem_map.mp (h.members.subset (List.mem_map_of_mem hm))
  exact ⟨m, hm, (Prod.mk.injEq .. ▸ he).1⟩

theorem wellFormed (h : Shrinks d d') (hw : d.WellFormed) : d'.WellFormed where
  projects := by
    have hs := (h.projects.map Prod.fst).nodup
    simp only [List.map_map] at hs
    exact hs hw.projects
  projectIds p' hp' := by
    obtain ⟨p, hp, hid, -⟩ := h.project hp'
    rw [h.nextProject, ← hid]
    exact hw.projectIds p hp
  tasks := by
    have hs := (h.tasks.map Prod.fst).nodup
    simp only [List.map_map] at hs
    exact hs hw.tasks
  taskIds t' ht' := by
    obtain ⟨t, ht, hid, -⟩ := h.task ht'
    rw [h.nextTask, ← hid]
    exact hw.taskIds t ht
  taskProjects t' ht' := by
    obtain ⟨t, ht, -, hp⟩ := h.task ht'
    rw [h.nextProject, ← hp]
    exact hw.taskProjects t ht
  members := h.members.nodup hw.members
  memberProjects m' hm' := by
    obtain ⟨m, hm, hp⟩ := h.member hm'
    rw [h.nextProject, ← hp]
    exact hw.memberProjects m hm

theorem later (h : Shrinks d d') : Later d d' where
  projectIds := h.nextProject.ge
  taskIds := h.nextTask.ge
  owner _ hp _ := h.project hp
  project _ ht _ := h.task ht

end Shrinks

section Changes

variable {project task user : ℕ} {b : Bool} {l : Scope}

theorem setProject_shrinks : Shrinks d (d.setProject project b) where
  projects := by
    have h : (d.setProject project b).projects.map (fun p => (p.id, p.userId)) =
        d.projects.map fun p => (p.id, p.userId) :=
      Table.map_updateWhere fun _ => rfl
    rw [h]
  tasks := .refl _
  members := .refl _
  nextProject := rfl
  nextTask := rfl

theorem setTask_shrinks : Shrinks d (d.setTask task b) where
  projects := .refl _
  tasks := by
    have h : (d.setTask task b).tasks.map (fun t => (t.id, t.projectId)) = d.tasks.map fun t => (t.id, t.projectId) :=
      Table.map_updateWhere fun _ => rfl
    rw [h]
  members := .refl _
  nextProject := rfl
  nextTask := rfl

theorem activate_shrinks : Shrinks d (d.activate project user) where
  projects := .refl _
  tasks := .refl _
  members := by
    have h : (d.activate project user).members.map (fun m => (m.projectId, m.userId)) =
        d.members.map fun m => (m.projectId, m.userId) :=
      Table.map_updateWhere fun _ => rfl
    rw [h]
  nextProject := rfl
  nextTask := rfl

theorem removeProject_shrinks : Shrinks d (d.removeProject project) where
  projects := List.filter_sublist.map _
  tasks := List.filter_sublist.map _
  members := List.filter_sublist.map _
  nextProject := rfl
  nextTask := rfl

theorem removeTask_shrinks : Shrinks d (d.removeTask task) where
  projects := .refl _
  tasks := List.filter_sublist.map _
  members := .refl _
  nextProject := rfl
  nextTask := rfl

theorem detach_shrinks : Shrinks d (d.detach project user) where
  projects := .refl _
  tasks := .refl _
  members := List.filter_sublist.map _
  nextProject := rfl
  nextTask := rfl

/-- Removing rows grows nothing. -/
theorem usage_le_of_sublist {d' : Data} (hp : d'.projects.Sublist d.projects) (ht : d'.tasks.Sublist d.tasks)
    (hm : d'.members.Sublist d.members) : usage E d' l ≤ usage E d l := by
  cases l with
  | projects => exact hp.countP_le
  | tasks => exact ht.countP_le
  | members => exact hm.countP_le

theorem usage_archiveProject : usage E (d.setProject project true) l ≤ usage E d l := by
  cases l with
  | projects => exact Table.countP_updateWhere_le fun _ _ _ h => by simp at h
  | _ => exact Nat.le_refl _

/-- One project is restored, and only if it is archived and the user's does their number grow. -/
theorem usage_restoreProject (h : ∀ user, l = .projects user → ¬ Restores d (.restoreProject project) user) :
    usage E (d.setProject project false) l ≤ usage E d l := by
  cases l with
  | projects user =>
    refine Table.countP_updateWhere_le fun p hp hid hq => ?_
    simp only [Bool.not_false, Bool.and_true, beq_iff_eq] at hid hq
    have : p.trashed ≠ true := fun ht => h user rfl ⟨p, hp, hid ▸ rfl, hq, ht⟩
    simp [hq, this]
  | _ => exact Nat.le_refl _

theorem usage_restoreProject_succ (hw : d.WellFormed) :
    usage E (d.setProject project false) l ≤ usage E d l + 1 := by
  cases l with
  | projects user =>
    refine Table.countP_updateWhere_add_le.trans (Nat.add_le_add_left ?_ _)
    refine Table.countP_le_one hw.projects fun p _ p' _ hp hp' => ?_
    exact (beq_iff_eq.mp hp).trans (beq_iff_eq.mp hp').symm
  | _ => exact Nat.le_succ _

theorem usage_archiveTask : usage E (d.setTask task true) l ≤ usage E d l := by
  cases l with
  | tasks => exact Table.countP_updateWhere_le fun _ _ _ h => by simp at h
  | _ => exact Nat.le_refl _

theorem usage_restoreTask (hw : d.WellFormed) (h : InProject d task project) :
    usage E (d.setTask task false) l ≤ usage E d l + if l = .tasks project then 1 else 0 := by
  cases l with
  | tasks project' =>
    by_cases hp : project' = project
    · rw [if_pos (hp ▸ rfl)]
      refine Table.countP_updateWhere_add_le.trans (Nat.add_le_add_left ?_ _)
      refine Table.countP_le_one hw.tasks fun t _ t' _ ht ht' => ?_
      exact (beq_iff_eq.mp ht).trans (beq_iff_eq.mp ht').symm
    · refine Nat.le_add_right_of_le (Table.countP_updateWhere_le fun t ht hid hq => ?_)
      simp only [Bool.not_false, Bool.and_true, beq_iff_eq] at hid hq
      exact absurd (hq.symm.trans (h.2 t ht hid)) hp
  | _ => exact Nat.le_add_right _ _

theorem usage_activate (hw : d.WellFormed) :
    usage E (d.activate project user) l ≤ usage E d l + if l = .members project then 1 else 0 := by
  cases l with
  | members project' =>
    by_cases hp : project' = project
    · rw [if_pos (hp ▸ rfl)]
      refine Table.countP_updateWhere_add_le.trans (Nat.add_le_add_left ?_ _)
      refine Table.countP_le_one hw.members fun m _ m' _ hm hm' => ?_
      simp only [Bool.and_eq_true, beq_iff_eq] at hm hm'
      rw [hm.1, hm.2, hm'.1, hm'.2]
    · refine Nat.le_add_right_of_le (Table.countP_updateWhere_le fun m _ hid hq => ?_)
      simp only [Bool.and_eq_true, beq_iff_eq] at hid hq
      exact absurd (hq.1.1.symm.trans hid.1) hp
  | _ => exact Nat.le_add_right _ _

end Changes

section Additions

variable {project user : ℕ} {l : Scope}

theorem addProject_wellFormed (hw : d.WellFormed) : (d.addProject user).WellFormed where
  projects := by
    simp only [Data.addProject, List.map_append, List.map_cons, List.map_nil]
    refine List.nodup_append.mpr ⟨hw.projects, List.nodup_singleton _, ?_⟩
    rintro a ha b hb rfl
    obtain ⟨p, hp, rfl⟩ := List.mem_map.mp ha
    exact Nat.ne_of_lt (hw.projectIds p hp) (List.mem_singleton.mp hb)
  projectIds p hp := by
    rcases List.mem_append.mp hp with hp | hp
    · exact Nat.lt_succ_of_lt (hw.projectIds p hp)
    · rw [List.mem_singleton.mp hp]
      exact Nat.lt_succ_self _
  tasks := hw.tasks
  taskIds := hw.taskIds
  taskProjects t ht := Nat.lt_succ_of_lt (hw.taskProjects t ht)
  members := hw.members
  memberProjects m hm := Nat.lt_succ_of_lt (hw.memberProjects m hm)

theorem addProject_later : Later d (d.addProject user) where
  projectIds := Nat.le_succ _
  taskIds := Nat.le_refl _
  owner p hp hlt := by
    rcases List.mem_append.mp hp with hp | hp
    · exact ⟨p, hp, rfl, rfl⟩
    · rw [List.mem_singleton.mp hp] at hlt
      exact absurd hlt (Nat.lt_irrefl _)
  project t ht _ := ⟨t, ht, rfl, rfl⟩

theorem usage_addProject : usage E (d.addProject user) l = usage E d l + if l = .projects user then 1 else 0 := by
  cases l with
  | projects user' =>
    simp only [usage, Data.addProject, Data.projectsCount, List.countP_append, List.countP_singleton, Bool.not_false,
      Bool.and_true, beq_iff_eq, Scope.projects.injEq, eq_comm (a := user')]
  | _ => simp [usage, Data.addProject, Data.activeTasksCount, Data.activeMembersCount]

/-- A member is not there twice. -/
theorem invite_wellFormed (hw : d.WellFormed) (hp : project < d.nextProject) : (d.invite project user).WellFormed := by
  unfold Data.invite
  split
  · refine Shrinks.wellFormed (d := d) ⟨.refl _, .refl _, ?_, rfl, rfl⟩ hw
    have h : ∀ rows : List Member, (Table.updateWhere (fun m => m.projectId == project && m.userId == user)
        (fun m => { m with active := false }) rows).map (fun m => (m.projectId, m.userId)) =
          rows.map fun m => (m.projectId, m.userId) := fun _ => Table.map_updateWhere fun _ => rfl
    simp only [h, List.Sublist.refl]
  · rename_i hnew
    refine { hw with members := ?_, memberProjects := fun m hm => ?_ }
    · simp only [List.map_append, List.map_cons, List.map_nil]
      refine List.nodup_append.mpr ⟨hw.members, List.nodup_singleton _, ?_⟩
      rintro a ha b hb rfl
      obtain ⟨m, hm, he⟩ := List.mem_map.mp ha
      rw [List.mem_singleton] at hb
      simp only [hb, Prod.mk.injEq] at he
      exact hnew (List.any_eq_true.mpr ⟨m, hm, by simp [he.1, he.2]⟩)
    · rcases List.mem_append.mp hm with hm | hm
      · exact hw.memberProjects m hm
      · rw [List.mem_singleton.mp hm]
        exact hp

theorem invite_later : Later d (d.invite project user) := by
  unfold Data.invite
  split <;> exact { Later.refl d with }

theorem usage_invite : usage E (d.invite project user) l ≤ usage E d l := by
  unfold Data.invite
  cases l with
  | members =>
    split
    · exact Table.countP_updateWhere_le fun _ _ _ h => by simp at h
    · simp [usage, Data.activeMembersCount]
  | _ => split <;> exact Nat.le_refl _

end Additions

/-! ### Writes and statements -/

variable {l l' : Scope} {w : Write} {f : Statement}

theorem write_wellFormed (hw : d.WellFormed) (h : Grows d w l) : (write d w).WellFormed := by
  cases w with
  | nothing => exact hw
  | createProject user tasks => exact addTasks_wellFormed (addProject_wellFormed hw) (Nat.lt_succ_self _)
  | createTask project attributes => exact addTasks_wellFormed hw h.2
  | restoreTask task => exact setTask_shrinks.wellFormed hw
  | invite project user => exact invite_wellFormed hw h.2
  | activate project user => exact activate_shrinks.wellFormed hw

theorem Later.trans {d' d'' : Data} (h : Later d d') (h' : Later d' d'') : Later d d'' where
  projectIds := h.projectIds.trans h'.projectIds
  taskIds := h.taskIds.trans h'.taskIds
  owner p'' hp'' hlt := by
    obtain ⟨p', hp', hid, hu⟩ := h'.owner p'' hp'' (Nat.lt_of_lt_of_le hlt h.projectIds)
    obtain ⟨p, hp, hid', hu'⟩ := h.owner p' hp' (hid ▸ hlt)
    exact ⟨p, hp, hid'.trans hid, hu'.trans hu⟩
  project t'' ht'' hlt := by
    obtain ⟨t', ht', hid, hp⟩ := h'.project t'' ht'' (Nat.lt_of_lt_of_le hlt h.taskIds)
    obtain ⟨t, ht, hid', hp'⟩ := h.project t' ht' (hid ▸ hlt)
    exact ⟨t, ht, hid'.trans hid, hp'.trans hp⟩

theorem write_later : Later d (write d w) := by
  cases w with
  | nothing => exact .refl d
  | createProject user tasks => exact addProject_later.trans addTasks_later
  | createTask project attributes => exact addTasks_later
  | restoreTask task => exact setTask_shrinks.later
  | invite project user => exact invite_later
  | activate project user => exact activate_shrinks.later

/-- A write grows the usage of its own scope, by one. -/
theorem write_usage (hw : d.WellFormed) (h : Grows d w l) (hl' : l'.In d) :
    usage E (write d w) l' ≤ usage E d l' + if l' = l then 1 else 0 := by
  cases w with
  | nothing => exact Nat.le_add_right _ _
  | createProject user tasks =>
    obtain ⟨rfl, -⟩ := h
    have hnew : l' ≠ .tasks d.nextProject := fun he => Nat.lt_irrefl _ (he ▸ hl' : Scope.In d (.tasks d.nextProject))
    rw [write, usage_addTasks, if_neg hnew, usage_addProject]
    exact Nat.le_refl _
  | createTask project attributes =>
    rw [write, usage_addTasks, h.1]
    exact Nat.le_refl _
  | restoreTask task =>
    obtain ⟨project, rfl, ht⟩ := h
    exact usage_restoreTask hw ht
  | invite project user => exact Nat.le_add_right_of_le usage_invite
  | activate project user =>
    rw [show l = _ from h]
    exact usage_activate hw

/-- A new project has its starter tasks. -/
theorem write_usage_new (hw : d.WellFormed) (h : Grows d w l) (hl' : ¬ l'.In d) : usage E (write d w) l' ≤ 3 := by
  have hzero := usage_not_in (E := E) hw hl'
  have hl : l.In d → l' ≠ l := fun hl he => hl' (he ▸ hl)
  cases w with
  | nothing => rw [write, hzero]; omega
  | createProject user tasks =>
    obtain ⟨rfl, hlen⟩ := h
    rw [write, usage_addTasks, usage_addProject, hzero, if_neg (hl trivial)]
    split <;> omega
  | createTask project attributes =>
    rw [write, usage_addTasks, hzero, if_neg (h.1 ▸ hl (h.1 ▸ h.2))]
    omega
  | restoreTask task =>
    obtain ⟨project, rfl, ht⟩ := h
    refine (usage_restoreTask hw ht).trans ?_
    rw [hzero]
    split <;> omega
  | invite project user =>
    refine usage_invite.trans ?_
    rw [hzero]
    omega
  | activate project user =>
    refine (usage_activate hw).trans ?_
    rw [hzero]
    split <;> omega

theorem statement_shrinks : Shrinks d (statement d f) := by
  cases f with
  | deleteProject | restoreProject => exact setProject_shrinks
  | forceDeleteProject => exact removeProject_shrinks
  | archiveTask => exact setTask_shrinks
  | deleteTask => exact removeTask_shrinks
  | detach => exact detach_shrinks

/-- A statement grows no usage, unless it restores a project. -/
theorem statement_usage (h : ∀ user, l = .projects user → ¬ Restores d f user) :
    usage E (statement d f) l ≤ usage E d l := by
  cases f with
  | deleteProject => exact usage_archiveProject
  | restoreProject project => exact usage_restoreProject h
  | forceDeleteProject => exact usage_le_of_sublist List.filter_sublist List.filter_sublist List.filter_sublist
  | archiveTask => exact usage_archiveTask
  | deleteTask => exact usage_le_of_sublist (.refl _) List.filter_sublist (.refl _)
  | detach => exact usage_le_of_sublist (.refl _) (.refl _) List.filter_sublist

/-- It then grows it by one. -/
theorem statement_usage_succ (hw : d.WellFormed) : usage E (statement d f) l ≤ usage E d l + 1 := by
  cases f with
  | restoreProject project => exact usage_restoreProject_succ hw
  | _ =>
    refine Nat.le_succ_of_le (statement_usage ?_)
    rintro _ _ ⟨p, -, h, -⟩
    cases h

end Plans
end Daywright
