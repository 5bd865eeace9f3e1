/-
# The life of a project and of a task

Besides its updates, a project is abandoned and restored, a task archived and
unarchived, by requests that know nothing of its version. However all of these
interleave, the stage of a project and the status of a task move only as
`validTransitions` says, by a request that asked for the new state, carried the version
it found and found the row not trashed; a completed project and a completed or
cancelled task stay so (`states_of_run`).

From its creation on, a project that has a reason is postponed. That a postponed one has
a reason holds of every run exactly if the table of stages calls that stage `Postponed`
(`postponed_iff_reason`): by this name, and not by the number of the stage, the request
for it is checked.

Key definitions: `Leads`, `createProject`, `projectEvents`, `taskEvents`.
Key theorems: `states_of_run`, `postponed_iff_reason`.
-/
import Daywright.States
import Daywright.Versions.LostUpdate
import Daywright.Versions.StageRequest

namespace Daywright
namespace Versions

open Interleave Transaction Php Relation

/-- A state is among those that the current one leads to. -/
def Leads (validTransitions : List (ℤ × List ℤ)) (current next : Option ℤ) : Prop :=
  ∃ v, next = some v ∧ v ∈ HasStateMachine.allowed validTransitions current

instance (validTransitions : List (ℤ × List ℤ)) (current next : Option ℤ) :
    Decidable (Leads validTransitions current next) :=
  match next with
  | none => isFalse (by rintro ⟨v, h, -⟩; cases h)
  | some v => decidable_of_iff (v ∈ HasStateMachine.allowed validTransitions current)
      ⟨fun h => ⟨v, rfl, h⟩, by rintro ⟨v, h, hmem⟩; cases h; exact hmem⟩

/-- What leads to a state has an entry in which it stands. -/
theorem Leads.entry {validTransitions : List (ℤ × List ℤ)} {current : Option ℤ} {v : ℤ}
    (h : Leads validTransitions current (some v)) : ∃ e ∈ validTransitions, current = some e.1 ∧ v ∈ e.2 := by
  obtain ⟨v', hv, hmem⟩ := h
  cases hv
  cases current with
  | none => cases hmem
  | some u =>
    rw [HasStateMachine.allowed, Option.bind_some] at hmem
    cases hl : validTransitions.lookup u with
    | none =>
      rw [hl] at hmem
      cases hmem
    | some nexts =>
      rw [hl] at hmem
      obtain ⟨l₁, l₂, rfl, -⟩ := List.lookup_eq_some_iff.mp hl
      exact ⟨(u, nexts), List.mem_append_right _ List.mem_cons_self, rfl, hmem⟩

/-- A state that has no transitions leads nowhere. -/
theorem not_leads {validTransitions : List (ℤ × List ℤ)} {current : Option ℤ}
    (h : HasStateMachine.allowed validTransitions current = []) (next : Option ℤ) :
    ¬ Leads validTransitions current next := by
  rintro ⟨v, -, hmem⟩
  rw [h] at hmem
  exact List.not_mem_nil hmem

/-! ### Projects -/

/-- What a project is created with; the stages after `Delivery` are not accepted. -/
structure ProjectCreateData where
  name : String
  about : String
  stageId : ℤ
  notes : Option String
  stage_mem : 1 ≤ stageId ∧ stageId ≤ 5

/-- The project as `createProject` inserts it. -/
def createProject (data : ProjectCreateData) (t : Clock) : Project where
  name := .str data.name
  about := .str data.about
  notes := data.notes.elim .null .str
  stageId := some data.stageId
  postponedReason := none
  stageUpdatedAt := none
  version := 1
  deletedAt := none
  updatedAt := t.freshTimestamp

/-- A request about a project; that it may be restored is not checked, but what is not
trashed is not saved. -/
inductive ProjectEvent (stages : ℤ → Option String) (trim : String → String) where
  | updateProject (data : ProjectUpdateData)
  | updateStageStatus (request : StageRequest.Accepted stages trim)
  | deleteProject
  | restoreProject (trashed : Bool)

def deleteProject : Project → Update Project := fun project =>
  .update (fun t => { project with deletedAt := some t.freshTimestamp, updatedAt := t.freshTimestamp }) .commit

def restoreProject (trashed : Bool) (project : Project) : Update Project :=
  if trashed then .update (fun t => { project with deletedAt := none, updatedAt := t.freshTimestamp }) .commit
  else .commit project

section

variable (stages : ℤ → Option String) (trim : String → String)

def projectEvents : Service Project (ProjectEvent stages trim) Error Clock where
  refuse
    | .updateProject data => projectService.refuse (.updateProject data)
    | .updateStageStatus request => projectService.refuse (.updateStageStatus request.data)
    | .deleteProject | .restoreProject _ => none
  body
    | .updateProject data => updateProject data
    | .updateStageStatus request => updateStageStatus request.data
    | .deleteProject => deleteProject
    | .restoreProject trashed => restoreProject trashed

end

variable {stages : ℤ → Option String} {trim : String → String} {project project' model : Project}

/-- The request asks for the stage, of a project that is not trashed and has the version
it carries. -/
def ProjectEvent.Asks (q : ProjectEvent stages trim) (project : Project) (stage : Option ℤ) : Prop :=
  ∃ request, q = .updateStageStatus request ∧ stage = some request.data.stageId ∧
    request.data.version = some project.version ∧ project.deletedAt = none

/-- A project that has been saved has the stage that was asked for, and the reason that
goes with it. -/
theorem updateStage_spec {data : ProjectStageUpdateData}
    (h : (updateStage data project).Commits project project' model) :
    ∃ newStage, ProjectStage.backed.tryFrom data.stageId = some newStage ∧
      project'.stageId = some newStage.value ∧
      project'.postponedReason = getPostponedReason (newStage == .Postponed) data ∧
      (project'.stageId = project.stageId ∨ Leads Project.validTransitions project.stageId project'.stageId) := by
  unfold updateStage at h
  split at h
  · exact absurd h Body.commits_fail
  rename_i newStage hnew
  refine ⟨newStage, hnew, ?_⟩
  dsimp only at h
  split at h
  · rename_i hsame
    obtain ⟨-, rfl⟩ := Body.commits_commit.mp h
    exact ⟨hsame.1.symm, hsame.2.symm, .inl rfl⟩
  split at h
  · rename_i hsame
    obtain ⟨t, h⟩ := Body.commits_update.mp h
    obtain ⟨-, rfl⟩ := Body.commits_commit.mp h
    exact ⟨hsame.symm, rfl, .inl rfl⟩
  · obtain ⟨hmem, t, h⟩ := HasStateMachine.commits_transitionTo.mp h
    obtain ⟨t', h⟩ := Body.commits_update.mp h
    obtain ⟨-, rfl⟩ := Body.commits_commit.mp h
    exact ⟨rfl, rfl, .inr ⟨newStage.value, rfl, hmem⟩⟩

theorem updateProject_spec {data : ProjectUpdateData}
    (h : (updateProject data project).Commits project project' model) :
    project'.stageId = project.stageId ∧ project'.postponedReason = project.postponedReason := by
  obtain ⟨-, -, h⟩ := commits_onVersion.mp h
  obtain ⟨t, h⟩ := Body.commits_update.mp h
  obtain ⟨-, rfl⟩ := Body.commits_commit.mp h
  exact ⟨rfl, rfl⟩

theorem deleteProject_spec (h : (deleteProject project).Commits project project' model) :
    project'.stageId = project.stageId ∧ project'.postponedReason = project.postponedReason := by
  obtain ⟨t, h⟩ := Body.commits_update.mp h
  obtain ⟨-, rfl⟩ := Body.commits_commit.mp h
  exact ⟨rfl, rfl⟩

theorem restoreProject_spec {trashed : Bool} (h : (restoreProject trashed project).Commits project project' model) :
    project'.stageId = project.stageId ∧ project'.postponedReason = project.postponedReason := by
  unfold restoreProject at h
  split at h
  · obtain ⟨t, h⟩ := Body.commits_update.mp h
    obtain ⟨-, rfl⟩ := Body.commits_commit.mp h
    exact ⟨rfl, rfl⟩
  · obtain ⟨-, rfl⟩ := Body.commits_commit.mp h
    exact ⟨rfl, rfl⟩

theorem project_tracked : Tracked (projectEvents stages trim) Project.stageId (Leads Project.validTransitions)
    ProjectEvent.Asks := by
  intro q project project' model h
  cases q with
  | updateProject data => exact .inl (updateProject_spec h).1
  | updateStageStatus request =>
    obtain ⟨hlive, hversion, h⟩ := commits_onVersion.mp h
    obtain ⟨newStage, hnew, hstage, -, hmoved⟩ := updateStage_spec h
    have hasked : project'.stageId = some request.data.stageId :=
      hstage.trans (congrArg some (ProjectStage.backed.value_of_tryFrom hnew))
    exact hmoved.imp_right fun hleads => ⟨hleads, request, rfl, hasked, hversion, hlive⟩
  | deleteProject => exact .inl (deleteProject_spec h).1
  | restoreProject trashed => exact .inl (restoreProject_spec h).1

/-! ### Tasks -/

inductive TaskEvent where
  | updateTask (data : TaskUpdateData)
  | archiveTask
  /-- As it was read the task is trashed or not; under the lock of the project there is
  room for it or not. -/
  | unarchiveTask (trashed withinLimit : Bool)
  deriving DecidableEq

inductive TaskError where
  | update (e : Error)
  | taskNotTrashed
  | planLimitExceeded
  deriving DecidableEq, Repr

def archiveTask (task : Task) : Body Task TaskError Clock :=
  .update (fun t => { task with deletedAt := some t.freshTimestamp, updatedAt := t.freshTimestamp }) .commit

/-- What `RestoreTaskAction` does with a task that is trashed. -/
def unarchiveTask (withinLimit : Bool) (task : Task) : Body Task TaskError Clock :=
  if withinLimit then .update (fun t => { task with deletedAt := none, updatedAt := t.freshTimestamp }) .commit
  else .fail .planLimitExceeded

def taskEvents (C : Carbon) : Service Task TaskEvent TaskError Clock where
  refuse
    | .updateTask data => ((taskService C).refuse data).map .update
    | .archiveTask => none
    | .unarchiveTask trashed _ => if trashed then none else some .taskNotTrashed
  body
    | .updateTask data => fun task => (updateTask C data task).mapError .update
    | .archiveTask => archiveTask
    | .unarchiveTask _ withinLimit => unarchiveTask withinLimit

variable {C : Carbon} {task task' model' : Task}

/-- The request asks for the status, of a task that is not trashed and has the version
it carries. -/
def TaskEvent.Asks (q : TaskEvent) (task : Task) (status : Option ℤ) : Prop :=
  ∃ data, q = .updateTask data ∧ status = data.statusId ∧ data.version = some task.version ∧ task.deletedAt = none

theorem statusId_of_fill {attributes : List (String × Value)} (h : task.fill C attributes = some task') :
    task'.statusId = task.statusId := by
  obtain ⟨dueAt, -, rfl⟩ := Option.map_eq_some_iff.mp h
  rfl

theorem statusId_of_updateAttributes {payload : TaskUpdateData} {statusChanged : Bool}
    (h : (updateAttributes C payload statusChanged task).Commits task task' model') :
    task'.statusId = task.statusId := by
  unfold updateAttributes at h
  split at h
  · split at h
    · exact absurd h Body.commits_fail
    · rename_i filled hfill
      obtain ⟨t, h⟩ := Body.commits_update.mp h
      obtain ⟨-, rfl⟩ := Body.commits_commit.mp h
      rw [← statusId_of_fill hfill]
      rfl
  · split at h
    · obtain ⟨t, h⟩ := Body.commits_update.mp h
      obtain ⟨-, rfl⟩ := Body.commits_commit.mp h
      rfl
    · rw [(Body.commits_commit.mp h).2]

theorem updateStatus_spec {data : TaskUpdateData} (h : (updateStatus C data task).Commits task task' model') :
    task'.statusId = task.statusId ∨
      (Leads Task.validTransitions task.statusId task'.statusId ∧ task'.statusId = data.statusId) := by
  simp only [updateStatus] at h
  split at h
  · exact .inl (statusId_of_updateAttributes h)
  rename_i status hstatus
  split at h
  · exact absurd h Body.commits_fail
  rename_i newStatus hnew
  split at h
  · exact .inl (statusId_of_updateAttributes h)
  · obtain ⟨hmem, t, h⟩ := HasStateMachine.commits_transitionTo.mp h
    have hsaved := statusId_of_updateAttributes h
    refine .inr ⟨⟨newStatus.value, hsaved, hmem⟩, ?_⟩
    rw [hsaved, hstatus, ← TaskSystemStatus.backed.value_of_tryFrom hnew]
    rfl

theorem archiveTask_spec (h : (archiveTask task).Commits task task' model') : task'.statusId = task.statusId := by
  obtain ⟨t, h⟩ := Body.commits_update.mp h
  obtain ⟨-, rfl⟩ := Body.commits_commit.mp h
  rfl

theorem unarchiveTask_spec {withinLimit : Bool} (h : (unarchiveTask withinLimit task).Commits task task' model') :
    task'.statusId = task.statusId := by
  unfold unarchiveTask at h
  split at h
  · obtain ⟨t, h⟩ := Body.commits_update.mp h
    obtain ⟨-, rfl⟩ := Body.commits_commit.mp h
    rfl
  · exact absurd h Body.commits_fail

theorem task_tracked (C : Carbon) : Tracked (taskEvents C) Task.statusId (Leads Task.validTransitions)
    TaskEvent.Asks := by
  intro q task task' model h
  cases q with
  | updateTask data =>
    have hupdate : (updateTask C data task).Commits task task' model := Body.commits_mapError.mp h
    obtain ⟨hlive, hversion, h⟩ := commits_onVersion.mp hupdate
    exact (updateStatus_spec h).imp_right fun ⟨hleads, hasked⟩ => ⟨hleads, data, rfl, hasked, hversion, hlive⟩
  | archiveTask => exact .inl (archiveTask_spec h)
  | unarchiveTask trashed withinLimit => exact .inl (unarchiveTask_spec h)

/-! ### Their states -/

namespace Sample

/-- One request, up to its success. -/
def alone {α ρ ε : Type} (q : ρ) (saves : ℕ) : List (Act (Point α ρ ε Clock) (Input Clock)) :=
  [.arrive (.request q), .move 0 (input 10), .move 0 (input 20)] ++ List.replicate saves (.move 0 (input 30)) ++
    [.move 0 (input 40), .move 0 (input 50)]

def table : ℤ → Option String := fun n => (ProjectStage.backed.tryFrom n).map ProjectStage.name

def completion : Json := .array [("version", .int 1), ("stage", .int 6)]

def completed : StageRequest.Accepted table id where
  input := completion
  data := ⟨ProjectStage.Completed.value, none, some 1⟩
  accepts := by decide
  toDto := rfl

end Sample

/-- **The state of a project or of a task** goes along its transitions between any two
moments of a run, and each change was asked for. -/
theorem states_of_run (stages : ℤ → Option String) (trim : String → String) (C : Carbon) :
    (∀ project tr c tr' c', (projectEvents stages trim).program.Run (start project) tr c →
      (projectEvents stages trim).program.Run c tr' c' →
      StateHistory Project.stageId (Leads Project.validTransitions) ProjectEvent.Asks c c' tr') ∧
    (∀ task tr c tr' c', (taskEvents C).program.Run (start task) tr c → (taskEvents C).program.Run c tr' c' →
      StateHistory Task.statusId (Leads Task.validTransitions) TaskEvent.Asks c c' tr') :=
  ⟨fun _ _ _ _ _ h₁ h => project_tracked.history h₁ h, fun _ _ _ _ _ h₁ h => (task_tracked C).history h₁ h⟩

/-- A project that is delivered and a task under review are completed. -/
theorem states_of_run_completed :
    (∃ tr c, (projectEvents Sample.table id).program.Run
        (start { Sample.project with stageId := some ProjectStage.Delivery.value }) tr c ∧
      c.store.row.stageId = some 6 ∧ StateHistory Project.stageId (Leads Project.validTransitions) ProjectEvent.Asks
        (start { Sample.project with stageId := some ProjectStage.Delivery.value }) c tr) ∧
    (∃ tr c, (taskEvents Sample.carbon).program.Run
        (start { Sample.task with statusId := some TaskSystemStatus.UnderReview.value }) tr c ∧
      c.store.row.statusId = some 4 ∧ StateHistory Task.statusId (Leads Task.validTransitions) TaskEvent.Asks
        (start { Sample.task with statusId := some TaskSystemStatus.UnderReview.value }) c tr) := by
  constructor
  · obtain ⟨tr, c, h, hc⟩ := (projectEvents Sample.table id).program.exists_run_of_replay
      (Sample.alone (.updateStageStatus Sample.completed) 2)
      (c := start { Sample.project with stageId := some ProjectStage.Delivery.value })
      (q := fun _ c => c.store.row.stageId == some 6) rfl
    exact ⟨tr, c, h, by simpa using hc, (states_of_run _ _ Sample.carbon).1 _ _ _ _ _ .nil h⟩
  · obtain ⟨tr, c, h, hc⟩ := (taskEvents Sample.carbon).program.exists_run_of_replay
      (Sample.alone (.updateTask (.fromArray [("version", .int 1), ("status_id", .int 4)])) 2)
      (c := start { Sample.task with statusId := some TaskSystemStatus.UnderReview.value })
      (q := fun _ c => c.store.row.statusId == some 4) (by decide)
    exact ⟨tr, c, h, by simpa using hc, (states_of_run Sample.table id _).2 _ _ _ _ _ .nil h⟩

section

variable {α ρ ε τ : Type} {state : α → Option ℤ} {asks : ρ → α → Option ℤ → Prop} {validTransitions : List (ℤ × List ℤ)}
  {c c' : Config (Store α) (Point α ρ ε τ)} {tr : List (Step (Store α) (Point α ρ ε τ) (Input τ))} {u v : ℤ}

theorem stays_of_history (history : StateHistory state (Leads validTransitions) asks c c' tr)
    (hend : HasStateMachine.allowed validTransitions (some u) = []) (h : state c.store.row = some u) :
    state c'.store.row = some u := by
  rw [← h] at hend
  exact (history.terminal (not_leads hend)).trans h

/-- A state that only one leads to is entered from this one. -/
theorem sole_of_history (history : StateHistory state (Leads validTransitions) asks c c' tr)
    (hsole : ∀ e ∈ validTransitions, v ∈ e.2 → e.1 = u) (hne : state c.store.row ≠ some v)
    (h : state c'.store.row = some v) :
    ∃ st ∈ tr, state (before st) = some u ∧ ∃ q, CommitOf q st ∧ asks q (before st) (some v) := by
  obtain ⟨tr₁, st, tr₂, rfl, hleads, -, hq, -⟩ := history.entered (by rw [h]; exact hne.symm)
  rw [h] at hleads hq
  obtain ⟨e, he, hbefore, hv⟩ := hleads.entry
  rw [hsole e he hv] at hbefore
  exact ⟨st, List.mem_append_right _ List.mem_cons_self, hbefore, hq⟩

end

/-- A completed project stays so, and was completed out of its delivery; a completed or
cancelled task stays so, and was completed out of its review. -/
theorem completed_of_run (stages : ℤ → Option String) (trim : String → String) (C : Carbon) :
    (∀ project tr c tr' c', (projectEvents stages trim).program.Run (start project) tr c →
      (projectEvents stages trim).program.Run c tr' c' →
      (c.store.row.stageId = some ProjectStage.Completed.value →
        c'.store.row.stageId = some ProjectStage.Completed.value) ∧
      (c.store.row.stageId ≠ some ProjectStage.Completed.value →
        c'.store.row.stageId = some ProjectStage.Completed.value →
        ∃ st ∈ tr', (before st).stageId = some ProjectStage.Delivery.value ∧
          ∃ request, CommitOf (.updateStageStatus request) st)) ∧
    (∀ task tr c tr' c', (taskEvents C).program.Run (start task) tr c → (taskEvents C).program.Run c tr' c' →
      (∀ status ∈ [TaskSystemStatus.Completed, .Cancelled], c.store.row.statusId = some status.value →
        c'.store.row.statusId = some status.value) ∧
      (c.store.row.statusId ≠ some TaskSystemStatus.Completed.value →
        c'.store.row.statusId = some TaskSystemStatus.Completed.value →
        ∃ st ∈ tr', (before st).statusId = some TaskSystemStatus.UnderReview.value ∧
          ∃ data, CommitOf (.updateTask data) st)) := by
  constructor
  · intro project tr c tr' c' h₁ h
    have history := project_tracked.history h₁ h
    refine ⟨stays_of_history history rfl, fun hne hc' => ?_⟩
    obtain ⟨st, hst, hbefore, q, hcommit, request, rfl, -⟩ :=
      sole_of_history history (u := ProjectStage.Delivery.value) (by decide) hne hc'
    exact ⟨st, hst, hbefore, request, hcommit⟩
  · intro task tr c tr' c' h₁ h
    have history := (task_tracked C).history h₁ h
    have hend : ∀ status ∈ [TaskSystemStatus.Completed, .Cancelled],
        HasStateMachine.allowed Task.validTransitions (some status.value) = [] := by decide
    refine ⟨fun status hstatus => stays_of_history history (hend status hstatus), fun hne hc' => ?_⟩
    obtain ⟨st, hst, hbefore, q, hcommit, data, rfl, -⟩ :=
      sole_of_history history (u := TaskSystemStatus.UnderReview.value) (by decide) hne hc'
    exact ⟨st, hst, hbefore, data, hcommit⟩

/-! ### The reason of a postponed project -/

def Project.IsPostponed (project : Project) : Prop := project.stageId = some ProjectStage.Postponed.value

/-- What a request leaves of the stage and the reason: both as they were, or the stage
that was asked for and the reason that goes with it. -/
theorem reason_spec {q : ProjectEvent stages trim}
    (h : ((projectEvents stages trim).body q project).Commits project project' model) :
    (project'.stageId = project.stageId ∧ project'.postponedReason = project.postponedReason) ∨
    ∃ request, ∃ newStage : ProjectStage, q = .updateStageStatus request ∧ request.data.stageId = newStage.value ∧
      project'.stageId = some newStage.value ∧
      project'.postponedReason = getPostponedReason (newStage == .Postponed) request.data := by
  cases q with
  | updateProject data => exact .inl (updateProject_spec h)
  | updateStageStatus request =>
    obtain ⟨-, -, h⟩ := commits_onVersion.mp h
    obtain ⟨newStage, hnew, hstage, hreason, -⟩ := updateStage_spec h
    exact .inr ⟨request, newStage, rfl, (ProjectStage.backed.value_of_tryFrom hnew).symm, hstage, hreason⟩
  | deleteProject => exact .inl (deleteProject_spec h)
  | restoreProject trashed => exact .inl (restoreProject_spec h)

theorem postponed_of_value {stage : ProjectStage} (h : stage.value = ProjectStage.Postponed.value) :
    stage = .Postponed := by
  cases stage with
  | Postponed => rfl
  | _ => exact absurd h (by decide)

/-- Only the postponed stage has a reason. -/
theorem stage_of_reason {stage : ProjectStage} {data : ProjectStageUpdateData}
    (h : getPostponedReason (stage == .Postponed) data ≠ none) : stage = .Postponed := by
  by_contra hne
  refine h ?_
  rw [getPostponedReason, beq_false_of_ne hne, Bool.false_and, if_neg Bool.false_ne_true]

/-- A reason that says something is kept. -/
theorem getPostponedReason_of_reason {data : ProjectStageUpdateData} {reason : String}
    (hreason : data.postponedReason = some reason) (hempty : reason ≠ "") (hzero : reason ≠ "0") :
    getPostponedReason true data = some reason := by
  have hsays : [none, some "", some "0"].contains (some reason) = false := by
    simp [hempty, hzero]
  rw [getPostponedReason, hreason, hsays]
  rfl

theorem postponed_of_reason {q : ProjectEvent stages trim}
    (h : ((projectEvents stages trim).body q project).Commits project project' model)
    (hp : project.postponedReason ≠ none → project.IsPostponed) :
    project'.postponedReason ≠ none → project'.IsPostponed := by
  intro hreason
  rcases reason_spec h with ⟨hstage, hsame⟩ | ⟨request, newStage, -, -, hstage, hset⟩
  · rw [Project.IsPostponed, hstage]
    exact hp (hsame ▸ hreason)
  · rw [hset] at hreason
    rw [Project.IsPostponed, hstage, stage_of_reason hreason]

theorem reason_of_postponed (hname : ∀ name, stages ProjectStage.Postponed.value = some name → name = "Postponed")
    {q : ProjectEvent stages trim}
    (h : ((projectEvents stages trim).body q project).Commits project project' model)
    (hp : project.IsPostponed → project.postponedReason ≠ none) :
    project'.IsPostponed → project'.postponedReason ≠ none := by
  intro hpostponed
  rcases reason_spec h with ⟨hstage, hsame⟩ | ⟨request, newStage, -, hid, hstage, hset⟩
  · rw [hsame]
    exact hp (hstage.symm.trans hpostponed)
  · have hnew : newStage = .Postponed := postponed_of_value (Option.some.inj (hstage.symm.trans hpostponed))
    subst hnew
    obtain ⟨reason, hgiven, hempty, hzero⟩ :=
      StageRequest.reason_of_accepts hname request.accepts request.toDto hid
    rw [hset, beq_self_eq_true, getPostponedReason_of_reason hgiven hempty hzero]
    exact Option.some_ne_none reason

theorem not_postponed_of_created (data : ProjectCreateData) (t : Clock) : ¬ (createProject data t).IsPostponed := by
  intro h
  have hid : data.stageId = 7 := Option.some.inj h
  have := data.stage_mem
  omega

namespace Sample

def website : ProjectCreateData := ⟨"Website", "The new website", 1, none, by decide⟩

/-- The postponed stage, without a reason. -/
def noReason : Json := .array [("version", .int 1), ("stage", .int 7)]

/-- It is accepted where the stage has another name. -/
def postponedAs {stages : ℤ → Option String} {name : String} (trim : String → String)
    (h : stages ProjectStage.Postponed.value = some name) (hne : name ≠ "Postponed") :
    StageRequest.Accepted stages trim where
  input := noReason
  data := ⟨ProjectStage.Postponed.value, none, some 1⟩
  accepts := by
    have hdata : StageRequest.validationData trim noReason = noReason := rfl
    have hstage : StageRequest.stage stages trim noReason = some name := by
      rw [← h]
      rfl
    have hpasses : Validator.passes StageRequest.validation StageRequest.rules noReason = true := by decide
    rw [StageRequest.accepts, StageRequest.lacksReason, hdata, hpasses, hstage]
    simp [hne]
  toDto := rfl

end Sample

/-- A project that has a reason is postponed; **a postponed project has a reason exactly
if the table of stages calls its stage so**. -/
theorem postponed_iff_reason (stages : ℤ → Option String) (trim : String → String) :
    (∀ data t tr c, (projectEvents stages trim).program.Run (start (createProject data t)) tr c →
      c.store.row.postponedReason ≠ none → c.store.row.IsPostponed) ∧
    ((∀ data t tr c, (projectEvents stages trim).program.Run (start (createProject data t)) tr c →
      c.store.row.IsPostponed → c.store.row.postponedReason ≠ none) ↔
      ∀ name, stages ProjectStage.Postponed.value = some name → name = "Postponed") := by
  refine ⟨fun data t tr c h => ?_, fun hall name hname => ?_, fun hname data t tr c h => ?_⟩
  · exact invariant_of_run (I := fun project => project.postponedReason ≠ none → project.IsPostponed)
      (fun q r r' model hb => postponed_of_reason hb) h (absurd rfl)
  · by_contra hne
    obtain ⟨tr, c, h, hc⟩ := (projectEvents stages trim).program.exists_run_of_replay
      (Sample.alone (.updateStageStatus (Sample.postponedAs trim hname hne)) 2)
      (c := start (createProject Sample.website ⟨0, 0⟩))
      (q := fun _ c => c.store.row.stageId == some 7 && c.store.row.postponedReason == none) rfl
    simp only [Bool.and_eq_true, beq_iff_eq] at hc
    exact hall _ _ _ _ h hc.1 hc.2
  · exact invariant_of_run (I := fun project => project.IsPostponed → project.postponedReason ≠ none)
      (fun q r r' model hb => reason_of_postponed hname hb) h
      fun hpostponed => absurd hpostponed (not_postponed_of_created data t)

end Versions
end Daywright
