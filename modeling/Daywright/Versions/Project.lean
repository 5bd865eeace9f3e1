/-
# The updates of a project

`ProjectService::updateProject` saves its attributes with the next version, whatever
they are. `ProjectService::updateStageStatus` does nothing if the project already has
the stage and the reason, saves a new reason with the next version if it has the stage,
and otherwise makes the transition, which saves the project, before it saves the rest
with the next version.

Both check the version under the lock of the project; a body that commits made at
most one step of it (`update_versioned`).

Key definitions: `Project`, `updateProject`, `updateStageStatus`, `projectService`.
Key theorem: `update_versioned`.
-/
import Daywright.Versions.StateMachine

namespace Daywright
namespace Versions

open Transaction Php

inductive ProjectStage where
  | Planning
  | Design
  | Development
  | Testing
  | Delivery
  | Completed
  | Postponed
  deriving DecidableEq, Repr

def ProjectStage.name : ProjectStage → String
  | .Planning => "Planning"
  | .Design => "Design"
  | .Development => "Development"
  | .Testing => "Testing"
  | .Delivery => "Delivery"
  | .Completed => "Completed"
  | .Postponed => "Postponed"

def ProjectStage.value : ProjectStage → ℤ
  | .Planning => 1
  | .Design => 2
  | .Development => 3
  | .Testing => 4
  | .Delivery => 5
  | .Completed => 6
  | .Postponed => 7

def ProjectStage.backed : BackedEnum ProjectStage where
  enum := "App\\Enums\\ProjectStage"
  cases := [.Planning, .Design, .Development, .Testing, .Delivery, .Completed, .Postponed]
  name := ProjectStage.name
  value := ProjectStage.value

/-- The columns of a project that an update reads or writes. -/
structure Project where
  name : Value
  about : Value
  notes : Value
  stageId : Option ℤ
  postponedReason : Option String
  stageUpdatedAt : Option Time
  version : ℤ
  deletedAt : Option Time
  updatedAt : Time
  deriving DecidableEq, Repr

/-- `Project::validTransitions`. -/
def Project.validTransitions : List (ℤ × List ℤ) :=
  [(ProjectStage.Planning.value, [ProjectStage.Design.value, ProjectStage.Postponed.value]),
   (ProjectStage.Design.value, [ProjectStage.Planning.value, ProjectStage.Development.value,
     ProjectStage.Postponed.value]),
   (ProjectStage.Development.value, [ProjectStage.Design.value, ProjectStage.Testing.value,
     ProjectStage.Postponed.value]),
   (ProjectStage.Testing.value, [ProjectStage.Development.value, ProjectStage.Delivery.value,
     ProjectStage.Postponed.value]),
   (ProjectStage.Delivery.value, [ProjectStage.Development.value, ProjectStage.Completed.value,
     ProjectStage.Postponed.value]),
   (ProjectStage.Completed.value, []),
   (ProjectStage.Postponed.value, [ProjectStage.Planning.value, ProjectStage.Design.value,
     ProjectStage.Development.value, ProjectStage.Testing.value, ProjectStage.Delivery.value])]

/-! ### The requests -/

structure ProjectUpdateData where
  attributes : List (String × Value)
  version : Option ℤ
  known : ∀ f ∈ attributes, f.1 ∈ ["name", "about", "notes"]
  deriving DecidableEq

def ProjectUpdateData.fromArray (payload : List (String × Value)) : ProjectUpdateData where
  attributes := only ["name", "about", "notes"] payload
  version := payloadVersion payload
  known := mem_only

structure ProjectStageUpdateData where
  stageId : ℤ
  postponedReason : Option String
  version : Option ℤ
  deriving DecidableEq

/-- `none`: `InvalidArgumentException('stage is required')`. -/
def ProjectStageUpdateData.fromArray (payload : List (String × Value)) : Option ProjectStageUpdateData :=
  match field "stage" payload with
  | none | some .null => none
  | some stage =>
    some {
      stageId := toInt stage
      postponedReason := (field "postponed_reason" payload).map toText
      version := payloadVersion payload }

/-- A request to one of the two endpoints. -/
inductive ProjectRequest where
  | updateProject (data : ProjectUpdateData)
  | updateStageStatus (data : ProjectStageUpdateData)
  deriving DecidableEq

def ProjectRequest.version : ProjectRequest → Option ℤ
  | .updateProject data => data.version
  | .updateStageStatus data => data.version

/-! ### The updates -/

def Project.fill (attributes : List (String × Value)) (project : Project) : Project :=
  { project with
    name := filled "name" attributes project.name
    about := filled "about" attributes project.about
    notes := filled "notes" attributes project.notes }

/-- The project is saved with the next version. -/
def Project.bump (project : Project) (t : Clock) : Project :=
  { project with version := project.version + 1, updatedAt := t.freshTimestamp }

/-- The transaction of `updateProject`, on the project under its lock. -/
def updateProject (data : ProjectUpdateData) (freshProject : Project) : Update Project :=
  onVersion freshProject.deletedAt data.version freshProject.version
    (.update (freshProject.fill data.attributes).bump .commit)

/-- `'0'` counts as no reason. -/
def getPostponedReason (isPostponed : Bool) (data : ProjectStageUpdateData) : Option String :=
  if isPostponed && !([none, some "", some "0"].contains data.postponedReason) then data.postponedReason else none

/-- What `updateStageStatus` does with the version checked. -/
def updateStage (data : ProjectStageUpdateData) (freshProject : Project) : Update Project :=
  match ProjectStage.backed.tryFrom data.stageId with
  | none => .fail (.valueError data.stageId ProjectStage.backed.enum)
  | some newStage =>
    let newPostponedReason := getPostponedReason (newStage == .Postponed) data
    if some newStage.value = freshProject.stageId ∧ newPostponedReason = freshProject.postponedReason then
      .commit freshProject
    else if some newStage.value = freshProject.stageId then
      .update { freshProject with postponedReason := newPostponedReason }.bump .commit
    else
      HasStateMachine.transitionTo ProjectStage.backed Project.validTransitions freshProject.stageId newStage
        (fun t => { freshProject with stageId := some newStage.value, updatedAt := t.freshTimestamp })
        fun moved => .update
          (fun t => { moved with postponedReason := newPostponedReason, stageUpdatedAt := some t.now }.bump t) .commit

/-- The transaction of `updateStageStatus`, on the project under its lock. -/
def updateStageStatus (data : ProjectStageUpdateData) (freshProject : Project) : Update Project :=
  onVersion freshProject.deletedAt data.version freshProject.version (updateStage data freshProject)

def projectService : Service Project ProjectRequest Error Clock where
  refuse q := if q.version = none then some versionRequired else none
  body
    | .updateProject data => updateProject data
    | .updateStageStatus data => updateStageStatus data

/-! ### Their versions -/

variable {project project' model : Project}

/-- The stage that is asked for, if one is, may be asked for. -/
def ProjectRequest.Legal (q : ProjectRequest) (project : Project) : Prop :=
  match q with
  | .updateProject _ => True
  | .updateStageStatus data =>
    StateLegal ProjectStage.backed Project.validTransitions project.stageId data.stageId

theorem updateProject_commits {data : ProjectUpdateData}
    (h : (updateProject data project).Commits project project' model) :
    data.version = some project.version ∧ project'.version = project.version + 1 := by
  obtain ⟨-, hcarried, h⟩ := commits_onVersion.mp h
  obtain ⟨t, h⟩ := Body.commits_update.mp h
  obtain ⟨-, rfl⟩ := Body.commits_commit.mp h
  exact ⟨hcarried, rfl⟩

theorem updateStage_commits {data : ProjectStageUpdateData}
    (h : (updateStage data project).Commits project project' model) :
    StateLegal ProjectStage.backed Project.validTransitions project.stageId data.stageId ∧
    (project' = project ∨ project'.version = project.version + 1) := by
  unfold updateStage at h
  split at h
  · exact absurd h Body.commits_fail
  rename_i newStage hnew
  dsimp only at h
  split at h
  · rename_i hsame
    exact ⟨.of_same hnew hsame.1, .inl (Body.commits_commit.mp h).2⟩
  split at h
  · rename_i hsame
    obtain ⟨t, h⟩ := Body.commits_update.mp h
    obtain ⟨-, rfl⟩ := Body.commits_commit.mp h
    exact ⟨.of_same hnew hsame, .inr rfl⟩
  · obtain ⟨hmem, t, h⟩ := HasStateMachine.commits_transitionTo.mp h
    obtain ⟨t', h⟩ := Body.commits_update.mp h
    obtain ⟨-, rfl⟩ := Body.commits_commit.mp h
    exact ⟨.of_allowed hnew hmem, .inr rfl⟩

theorem update_versioned : Versioned projectService Project.version ProjectRequest.version ProjectRequest.Legal := by
  intro q project project' model h
  cases q with
  | updateProject data =>
    obtain ⟨hcarried, hver⟩ := updateProject_commits h
    exact ⟨⟨hcarried, trivial⟩, .inr hver⟩
  | updateStageStatus data =>
    obtain ⟨-, hcarried, h⟩ := commits_onVersion.mp h
    obtain ⟨hlegal, hver⟩ := updateStage_commits h
    exact ⟨⟨hcarried, hlegal⟩, hver⟩

end Versions
end Daywright
