/-
# No update of a task or a project is lost

Any number of updates of one task, or of one project by way of its two endpoints, run
concurrently, each carrying the version it has read. The task and the project are the
row of a `Transaction.Service`; that no update of theirs is lost is
`Versioned.noLostUpdate` for the three bodies.

Key theorem: `no_lost_update`.
-/
import Daywright.Versions.Project
import Daywright.Versions.Task

namespace Daywright
namespace Versions

open Interleave Transaction Php

/-- **No update is lost**, however the updates of a task or of a project interleave. -/
theorem no_lost_update (C : Carbon) :
    (∀ task tr c, (taskService C).program.Run (start task) tr c →
      NoLostUpdate (taskService C) Task.version TaskUpdateData.version TaskUpdateData.Legal tr) ∧
    (∀ project tr c, projectService.program.Run (start project) tr c →
      NoLostUpdate projectService Project.version ProjectRequest.version ProjectRequest.Legal tr) :=
  ⟨fun _ _ _ h => (updateTask_versioned C).noLostUpdate h, fun _ _ _ h => update_versioned.noLostUpdate h⟩

namespace Sample

def carbon : Carbon := ⟨fun _ => none, fun _ => ""⟩

def task : Task where
  title := .str "Draft"
  description := .null
  notified := .null
  notifySent := .int 0
  dueAt := none
  statusId := some TaskSystemStatus.Pending.value
  version := 1
  deletedAt := none
  updatedAt := 0

def started : TaskUpdateData :=
  .fromArray [("version", .int 1), ("status_id", .int 2), ("title", .str "Final draft")]

def described : TaskUpdateData := .fromArray [("version", .int 1), ("description", .str "For the release")]

def project : Project where
  name := .str "Website"
  about := .str "The new website"
  notes := .null
  stageId := some ProjectStage.Planning.value
  postponedReason := none
  stageUpdatedAt := none
  version := 1
  deletedAt := none
  updatedAt := 0

def postponed : ProjectStageUpdateData := ⟨ProjectStage.Postponed.value, some "Budget", some 1⟩

example : ProjectStageUpdateData.fromArray
    [("version", .int 1), ("stage", .int 7), ("postponed_reason", .str "Budget")] = some postponed := by decide

def renamed : ProjectUpdateData := .fromArray [("version", .int 1), ("name", .str "Web shop")]

def input (t : Time) : Input Clock := ⟨⟨t, t⟩, .done⟩

/-- Both requests are under way before the first one takes the lock, which the second
waits for; `saves` is the number of saves the first one makes. -/
def race {α ρ ε : Type} (first second : ρ) (saves : ℕ) : List (Act (Point α ρ ε Clock) (Input Clock)) :=
  [.arrive (.request first), .arrive (.request second), .move 0 (input 10), .move 1 (input 10), .move 0 (input 20)] ++
    List.replicate saves (.move 0 (input 30)) ++
    [.move 0 (input 40), .move 1 (input 50), .move 1 (input 60), .move 0 (input 70)]

/-- The first request has succeeded, and the second one is told what it missed. -/
def raced {α ρ : Type} : List (Point α ρ Error Clock) → Bool
  | [.answered _ (.ok _), .answered _ (.error (.editConflict expected current))] => expected == some 1 && current == 2
  | _ => false

end Sample

/-- Two updates that carry the version 1 race for a task, and two for a project. -/
theorem no_lost_update_race :
    (∃ tr c, (taskService Sample.carbon).program.Run (start Sample.task) tr c ∧ Sample.raced c.procs = true ∧
      c.store.row.statusId = some 2 ∧ c.store.row.version = 2 ∧ c.store.row.description = .null ∧
      NoLostUpdate (taskService Sample.carbon) Task.version TaskUpdateData.version TaskUpdateData.Legal tr) ∧
    (∃ tr c, projectService.program.Run (start Sample.project) tr c ∧ Sample.raced c.procs = true ∧
      c.store.row.stageId = some 7 ∧ c.store.row.version = 2 ∧ c.store.row.name = .str "Website" ∧
      NoLostUpdate projectService Project.version ProjectRequest.version ProjectRequest.Legal tr) := by
  constructor
  · obtain ⟨tr, c, h, hc⟩ := (taskService Sample.carbon).program.exists_run_of_replay
      (Sample.race Sample.started Sample.described 2) (c := start Sample.task)
      (q := fun _ c => Sample.raced c.procs && c.store.row.statusId == some 2 && c.store.row.version == 2 &&
        c.store.row.description == .null) (by decide)
    simp only [Bool.and_eq_true, beq_iff_eq] at hc
    exact ⟨tr, c, h, hc.1.1.1, hc.1.1.2, hc.1.2, hc.2, (no_lost_update Sample.carbon).1 _ _ _ h⟩
  · obtain ⟨tr, c, h, hc⟩ := projectService.program.exists_run_of_replay
      (Sample.race (.updateStageStatus Sample.postponed) (.updateProject Sample.renamed) 2)
      (c := start Sample.project)
      (q := fun _ c => Sample.raced c.procs && c.store.row.stageId == some 7 && c.store.row.version == 2 &&
        c.store.row.name == .str "Website") (by decide)
    simp only [Bool.and_eq_true, beq_iff_eq] at hc
    exact ⟨tr, c, h, hc.1.1.1, hc.1.1.2, hc.1.2, hc.2, (no_lost_update Sample.carbon).2 _ _ _ h⟩

end Versions
end Daywright
