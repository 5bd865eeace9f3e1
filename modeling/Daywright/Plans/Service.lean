/-
# The limits of a project owner's plan

`PlanLimitService` counts what a plan limits under a lock: the owner's projects under
the lock of the owner's row, the tasks and the members of a project under the lock of
the project. `createProject`, `createTask`, `RestoreTaskAction` and the two sides of an
invitation write only within these transactions. Archiving, restoring and deleting a
project, and archiving and deleting a task, are statements of their own.

The accounts of the users and their plans do not change.

Key definitions: `PlanLimitType`, `Data`, `Request`, `Statement`, `planLimitService`.
-/
import Daywright.Guard
import Daywright.Php
import Daywright.Table

namespace Daywright
namespace Plans

open Guard Php

/-! ### Plans -/

inductive SubscriptionPlan where
  | Free
  | Pro
  deriving DecidableEq, Repr

/-- The limits that a project owner runs into. -/
inductive PlanLimitType where
  | Projects
  | TasksPerProject
  | MembersPerProject
  deriving DecidableEq, Repr

def PlanLimitType.configKey : PlanLimitType → String
  | .Projects => "max_owned_projects"
  | .TasksPerProject => "max_tasks_per_project"
  | .MembersPerProject => "max_members_per_project"

/-- `config('plan-limits')`. -/
def SubscriptionPlan.limits : SubscriptionPlan → List (String × Option ℕ)
  | .Free => [("max_owned_projects", some 3), ("max_tasks_per_project", some 10),
      ("max_members_per_project", some 3), ("max_created_meetings", some 2), ("max_api_tokens", some 3)]
  | .Pro => [("max_owned_projects", none), ("max_tasks_per_project", none),
      ("max_members_per_project", none), ("max_created_meetings", none), ("max_api_tokens", some 5)]

/-- `none`: without limit. -/
def SubscriptionPlan.maxFor (plan : SubscriptionPlan) (type : PlanLimitType) : Option ℕ :=
  ((plan.limits.find? fun l => l.1 == type.configKey).map (·.2)).join

/-! ### The tables -/

/-- The columns of a project that the limits depend on. -/
structure Project where
  id : ℕ
  userId : ℕ
  trashed : Bool
  deriving DecidableEq, Repr

structure Task where
  id : ℕ
  projectId : ℕ
  attributes : List (String × Value)
  trashed : Bool
  deriving DecidableEq, Repr

/-- A row of `project_members`. -/
structure Member where
  projectId : ℕ
  userId : ℕ
  active : Bool
  deriving DecidableEq, Repr

/-- The tables, and their auto-increment keys. -/
structure Data where
  projects : List Project
  tasks : List Task
  members : List Member
  nextProject : ℕ
  nextTask : ℕ

/-- The accounts, and how the database compares the columns of a task. -/
structure Env where
  plan : ℕ → SubscriptionPlan
  /-- The account is there and not deleted. -/
  active : ℕ → Bool
  userByEmail : String → Option ℕ
  columnEquals : String → Value → Value → Bool

namespace Data

variable (d : Data)

/-- A project that is not archived. -/
def findProject (id : ℕ) : Option Project := d.projects.find? fun p => p.id == id && !p.trashed

def projectsCount (user : ℕ) : ℕ := d.projects.countP fun p => p.userId == user && !p.trashed

def activeTasksCount (project : ℕ) : ℕ := d.tasks.countP fun t => t.projectId == project && !t.trashed

/-- Members are joined with users that are not deleted. -/
def activeMembersCount (E : Env) (project : ℕ) : ℕ :=
  d.members.countP fun m => m.projectId == project && m.active && E.active m.userId

/-- The row of a member that `members()` finds. -/
def membership (E : Env) (project user : ℕ) : Option Member :=
  d.members.find? fun m => m.projectId == project && m.userId == user && E.active m.userId

end Data

/-! ### Requests -/

/-- What `ProjectStoreRequest` accepts: at most three starter tasks. -/
structure ProjectCreateData where
  starterTasks : List String
  max : starterTasks.length ≤ 3

inductive Request where
  | createProject (user : ℕ) (data : ProjectCreateData)
  | createTask (project user : ℕ) (attributes : List (String × Value))
  /-- A task that has been loaded, of this project. -/
  | restoreTask (task project : ℕ)
  | sendInvitation (project : ℕ) (email : String)
  | acceptInvitation (project user : ℕ)

/-- What a statement that runs on its own does. -/
inductive Statement where
  | deleteProject (project : ℕ)
  | restoreProject (project : ℕ)
  | forceDeleteProject (project : ℕ)
  | archiveTask (task : ℕ)
  | deleteTask (task : ℕ)
  /-- An invitation is cancelled or rejected. -/
  | detach (project user : ℕ)
  deriving DecidableEq, Repr

inductive Refusal where
  | modelNotFound
  /-- `$task->project` is `null`. -/
  | typeError
  | taskNotTrashed
  | projectNotTrashed
  | planLimitExceeded (type : PlanLimitType) (currentUsage : ℕ) (maxAllowed : ℕ)
  | validation (key message : String)
  deriving DecidableEq, Repr

/-- What a callback writes. -/
inductive Write where
  | nothing
  | createProject (user : ℕ) (tasks : List (List (String × Value)))
  | createTask (project : ℕ) (attributes : List (String × Value))
  | restoreTask (task : ℕ)
  | invite (project user : ℕ)
  | activate (project user : ℕ)
  deriving DecidableEq

/-- A row that is locked. -/
inductive Row where
  | user (id : ℕ)
  | project (id : ℕ)
  deriving DecidableEq, Repr

namespace Data

variable (d : Data)

/-- `createManyQuietly`, `firstOrCreate`: new tasks of a project. -/
def addTasks (project : ℕ) (tasks : List (List (String × Value))) : Data :=
  { d with
    tasks := d.tasks ++ tasks.mapIdx fun i attributes => ⟨d.nextTask + i, project, attributes, false⟩
    nextTask := d.nextTask + tasks.length }

def addProject (user : ℕ) : Data :=
  { d with projects := d.projects ++ [⟨d.nextProject, user, false⟩], nextProject := d.nextProject + 1 }

/-- `syncWithoutDetaching([$user->id => ['active' => false]])`. -/
def invite (project user : ℕ) : Data :=
  if d.members.any fun m => m.projectId == project && m.userId == user then
    { d with
      members := Table.updateWhere (fun m => m.projectId == project && m.userId == user)
        (fun m => { m with active := false }) d.members }
  else { d with members := d.members ++ [⟨project, user, false⟩] }

/-- `updateExistingPivot($user, ['active' => true])`. -/
def activate (project user : ℕ) : Data :=
  { d with
    members := Table.updateWhere (fun m => m.projectId == project && m.userId == user)
      (fun m => { m with active := true }) d.members }

def setProject (project : ℕ) (trashed : Bool) : Data :=
  { d with projects := Table.updateWhere (fun p => p.id == project) (fun p => { p with trashed := trashed }) d.projects }

def setTask (task : ℕ) (trashed : Bool) : Data :=
  { d with tasks := Table.updateWhere (fun t => t.id == task) (fun t => { t with trashed := trashed }) d.tasks }

/-- The foreign keys of its tasks and members cascade. -/
def removeProject (project : ℕ) : Data :=
  { d with
    projects := d.projects.filter fun p => p.id != project
    tasks := d.tasks.filter fun t => t.projectId != project
    members := d.members.filter fun m => m.projectId != project }

def removeTask (task : ℕ) : Data := { d with tasks := d.tasks.filter fun t => t.id != task }

def detach (project user : ℕ) : Data :=
  { d with members := d.members.filter fun m => !(m.projectId == project && m.userId == user) }

end Data

variable (E : Env)

/-- `assertWithinLimit`. -/
def assertWithinLimit (type : PlanLimitType) (user currentUsage : ℕ) : Option Refusal :=
  match (E.plan user).maxFor type with
  | none => none
  | some maxAllowed =>
    if currentUsage < maxAllowed then none else some (.planLimitExceeded type currentUsage maxAllowed)

/-- The limit of the plan of a project's owner, with the project locked. -/
def assertProjectLimit (d : Data) (project : ℕ) (type : PlanLimitType) (currentUsage : ℕ) : Option Refusal :=
  match d.findProject project with
  | none => some .modelNotFound
  | some lockedProject => assertWithinLimit E type lockedProject.userId currentUsage

def lockUser (user : ℕ) : Except Refusal (List Row) :=
  if E.active user then .ok [.user user] else .error .modelNotFound

def lockProject (d : Data) (project : ℕ) : Except Refusal (List Row) :=
  if (d.findProject project).isSome then .ok [.project project] else .error .modelNotFound

/-- What a request has checked before its transaction, on models it has loaded. -/
def refuse (d : Data) : Request → Option Refusal
  | .restoreTask task project =>
    match d.tasks.find? fun t => t.id == task && t.projectId == project with
    | none => some .modelNotFound
    | some t =>
      if !t.trashed then some .taskNotTrashed
      else if (d.findProject project).isNone then some .typeError
      else none
  | .sendInvitation _ email => if (E.userByEmail email).isNone then some .modelNotFound else none
  | _ => none

def lock (d : Data) : Request → Except Refusal (List Row)
  | .createProject user _ => lockUser E user
  | .createTask project _ _ | .restoreTask _ project | .sendInvitation project _ | .acceptInvitation project _ =>
    lockProject d project

def check (d : Data) (q : Request) (rows : List Row) : Option Refusal :=
  match q, rows with
  | .createProject _ _, [.user user] => assertWithinLimit E .Projects user (d.projectsCount user)
  | .createTask _ _ _, [.project project] | .restoreTask _ _, [.project project] =>
    assertProjectLimit E d project .TasksPerProject (d.activeTasksCount project)
  | .sendInvitation _ _, [.project project] | .acceptInvitation _ _, [.project project] =>
    assertProjectLimit E d project .MembersPerProject (d.activeMembersCount E project)
  | _, _ => some .modelNotFound

/-- `validateInvitation`, and what is written. -/
def inviteUser (d : Data) (project user : ℕ) : Except Refusal Write :=
  if (d.membership E project user).isSome then
    .error (.validation "invitation" "Project invitation already sent to a user.")
  else if (d.findProject project).any fun p => p.userId == user then
    .error (.validation "invitation" "Can't send an invitation to the project owner.")
  else .ok (.invite project user)

def callback (d : Data) : Request → Except Refusal Write
  | .createProject user data =>
    .ok (.createProject user (data.starterTasks.map fun title => [("title", .str title), ("user_id", .int user)]))
  | .createTask project user attributes =>
    let attributes := attributes ++ [("user_id", .int user)]
    let matching (t : Task) : Bool := t.projectId == project && !t.trashed &&
      attributes.all fun f => (field f.1 t.attributes).any fun v => E.columnEquals f.1 v f.2
    if d.tasks.any matching then .ok .nothing else .ok (.createTask project attributes)
  | .restoreTask task _ => .ok (.restoreTask task)
  | .sendInvitation project email =>
    match E.userByEmail email with
    | none => .error .modelNotFound
    | some user => inviteUser E d project user
  | .acceptInvitation project user =>
    match d.membership E project user with
    | none => .ok .nothing
    | some m => if m.active then .ok .nothing else .ok (.activate project user)

def write (d : Data) : Write → Data
  | .nothing => d
  | .createProject user tasks => (d.addProject user).addTasks d.nextProject tasks
  | .createTask project attributes => d.addTasks project [attributes]
  | .restoreTask task => d.setTask task false
  | .invite project user => d.invite project user
  | .activate project user => d.activate project user

def refuseStatement (d : Data) : Statement → Option Refusal
  | .forceDeleteProject project =>
    match d.projects.find? fun p => p.id == project with
    | none => some .modelNotFound
    | some p => if p.trashed then none else some .projectNotTrashed
  | .deleteTask task =>
    match d.tasks.find? fun t => t.id == task with
    | none => some .modelNotFound
    | some t => if t.trashed then none else some .taskNotTrashed
  | _ => none

def statement (d : Data) : Statement → Data
  | .deleteProject project => d.setProject project true
  | .restoreProject project => d.setProject project false
  | .forceDeleteProject project => d.removeProject project
  | .archiveTask task => d.setTask task true
  | .deleteTask task => d.removeTask task
  | .detach project user => d.detach project user

/-- Only the rows of users and projects are ever locked. -/
def statementRows : Statement → List Row
  | .deleteProject project | .restoreProject project | .forceDeleteProject project => [.project project]
  | _ => []

def planLimitService : Service Data Row Request Write Statement Refusal where
  refuse := refuse E
  lock := lock E
  check := check E
  callback := callback E
  write := write
  refuseStatement := refuseStatement
  statement := statement
  rows := statementRows

end Plans
end Daywright
