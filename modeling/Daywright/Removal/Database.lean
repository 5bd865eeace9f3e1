/-
# Users, projects and what hangs on them

The rows of users, projects, project members and meetings, with the foreign keys that
cascade when a row is deleted: `projects.user_id`, `project_members.project_id` and
`user_id`, `meetings.project_id` and `user_id`. A user or a project that has been
deleted softly keeps its row, with the time in `deleted_at`.

The jobs that cancel Zoom meetings are listed with the row for which each was
dispatched.

Key definitions: `Db`, `Db.deleteProjects`, `Db.forceDeleteUser`, `Db.WellFormed`.
Key theorems: `Db.WellFormed.deleteProjects`, `Db.WellFormed.forceDeleteUser`.
-/
import Daywright.Chunk
import Daywright.Meeting
import Daywright.Table

namespace Daywright
namespace Removal

structure User where
  id : ℕ
  isAdmin : Bool
  deletedAt : Option Time
  deriving DecidableEq, Repr

structure Project where
  id : ℕ
  userId : ℕ
  deletedAt : Option Time
  deriving DecidableEq, Repr

/-- A row of `project_members`. -/
structure Member where
  projectId : ℕ
  userId : ℕ
  active : Bool
  deriving DecidableEq, Repr

/-- A meeting: its Zoom id, if Zoom has created it, and its host. -/
structure Meeting where
  id : ℕ
  projectId : ℕ
  userId : ℕ
  meetingId : Option ZoomId
  syncStatus : MeetingSyncStatus
  deriving DecidableEq, Repr

structure CancelZoomMeetingsJob where
  meetingId : ZoomId
  userId : ℕ
  deriving DecidableEq, Repr

structure Db where
  users : List User
  projects : List Project
  members : List Member
  meetings : List Meeting
  /-- The jobs dispatched, each with the meeting it is for. -/
  dispatched : List (Meeting × CancelZoomMeetingsJob)

def User.trashed (u : User) : Bool := u.deletedAt.isSome

def Project.trashed (p : Project) : Bool := p.deletedAt.isSome

/-- 15 days, and so on. -/
def days (n : ℕ) : Time := minutes (60 * 24 * n)

namespace Db

variable (s : Db)

/-- `$project->members()`: the members that are not deleted. -/
def membersOf (project : ℕ) : List User :=
  (s.members.filter fun m => m.projectId == project).filterMap fun m =>
    s.users.find? fun u => u.id == m.userId && !u.trashed

/-- `delete from projects where …`: the rows of the projects go, and those that
refer to them. -/
def deleteProjects (gone : Project → Bool) : Db :=
  { s with
    projects := s.projects.filter fun p => !gone p
    members := s.members.filter fun m => !s.projects.any fun p => gone p && p.id == m.projectId
    meetings := s.meetings.filter fun m => !s.projects.any fun p => gone p && p.id == m.projectId }

/-- `Project::forceDelete`. -/
def forceDeleteProject (project : ℕ) : Db := s.deleteProjects fun p => p.id == project

/-- `Project::delete`. -/
def deleteProject (project : ℕ) (now : Time) : Db :=
  { s with projects := Table.updateWhere (fun p => p.id == project) (fun p => { p with deletedAt := some now }) s.projects }

/-- `$project->user_id = …; $project->save()`. -/
def saveOwner (project user : ℕ) : Db :=
  { s with projects := Table.updateWhere (fun p => p.id == project) (fun p => { p with userId := user }) s.projects }

/-- `delete from users where …`. -/
def deleteUserRow (user : ℕ) : Db :=
  let s := s.deleteProjects fun p => p.userId == user
  { s with
    users := s.users.filter fun u => u.id != user
    members := s.members.filter fun m => m.userId != user
    meetings := s.meetings.filter fun m => m.userId != user }

/-- `User::forceDelete`: the projects of the user are deleted softly before the row is. -/
def forceDeleteUser (user : ℕ) (now : Time) : Db :=
  { s with
    projects := Table.updateWhere (fun p => p.userId == user && !p.trashed) (fun p => { p with deletedAt := some now })
      s.projects }.deleteUserRow user

/-- The primary keys are unique, and the foreign keys refer to rows that are there. -/
structure WellFormed : Prop where
  users : (s.users.map (·.id)).Nodup
  projects : (s.projects.map (·.id)).Nodup
  owners : ∀ p ∈ s.projects, ∃ u ∈ s.users, u.id = p.userId
  hosts : ∀ m ∈ s.meetings, ∃ u ∈ s.users, u.id = m.userId

/-- A user that is not deleted. -/
def Live (user : ℕ) : Prop := ∃ u ∈ s.users, u.id = user ∧ u.deletedAt = none

variable {s}

theorem WellFormed.user_eq (h : s.WellFormed) {u v : User} (hu : u ∈ s.users) (hv : v ∈ s.users) (hid : u.id = v.id) :
    u = v := List.inj_on_of_nodup_map h.users hu hv hid

theorem WellFormed.project_eq (h : s.WellFormed) {p q : Project} (hp : p ∈ s.projects) (hq : q ∈ s.projects)
    (hid : p.id = q.id) : p = q := List.inj_on_of_nodup_map h.projects hp hq hid

theorem mem_membersOf {project : ℕ} {u : User} (h : u ∈ s.membersOf project) :
    u ∈ s.users ∧ u.deletedAt = none := by
  obtain ⟨m, -, hu⟩ := List.mem_filterMap.mp h
  have htrashed := List.find?_some hu
  simp only [User.trashed, Bool.and_eq_true, Bool.not_eq_true', Option.isSome_eq_false_iff,
    Option.isNone_iff_eq_none] at htrashed
  exact ⟨List.mem_of_find?_eq_some hu, htrashed.2⟩

/-- A project has members exactly if it has one that is not deleted. -/
theorem membersOf_ne_nil {project : ℕ} :
    s.membersOf project ≠ [] ↔ ∃ m ∈ s.members, m.projectId = project ∧ s.Live m.userId := by
  constructor
  · intro h
    obtain ⟨u, hu⟩ := List.exists_mem_of_ne_nil _ h
    have hlive := mem_membersOf hu
    obtain ⟨m, hm, hu⟩ := List.mem_filterMap.mp hu
    obtain ⟨hm, hp⟩ := List.mem_filter.mp hm
    have hid := List.find?_some hu
    simp only [Bool.and_eq_true, beq_iff_eq] at hid hp
    exact ⟨m, hm, hp, u, hlive.1, hid.1, hlive.2⟩
  · rintro ⟨m, hm, hp, u, hu, hid, hlive⟩
    have hfound : (s.users.find? fun u => u.id == m.userId && !u.trashed).isSome = true := by
      refine List.find?_isSome.mpr ⟨u, hu, ?_⟩
      simp [hid, User.trashed, hlive]
    obtain ⟨v, hv⟩ := Option.isSome_iff_exists.mp hfound
    exact List.ne_nil_of_mem (List.mem_filterMap.mpr ⟨m, List.mem_filter.mpr ⟨hm, beq_iff_eq.mpr hp⟩, hv⟩)

theorem mem_deleteProjects {gone : Project → Bool} {p : Project} :
    p ∈ (s.deleteProjects gone).projects ↔ p ∈ s.projects ∧ gone p = false := by
  simp [deleteProjects]

theorem WellFormed.deleteProjects (h : s.WellFormed) (gone : Project → Bool) : (s.deleteProjects gone).WellFormed where
  users := h.users
  projects := h.projects.sublist (List.filter_sublist.map _)
  owners p hp := h.owners p (List.mem_filter.mp hp).1
  hosts m hm := h.hosts m (List.mem_filter.mp hm).1

theorem WellFormed.deleteUserRow (h : s.WellFormed) (user : ℕ) : (s.deleteUserRow user).WellFormed where
  users := h.users.sublist (List.filter_sublist.map _)
  projects := (h.deleteProjects _).projects
  owners p hp := by
    obtain ⟨hp, hne⟩ := mem_deleteProjects.mp hp
    obtain ⟨u, hu, hid⟩ := h.owners p hp
    refine ⟨u, List.mem_filter.mpr ⟨hu, ?_⟩, hid⟩
    simpa [hid] using hne
  hosts m hm := by
    obtain ⟨hm, hne⟩ := List.mem_filter.mp hm
    obtain ⟨u, hu, hid⟩ := h.hosts m (List.mem_filter.mp hm).1
    refine ⟨u, List.mem_filter.mpr ⟨hu, ?_⟩, hid⟩
    simpa [hid] using hne

/-- Projects are changed in place, and get owners that are there. -/
theorem WellFormed.updateProjects (h : s.WellFormed) {which : Project → Bool} {f : Project → Project}
    (hid : ∀ p, (f p).id = p.id) (howner : ∀ p ∈ s.projects, which p = true → ∃ u ∈ s.users, u.id = (f p).userId) :
    { s with projects := Table.updateWhere which f s.projects }.WellFormed where
  users := h.users
  projects := by
    show ((Table.updateWhere which f s.projects).map (·.id)).Nodup
    rw [Table.map_updateWhere hid]
    exact h.projects
  owners p hp := by
    obtain ⟨q, hq, rfl⟩ := Table.mem_updateWhere.mp hp
    split
    · rename_i hw
      exact howner q hq hw
    · exact h.owners q hq
  hosts := h.hosts

theorem WellFormed.forceDeleteUser (h : s.WellFormed) (user : ℕ) (now : Time) : (s.forceDeleteUser user now).WellFormed :=
  (h.updateProjects (f := fun p => { p with deletedAt := some now }) (fun _ => rfl)
    fun p hp _ => h.owners p hp).deleteUserRow user

end Db

end Removal
end Daywright
