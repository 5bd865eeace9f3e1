/-
# Removing an owner

`PurgeDeletedUsersAction` walks the users that were deleted 15 days ago or earlier, and
for each the projects they own: one without members goes, any other gets a new owner
and is archived; then the row of the user is deleted, and nothing is left for the
foreign key to take along. `ForceDeleteUserController` deletes the row of a deleted user
at once, so the key takes all their projects, shared or not
(`shared_project_destroyed`).

The projects survive exactly if the owner is removed by the purge, or owns no project
that another user shares (`kept_iff`).

Key definitions: `handleUserProjects`, `purge`, `forceDelete`, `Shared`, `Kept`, `Spares`, `Keeps`.
Key theorems: `keeps_handleUserProjects`, `keeps_purge`, `kept_iff`.
-/
import Daywright.Removal.Database

namespace Daywright
namespace Removal

open Chunk Db

/-! ### The purge -/

/-- `permanentDeleteProject`; `none`: the project has members. -/
def permanentDeleteProject (s : Db) (project : ℕ) : Option Db :=
  if (s.membersOf project).length = 0 then some (s.forceDeleteProject project) else none

def findAdminForProject (s : Db) (project excludeUserId : ℕ) : Option User :=
  ((s.membersOf project).find? fun u => u.isAdmin && u.id != excludeUserId).or
    ((s.users.find? fun u => !u.trashed && u.isAdmin && u.id != excludeUserId).or
      ((s.membersOf project).find? fun u => u.id != excludeUserId))

/-- The body of the loop over the projects of a user. -/
def handleProject (now : Time) (user : ℕ) (s : Db) (project : Project) : Db :=
  match permanentDeleteProject s project.id with
  | some s => s
  | none =>
    match findAdminForProject s project.id user with
    | some admin => (s.saveOwner project.id admin.id).deleteProject project.id now
    | none => s.deleteProject project.id now

def ownedBy (user : ℕ) (s : Db) : List Project := s.projects.filter fun p => p.userId == user

def handleUserProjects (now : Time) (s : Db) (user : User) : Db :=
  (chunkById Project.id 50 (ownedBy user.id) (each (handleProject now user.id)) s).forceDeleteUser user.id now

/-- Deleted 15 days ago, or earlier. -/
def User.expired (now : Time) (u : User) : Bool := u.deletedAt.any fun t => t + days 15 ≤ now

def expiredUsers (now : Time) (s : Db) : List User := s.users.filter fun u => u.expired now

/-- `PurgeDeletedUsersAction::execute`. -/
def purge (now : Time) (s : Db) : Db := chunkById User.id 50 (expiredUsers now) (each (handleUserProjects now)) s

/-! ### The controller -/

inductive Response where
  | notFound
  | forbidden
  | conflict (message : String)
  | message (message : String)
  deriving DecidableEq, Repr

/-- `UsersPolicy::owner`, which an administrator passes. -/
def owner (actor target : User) : Bool := actor.isAdmin || actor.id == target.id

/-- `ForceDeleteUserController`. -/
def forceDelete (actor : User) (user : ℕ) (now : Time) (s : Db) : Response × Db :=
  match s.users.find? fun u => u.id == user with
  | none => (.notFound, s)
  | some target =>
    if !owner actor target then (.forbidden, s)
    else if !target.trashed then (.conflict "User must be soft-deleted before force deletion.", s)
    else (.message "User data permanently deleted.", s.forceDeleteUser target.id now)

/-- The ways in which the row of a user is deleted. -/
inductive Way where
  | purge (now : Time)
  | forceDelete (actor : User) (user : ℕ) (now : Time)

def Way.run (s : Db) : Way → Db
  | .purge now => Removal.purge now s
  | .forceDelete actor user now => (Removal.forceDelete actor user now s).2

/-! ### Shared projects -/

/-- A user besides the owner, not deleted, is a member. -/
def Shared (s : Db) (p : Project) : Prop :=
  ∃ m ∈ s.members, m.projectId = p.id ∧ s.Live m.userId ∧ m.userId ≠ p.userId

/-- The row of the user has been deleted. -/
def Removed (s s' : Db) (user : ℕ) : Prop := (∃ u ∈ s.users, u.id = user) ∧ ∀ u ∈ s'.users, u.id ≠ user

/-- The shared projects of the users removed are there, with an owner that is not
deleted, and those of the other users are as they were. -/
structure Kept (s s' : Db) : Prop where
  shared : ∀ p ∈ s.projects, Removed s s' p.userId → Shared s p →
    ∃ p' ∈ s'.projects, p'.id = p.id ∧ s'.Live p'.userId
  others : ∀ p ∈ s.projects, ¬ Removed s s' p.userId → p ∈ s'.projects

/-- The controller deletes the row of a user who owns no shared project. -/
def Spares (s : Db) : Way → Prop
  | .purge _ => True
  | .forceDelete actor user _ => ∀ target ∈ s.users, target.id = user → owner actor target = true →
    target.trashed = true → ∀ p ∈ s.projects, p.userId = user → ¬ Shared s p

/-- What is kept while the users in `gone` are being removed. -/
structure Keeps (gone : ℕ → Prop) (s t : Db) : Prop where
  users : ∀ u ∈ t.users, u ∈ s.users
  live : ∀ user, s.Live user → t.Live user
  ids : ∀ p ∈ t.projects, ∃ q ∈ s.projects, q.id = p.id
  members : ∀ m ∈ s.members, s.Live m.userId → (∃ p ∈ t.projects, p.id = m.projectId) → m ∈ t.members
  others : ∀ p ∈ s.projects, ¬ gone p.userId → p ∈ t.projects
  shared : ∀ p ∈ s.projects, Shared s p → ∃ p' ∈ t.projects, p'.id = p.id ∧ (p'.userId = p.userId ∨ t.Live p'.userId)

namespace Keeps

variable {gone : ℕ → Prop} {s t r : Db}

theorem refl (s : Db) : Keeps gone s s where
  users _ h := h
  live _ h := h
  ids p h := ⟨p, h, rfl⟩
  members _ h _ _ := h
  others _ h _ := h
  shared p h _ := ⟨p, h, rfl, .inl rfl⟩

/-- Nobody's account comes back. -/
theorem live_iff (h : Keeps gone s t) {user : ℕ} : t.Live user ↔ s.Live user :=
  ⟨fun ⟨u, hu, hlive⟩ => ⟨u, h.users u hu, hlive⟩, h.live user⟩

/-- A project that is still there is shared as before, unless it has a new owner. -/
theorem shared_of (h : Keeps gone s t) {p p' : Project} (hp : p' ∈ t.projects) (hid : p'.id = p.id)
    (howner : p'.userId = p.userId) (hs : Shared s p) : Shared t p' := by
  obtain ⟨m, hm, hmp, hlive, hne⟩ := hs
  exact ⟨m, h.members m hm hlive ⟨p', hp, hid.trans hmp.symm⟩, hmp.trans hid.symm, h.live _ hlive, howner ▸ hne⟩

/-- Users that are not deleted are not among those removed. -/
theorem trans (h : Keeps gone s t) (h' : Keeps gone t r) (hgone : ∀ user, s.Live user → ¬ gone user) :
    Keeps gone s r where
  users u hu := h.users u (h'.users u hu)
  live user hu := h'.live user (h.live user hu)
  ids p hp := by
    obtain ⟨q, hq, hid⟩ := h'.ids p hp
    obtain ⟨q', hq', hid'⟩ := h.ids q hq
    exact ⟨q', hq', hid'.trans hid⟩
  members m hm hlive hp := by
    obtain ⟨p, hp, hid⟩ := hp
    obtain ⟨q, hq, hqid⟩ := h'.ids p hp
    exact h'.members m (h.members m hm hlive ⟨q, hq, hqid.trans hid⟩) (h.live _ hlive) ⟨p, hp, hid⟩
  others p hp hne := h'.others p (h.others p hp hne) hne
  shared p hp hs := by
    obtain ⟨p', hp', hid, howner | hlive⟩ := h.shared p hp hs
    · obtain ⟨p'', hp'', hid', hown⟩ := h'.shared p' hp' (h.shared_of hp' hid howner hs)
      exact ⟨p'', hp'', hid'.trans hid, hown.imp_left fun h => h.trans howner⟩
    · exact ⟨p', h'.others p' hp' (hgone _ (h.live_iff.mp hlive)), hid, .inr (h'.live _ hlive)⟩

end Keeps

/-! ### One project of the user -/

variable {now : Time} {s : Db} {user : ℕ} {p : Project}

/-- Save the new owner, and archive. -/
def transfer (s : Db) (project user : ℕ) (now : Time) : Db := (s.saveOwner project user).deleteProject project now

theorem transfer_projects (project owner : ℕ) : (transfer s project owner now).projects =
    Table.updateWhere (fun p => p.id == project) (fun p => { p with userId := owner, deletedAt := some now })
      s.projects := by
  simp only [transfer, saveOwner, deleteProject, Table.updateWhere, List.map_map]
  refine List.map_congr_left fun p _ => ?_
  simp only [Function.comp_apply]
  split <;> simp_all

theorem of_findAdminForProject {project : ℕ} {admin : User} (h : findAdminForProject s project user = some admin) :
    s.Live admin.id ∧ admin.id ≠ user := by
  simp only [findAdminForProject, Option.or_eq_some_iff] at h
  rcases h with h | ⟨-, h | ⟨-, h⟩⟩
  · have hp := List.find?_some h
    have hlive := mem_membersOf (List.mem_of_find?_eq_some h)
    simp only [Bool.and_eq_true, bne_iff_ne] at hp
    exact ⟨⟨admin, hlive.1, rfl, hlive.2⟩, hp.2⟩
  · have hp := List.find?_some h
    simp only [User.trashed, Bool.and_eq_true, Bool.not_eq_true', Option.isSome_eq_false_iff, Option.isNone_iff_eq_none,
      bne_iff_ne] at hp
    exact ⟨⟨admin, List.mem_of_find?_eq_some h, rfl, hp.1.1⟩, hp.2⟩
  · have hp := List.find?_some h
    have hlive := mem_membersOf (List.mem_of_find?_eq_some h)
    simp only [bne_iff_ne] at hp
    exact ⟨⟨admin, hlive.1, rfl, hlive.2⟩, hp⟩

/-- Of a project with members, one can become the owner, the user being deleted. -/
theorem findAdminForProject_isSome {project : ℕ} (h : s.membersOf project ≠ []) (hlive : ¬ s.Live user) :
    (findAdminForProject s project user).isSome = true := by
  obtain ⟨u, hu⟩ := List.exists_mem_of_ne_nil _ h
  obtain ⟨husers, hnone⟩ := mem_membersOf hu
  have hne : u.id ≠ user := fun hid => hlive ⟨u, husers, hid, hnone⟩
  have hfound : ((s.membersOf project).find? fun u => u.id != user).isSome = true :=
    List.find?_isSome.mpr ⟨u, hu, bne_iff_ne.mpr hne⟩
  simp only [findAdminForProject, Option.isSome_or, hfound, Bool.or_true]

/-- A project without members goes; any other gets an owner who is not deleted. -/
theorem handleProject_cases (now : Time) (p : Project) (hlive : ¬ s.Live user) :
    (s.membersOf p.id = [] ∧ handleProject now user s p = s.forceDeleteProject p.id) ∨
    s.membersOf p.id ≠ [] ∧
      ∃ admin, s.Live admin ∧ admin ≠ user ∧ handleProject now user s p = transfer s p.id admin now := by
  by_cases h : s.membersOf p.id = []
  · exact .inl ⟨h, by simp [handleProject, permanentDeleteProject, h]⟩
  · obtain ⟨admin, hadmin⟩ := Option.isSome_iff_exists.mp (findAdminForProject_isSome h hlive)
    obtain ⟨hl, hne⟩ := of_findAdminForProject hadmin
    exact .inr ⟨h, admin.id, hl, hne, by simp [handleProject, permanentDeleteProject, h, hadmin, transfer]⟩

theorem mem_transfer {project admin : ℕ} {b : Project} : b ∈ (transfer s project admin now).projects ↔
    ∃ q ∈ s.projects, (if q.id = project then { q with userId := admin, deletedAt := some now } else q) = b := by
  rw [transfer_projects, Table.mem_updateWhere]
  simp only [beq_iff_eq]

/-- The other projects are left alone. -/
theorem mem_handleProject (hlive : ¬ s.Live user) {b : Project} (hb : b.id ≠ p.id) :
    b ∈ (handleProject now user s p).projects ↔ b ∈ s.projects := by
  rcases handleProject_cases now p hlive with ⟨-, h⟩ | ⟨-, admin, -, -, h⟩
  · simp [h, forceDeleteProject, mem_deleteProjects, hb]
  · rw [h, mem_transfer]
    constructor
    · rintro ⟨q, hq, rfl⟩
      split at hb
      · rename_i hid
        exact absurd hid hb
      · rename_i hid
        rwa [if_neg hid]
    · exact fun hmem => ⟨b, hmem, if_neg hb⟩

/-- The project is no longer the user's. -/
theorem owner_handleProject (hlive : ¬ s.Live user) {b : Project} (hb : b ∈ (handleProject now user s p).projects)
    (hid : b.id = p.id) : b.userId ≠ user := by
  rcases handleProject_cases now p hlive with ⟨-, h⟩ | ⟨-, admin, -, hne, h⟩
  · rw [h, forceDeleteProject, mem_deleteProjects] at hb
    simp [hid] at hb
  · rw [h, mem_transfer] at hb
    obtain ⟨q, -, rfl⟩ := hb
    split
    · exact hne
    · rename_i hq
      rw [if_neg hq] at hid
      exact absurd hid hq

theorem wellFormed_handleProject (now : Time) (p : Project) (hs : s.WellFormed) (hlive : ¬ s.Live user) :
    (handleProject now user s p).WellFormed := by
  rcases handleProject_cases now p hlive with ⟨-, h⟩ | ⟨-, admin, ⟨u, hu, hid, -⟩, -, h⟩
  · rw [h]
    exact hs.deleteProjects _
  · rw [h]
    have howner : (s.saveOwner p.id admin).WellFormed :=
      hs.updateProjects (f := fun p => { p with userId := admin }) (fun _ => rfl) fun _ _ _ => ⟨u, hu, hid⟩
    exact howner.updateProjects (f := fun p => { p with deletedAt := some now }) (fun _ => rfl) fun q hq _ =>
      howner.owners q hq

variable {gone : ℕ → Prop}

theorem keeps_forceDeleteProject (hs : s.WellFormed) (hp : p ∈ s.projects) (hgone : gone p.userId)
    (hmembers : s.membersOf p.id = []) : Keeps gone s (s.forceDeleteProject p.id) where
  users _ h := h
  live _ h := h
  ids q hq := ⟨q, (mem_deleteProjects.mp hq).1, rfl⟩
  members m hm _ hq := by
    obtain ⟨q, hq, hid⟩ := hq
    have hne : q.id ≠ p.id := by simpa using (mem_deleteProjects.mp hq).2
    refine List.mem_filter.mpr ⟨hm, ?_⟩
    simp only [Bool.not_eq_true', List.any_eq_false, Bool.and_eq_true, beq_iff_eq, not_and]
    exact fun r _ hr hrm => hne (hid.trans (hrm.symm.trans hr))
  others q hq hne := by
    refine mem_deleteProjects.mpr ⟨hq, beq_eq_false_iff_ne.mpr fun hid => hne ?_⟩
    rwa [hs.project_eq hq hp hid]
  shared q hq hshared := by
    refine ⟨q, mem_deleteProjects.mpr ⟨hq, beq_eq_false_iff_ne.mpr fun hid => ?_⟩, rfl, .inl rfl⟩
    obtain ⟨m, hm, hmq, hlive, -⟩ := hshared
    exact membersOf_ne_nil.mpr ⟨m, hm, hmq.trans hid, hlive⟩ hmembers

theorem keeps_transfer (hs : s.WellFormed) (hp : p ∈ s.projects) (hgone : gone p.userId) {admin : ℕ}
    (hlive : s.Live admin) : Keeps gone s (transfer s p.id admin now) where
  users _ h := h
  live _ h := h
  ids b hb := by
    obtain ⟨q, hq, rfl⟩ := mem_transfer.mp hb
    exact ⟨q, hq, by split <;> rfl⟩
  members m hm _ _ := hm
  others q hq hne := by
    refine mem_transfer.mpr ⟨q, hq, if_neg fun hid => hne ?_⟩
    rwa [hs.project_eq hq hp hid]
  shared q hq _ := by
    refine ⟨_, mem_transfer.mpr ⟨q, hq, rfl⟩, ?_⟩
    split
    · exact ⟨rfl, .inr hlive⟩
    · exact ⟨rfl, .inl rfl⟩

theorem keeps_handleProject (now : Time) (hs : s.WellFormed) (hlive : ¬ s.Live user) (hgone : gone user)
    (hp : p ∈ ownedBy user s) : Keeps gone s (handleProject now user s p) := by
  obtain ⟨hp, howner⟩ := List.mem_filter.mp hp
  have hgone : gone p.userId := beq_iff_eq.mp howner ▸ hgone
  rcases handleProject_cases now p hlive with ⟨hmembers, h⟩ | ⟨-, admin, hadmin, -, h⟩
  · rw [h]
    exact keeps_forceDeleteProject hs hp hgone hmembers
  · rw [h]
    exact keeps_transfer hs hp hgone hadmin

/-! ### One user -/

/-- What holds while the projects of a user are walked, from `s₀` on. -/
structure Walking (gone : ℕ → Prop) (s₀ t : Db) : Prop where
  wellFormed : t.WellFormed
  keeps : Keeps gone s₀ t
  users : t.users = s₀.users
  members : ∀ m ∈ t.members, m ∈ s₀.members
  /-- A project without members keeps its owner, as long as it is there. -/
  owners : ∀ p ∈ s₀.projects, s₀.membersOf p.id = [] → ∀ q ∈ t.projects, q.id = p.id → q.userId = p.userId
  dispatched : t.dispatched = s₀.dispatched

theorem Walking.start (hs : s.WellFormed) : Walking gone s s where
  wellFormed := hs
  keeps := Keeps.refl s
  users := rfl
  members _ h := h
  owners _ hp _ _ hq hid := congrArg _ (hs.project_eq hq hp hid)
  dispatched := rfl

/-- A project that has no members has none later. -/
theorem Walking.membersOf {s₀ t : Db} (h : Walking gone s₀ t) {project : ℕ} (hnone : s₀.membersOf project = []) :
    t.membersOf project = [] := by
  by_contra hne
  obtain ⟨m, hm, hid, hlive⟩ := membersOf_ne_nil.mp hne
  exact membersOf_ne_nil.mpr ⟨m, h.members m hm, hid, h.keeps.live_iff.mp hlive⟩ hnone

theorem Walking.handleProject {s₀ t : Db} (h : Walking gone s₀ t) (hlive : ¬ s₀.Live user) (hgone : gone user)
    (hdisjoint : ∀ x, s₀.Live x → ¬ gone x) (hp : p ∈ ownedBy user t) :
    Walking gone s₀ (handleProject now user t p) := by
  have hl : ¬ t.Live user := fun hx => hlive (h.keeps.live_iff.mp hx)
  have hkeeps := h.keeps.trans (keeps_handleProject now h.wellFormed hl hgone hp) hdisjoint
  have hwf := wellFormed_handleProject now p h.wellFormed hl
  rcases handleProject_cases now p hl with ⟨-, heq⟩ | ⟨hmembers, admin, -, -, heq⟩
  · rw [heq] at hkeeps hwf ⊢
    exact ⟨hwf, hkeeps, h.users, fun m hm => h.members m (List.mem_filter.mp hm).1,
      fun q hq hnone r hr => h.owners q hq hnone r (mem_deleteProjects.mp hr).1, h.dispatched⟩
  · rw [heq] at hkeeps hwf ⊢
    refine ⟨hwf, hkeeps, h.users, h.members, fun q hq hnone r hr hid => ?_, h.dispatched⟩
    obtain ⟨r', hr', rfl⟩ := mem_transfer.mp hr
    by_cases hrp : r'.id = p.id
    · rw [if_pos hrp] at hid
      exact absurd (hrp ▸ hid ▸ h.membersOf hnone) hmembers
    · rw [if_neg hrp] at hid ⊢
      exact h.owners q hq hnone r' hr' hid

theorem walk_ownedBy (now : Time) {s₀ : Db} (hlive : ¬ s₀.Live user) (hgone : gone user)
    (hdisjoint : ∀ x, s₀.Live x → ¬ gone x) :
    Walk Project.id (Walking gone s₀) (ownedBy user) (handleProject now user) where
  nodup t ht := ht.wellFormed.projects.sublist (List.filter_sublist.map _)
  step t p ht hp := ht.handleProject hlive hgone hdisjoint hp
  later t p b ht _ hlt := by
    have hl : ¬ t.Live user := fun h => hlive (ht.keeps.live_iff.mp h)
    simp only [ownedBy, List.mem_filter, mem_handleProject hl hlt.ne']

/-- The projects of the user go with the row. -/
theorem mem_forceDeleteUser {b : Project} :
    b ∈ (s.forceDeleteUser user now).projects ↔ b ∈ s.projects ∧ b.userId ≠ user := by
  simp only [forceDeleteUser, deleteUserRow, mem_deleteProjects, Table.mem_updateWhere, beq_eq_false_iff_ne]
  constructor
  · rintro ⟨⟨q, hq, rfl⟩, hne⟩
    split at hne
    · rename_i hcond
      simp only [Bool.and_eq_true, beq_iff_eq] at hcond
      exact absurd hcond.1 hne
    · rename_i hcond
      rw [if_neg hcond]
      exact ⟨hq, hne⟩
  · exact fun ⟨hb, hne⟩ => ⟨⟨b, hb, by simp [hne]⟩, hne⟩

theorem mem_members_forceDeleteUser {m : Member} (hm : m ∈ s.members) (hne : m.userId ≠ user)
    (hp : ∀ p ∈ s.projects, p.id = m.projectId → p.userId ≠ user) : m ∈ (s.forceDeleteUser user now).members := by
  refine List.mem_filter.mpr ⟨List.mem_filter.mpr ⟨hm, ?_⟩, bne_iff_ne.mpr hne⟩
  simp only [Bool.not_eq_true', List.any_eq_false, Bool.and_eq_true, beq_iff_eq, not_and]
  intro p hpmem howner hid
  obtain ⟨q, hq, rfl⟩ := Table.mem_updateWhere.mp hpmem
  split at howner <;> split at hid
  all_goals exact hp q hq hid howner

theorem live_forceDeleteUser {x : ℕ} (hlive : ¬ s.Live user) (hx : s.Live x) : (s.forceDeleteUser user now).Live x := by
  obtain ⟨u, hu, hid, hnone⟩ := hx
  exact ⟨u, List.mem_filter.mpr ⟨hu, bne_iff_ne.mpr fun h => hlive ⟨u, hu, h, hnone⟩⟩, hid, hnone⟩

/-- Nothing is left for the foreign key to take along. -/
theorem keeps_forceDeleteUser (now : Time) (hlive : ¬ s.Live user) (hnone : ownedBy user s = []) :
    Keeps gone s (s.forceDeleteUser user now) := by
  have hne : ∀ p ∈ s.projects, p.userId ≠ user := fun p hp => by
    simpa using List.filter_eq_nil_iff.mp hnone p hp
  exact {
    users := fun u hu => (List.mem_filter.mp hu).1
    live := fun x => live_forceDeleteUser hlive
    ids := fun p hp => ⟨p, (mem_forceDeleteUser.mp hp).1, rfl⟩
    members := fun m hm hml _ =>
      mem_members_forceDeleteUser hm (fun h => hlive (h ▸ hml)) fun p hp _ => hne p hp
    others := fun p hp _ => mem_forceDeleteUser.mpr ⟨hp, hne p hp⟩
    shared := fun p hp _ => ⟨p, mem_forceDeleteUser.mpr ⟨hp, hne p hp⟩, rfl, .inl rfl⟩ }

/-- When the projects of the user have been walked, none is the user's. -/
theorem walk_done (now : Time) (gone : ℕ → Prop) {u : User} (hs : s.WellFormed) (hlive : ¬ s.Live u.id)
    (hgone : gone u.id)
    (hdisjoint : ∀ x, s.Live x → ¬ gone x) :
    ∃ t, Walking gone s t ∧ ownedBy u.id t = [] ∧ handleUserProjects now s u = t.forceDeleteUser u.id now := by
  have W := walk_ownedBy now hlive hgone hdisjoint
  have hstart : Walking gone s s := Walking.start hs
  refine ⟨_, W.invariant (show 0 < 50 by decide) hstart, ?_, rfl⟩
  refine W.consumed (show 0 < 50 by decide) hstart fun t p b ht hp hb => ?_
  have hl : ¬ t.Live u.id := fun h => hlive (ht.keeps.live_iff.mp h)
  obtain ⟨hb, howner⟩ := List.mem_filter.mp hb
  have hne : b.id ≠ p.id := fun hid => owner_handleProject hl hb hid (beq_iff_eq.mp howner)
  exact ⟨List.mem_filter.mpr ⟨(mem_handleProject hl hne).mp hb, howner⟩, fun h => hne (congrArg _ h)⟩

/-- The projects of the user are walked, and then the row is deleted. -/
theorem keeps_handleUserProjects (now : Time) (gone : ℕ → Prop) {u : User} (hs : s.WellFormed)
    (hlive : ¬ s.Live u.id) (hgone : gone u.id)
    (hdisjoint : ∀ x, s.Live x → ¬ gone x) : (handleUserProjects now s u).WellFormed ∧
    Keeps gone s (handleUserProjects now s u) ∧
    (handleUserProjects now s u).users = s.users.filter fun v => v.id != u.id := by
  obtain ⟨t, ht, hempty, heq⟩ := walk_done now gone hs hlive hgone hdisjoint
  have hk : Keeps gone t _ := keeps_forceDeleteUser now (fun h => hlive (ht.keeps.live_iff.mp h)) hempty
  rw [heq]
  exact ⟨ht.wellFormed.forceDeleteUser _ _, ht.keeps.trans hk hdisjoint, congrArg (List.filter _) ht.users⟩

/-! ### All users -/

/-- The users that the purge removes. -/
def Expired (now : Time) (s : Db) (user : ℕ) : Prop := ∃ u ∈ expiredUsers now s, u.id = user

theorem not_live_of_expired (hs : s.WellFormed) (h : Expired now s user) : ¬ s.Live user := by
  obtain ⟨u, hu, rfl⟩ := h
  obtain ⟨hu, hexp⟩ := List.mem_filter.mp hu
  rintro ⟨v, hv, hid, hnone⟩
  rw [hs.user_eq hv hu hid] at hnone
  simp [User.expired, hnone] at hexp

theorem Keeps.expired {s₀ t : Db} (h : Keeps gone s₀ t) {u : User} (hu : u ∈ expiredUsers now t) :
    Expired now s₀ u.id := by
  obtain ⟨hu, hexp⟩ := List.mem_filter.mp hu
  exact ⟨u, List.mem_filter.mpr ⟨h.users u hu, hexp⟩, rfl⟩

/-- One expired user, along the walk. -/
theorem step_handleUserProjects {s₀ t : Db} (hs : s₀.WellFormed)
    (ht : t.WellFormed ∧ Keeps (Expired now s₀) s₀ t) {u : User}
    (hu : u ∈ expiredUsers now t) : (handleUserProjects now t u).WellFormed ∧
    Keeps (Expired now s₀) t (handleUserProjects now t u) ∧
    (handleUserProjects now t u).users = t.users.filter fun v => v.id != u.id :=
  keeps_handleUserProjects now _ ht.1 (not_live_of_expired ht.1 ⟨u, hu, rfl⟩) (ht.2.expired hu) fun _ hx hexp =>
    not_live_of_expired hs hexp (ht.2.live_iff.mp hx)

theorem mem_expiredUsers {s₀ t : Db} (hs : s₀.WellFormed) (ht : t.WellFormed ∧ Keeps (Expired now s₀) s₀ t) {u v : User}
    (hu : u ∈ expiredUsers now t) :
    v ∈ expiredUsers now (handleUserProjects now t u) ↔ v ∈ expiredUsers now t ∧ v.id ≠ u.id := by
  simp only [expiredUsers, (step_handleUserProjects hs ht hu).2.2, List.mem_filter, bne_iff_ne]
  tauto

theorem walk_expiredUsers (now : Time) {s₀ : Db} (hs : s₀.WellFormed) : Walk User.id
    (fun t => t.WellFormed ∧ Keeps (Expired now s₀) s₀ t) (expiredUsers now) (handleUserProjects now) where
  nodup t ht := ht.1.users.sublist (List.filter_sublist.map _)
  step t u ht hu := by
    obtain ⟨hwf, hk, -⟩ := step_handleUserProjects hs ht hu
    exact ⟨hwf, ht.2.trans hk fun _ hx hexp => not_live_of_expired hs hexp hx⟩
  later t u v ht hu hlt := by
    rw [mem_expiredUsers hs ht hu]
    exact and_iff_left hlt.ne'

/-- The purge removes the users that have expired, and keeps the rest. -/
theorem keeps_purge (now : Time) (hs : s.WellFormed) : (purge now s).WellFormed ∧ Keeps (Expired now s) s (purge now s) ∧
    expiredUsers now (purge now s) = [] := by
  have W := walk_expiredUsers now hs
  have hstart : s.WellFormed ∧ Keeps (Expired now s) s s := ⟨hs, Keeps.refl s⟩
  obtain ⟨hwf, hk⟩ := W.invariant (show 0 < 50 by decide) hstart
  refine ⟨hwf, hk, W.consumed (show 0 < 50 by decide) hstart fun t u v ht hu hv => ?_⟩
  obtain ⟨hv, hne⟩ := (mem_expiredUsers hs ht hu).mp hv
  exact ⟨hv, fun h => hne (congrArg _ h)⟩

theorem kept_purge (hs : s.WellFormed) : Kept s (purge now s) := by
  obtain ⟨hwf, hk, hnone⟩ := keeps_purge now hs
  constructor
  · intro p hp hremoved hshared
    obtain ⟨p', hp', hid, howner | hlive⟩ := hk.shared p hp hshared
    · obtain ⟨u, hu, huid⟩ := hwf.owners p' hp'
      exact absurd (huid.trans howner) (hremoved.2 u hu)
    · exact ⟨p', hp', hid, hlive⟩
  · intro p hp hkept
    refine hk.others p hp fun hexp => hkept ⟨hs.owners p hp, fun u hu huid => ?_⟩
    obtain ⟨v, hv, hvid⟩ := hexp
    obtain ⟨hv, hvexp⟩ := List.mem_filter.mp hv
    have huv := hs.user_eq (hk.users u hu) hv (huid.trans hvid.symm)
    have hmem : u ∈ expiredUsers now (purge now s) := List.mem_filter.mpr ⟨hu, huv ▸ hvexp⟩
    rw [hnone] at hmem
    cases hmem

/-! ### Which removals keep shared projects -/

/-- The controller deletes the row of a user who is deleted and whom the actor may
delete; otherwise it changes nothing. -/
theorem forceDelete_cases (now : Time) (hs : s.WellFormed) (actor : User) :
    ((forceDelete actor user now s).2 = s ∧
      ∀ target ∈ s.users, target.id = user → owner actor target = true → target.trashed = false) ∨
    ∃ target ∈ s.users, target.id = user ∧ owner actor target = true ∧ target.trashed = true ∧
      (forceDelete actor user now s).2 = s.forceDeleteUser user now := by
  unfold forceDelete
  split
  · rename_i hnone
    refine .inl ⟨rfl, fun target ht hid => ?_⟩
    simpa [hid] using List.find?_eq_none.mp hnone target ht
  · rename_i target hfound
    have ht := List.mem_of_find?_eq_some hfound
    have hid : target.id = user := by simpa using List.find?_some hfound
    have only : ∀ t ∈ s.users, t.id = user → t = target := fun t htu h => hs.user_eq htu ht (h.trans hid.symm)
    by_cases howner : owner actor target = true
    · by_cases htrashed : target.trashed = true
      · exact .inr ⟨target, ht, hid, howner, htrashed, by simp [howner, htrashed, hid]⟩
      · refine .inl ⟨by simp [howner, htrashed], fun t htu h _ => ?_⟩
        rw [only t htu h]
        simpa using htrashed
    · refine .inl ⟨by simp [howner], fun t htu h ho => ?_⟩
      rw [only t htu h] at ho
      exact absurd ho howner

theorem removed_forceDeleteUser (hlive : ∃ u ∈ s.users, u.id = user) :
    Removed s (s.forceDeleteUser user now) user :=
  ⟨hlive, fun _ hu => bne_iff_ne.mp (List.mem_filter.mp hu).2⟩

/-- The row of the user is deleted: exactly the projects of the user go. -/
theorem kept_forceDeleteUser_iff (hs : s.WellFormed) (huser : ∃ u ∈ s.users, u.id = user) :
    Kept s (s.forceDeleteUser user now) ↔ ∀ p ∈ s.projects, p.userId = user → ¬ Shared s p := by
  constructor
  · intro h p hp howner hshared
    have hremoved : Removed s (s.forceDeleteUser user now) p.userId := by
      rw [howner]
      exact removed_forceDeleteUser huser
    obtain ⟨p', hp', hid, -⟩ := h.shared p hp hremoved hshared
    obtain ⟨hp', hne⟩ := mem_forceDeleteUser.mp hp'
    rw [hs.project_eq hp' hp hid] at hne
    exact hne howner
  · intro h
    constructor
    · rintro p hp ⟨⟨u, hu, huid⟩, hgone⟩ hshared
      have howner : p.userId = user := by
        by_contra hne
        exact hgone u (List.mem_filter.mpr ⟨hu, bne_iff_ne.mpr (huid ▸ hne)⟩) huid
      exact absurd hshared (h p hp howner)
    · intro p hp hkept
      refine mem_forceDeleteUser.mpr ⟨hp, fun howner => hkept ?_⟩
      rw [howner]
      exact removed_forceDeleteUser huser

/-- Shared projects are kept exactly if the owner is removed by the purge, or owns none. -/
theorem kept_iff (hs : s.WellFormed) (w : Way) : Kept s (w.run s) ↔ Spares s w := by
  cases w with
  | purge now => exact iff_of_true (kept_purge hs) trivial
  | forceDelete actor user now =>
    simp only [Way.run, Spares]
    rcases forceDelete_cases now hs actor with ⟨h, hnot⟩ | ⟨target, ht, hid, howner, htrashed, h⟩
    · rw [h]
      refine iff_of_true ⟨fun p hp hremoved => ?_, fun p hp _ => hp⟩ fun target ht hid howner htrashed => ?_
      · obtain ⟨u, hu, huid⟩ := hremoved.1
        exact absurd huid (hremoved.2 u hu)
      · rw [hnot target ht hid howner] at htrashed
        cases htrashed
    · rw [h, kept_forceDeleteUser_iff hs ⟨target, ht, hid⟩]
      exact ⟨fun h _ _ _ _ _ => h, fun h => h target ht hid howner htrashed⟩

namespace Sample

/-- Ada (1) has deleted her account and shares a project with Ben (2); Cleo (3) is an
administrator. -/
def db : Db where
  users := [⟨1, false, some 0⟩, ⟨2, false, none⟩, ⟨3, true, none⟩]
  projects := [⟨1, 1, some 0⟩, ⟨2, 1, some 0⟩]
  members := [⟨1, 2, true⟩]
  meetings := []
  dispatched := []

theorem wellFormed_db : db.WellFormed := by
  constructor <;> decide

end Sample

/-- Cleo deletes Ada's account for good: the project she shares with Ben is gone. -/
theorem shared_project_destroyed : ∃ s w, s.WellFormed ∧ ¬ Kept s (Way.run s w) ∧ (Way.run s w).projects = [] := by
  refine ⟨Sample.db, .forceDelete ⟨3, true, none⟩ 1 0, Sample.wellFormed_db, fun h => ?_, rfl⟩
  obtain ⟨p, hp, -⟩ := h.shared ⟨1, 1, some 0⟩ (by decide) ⟨⟨⟨1, false, some 0⟩, by decide, rfl⟩, by decide⟩
    ⟨⟨1, 2, true⟩, by decide, rfl, ⟨⟨2, false, none⟩, by decide, rfl, rfl⟩, by decide⟩
  cases hp

/-- The purge makes Cleo its owner, and archives it. -/
theorem shared_project_kept : (purge (days 16) Sample.db).projects = [⟨1, 3, some (days 16)⟩] ∧
    Kept Sample.db (Way.run Sample.db (.purge (days 16))) :=
  ⟨by decide, (kept_iff Sample.wellFormed_db (.purge (days 16))).mpr trivial⟩

end Removal
end Daywright
