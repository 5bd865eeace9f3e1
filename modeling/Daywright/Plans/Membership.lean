/-
# The members of a project

A user comes into a project by an invitation that is accepted, and out of it when the
owner removes them; an invitation that is pending is cancelled by the owner or rejected by
the user. Inviting, accepting and removing run under the lock of the project; cancelling
and rejecting are one `detach` each, without a lock, whatever the standing of the member
by then. Accepting and removing write to the audit log, in their transactions.

A user has at most one row in a project, which is there and is not their own (`Sound`): the
unique index of `project_members` on project and user is never run into. Under the lock
what a transaction has decided on is not undone by another before it writes it, but for
rows that are taken away (`Applies`).

Key definitions: `Data`, `Request`, `membershipService`, `standing`, `entries`.
Key theorems: `standing_write_of_ne`, `standing_statement`, `isProtected`.
-/
import Daywright.Plans.Limit

namespace Daywright
namespace Membership

open Guard Plans

/-! ### The service -/

/-- A row of `audit_logs` about a member of a project. -/
structure AuditLog where
  event : String
  auditableId : ℕ
  memberId : ℕ
  oldActive : Bool
  newActive : Bool
  deriving DecidableEq, Repr

/-- The tables; of the audit log, the rows about members, the oldest first. -/
structure Data where
  plans : Plans.Data
  auditLogs : List AuditLog

inductive Request where
  | plan (q : Plans.Request)
  | removeMember (project user : ℕ)

inductive Write where
  | plan (w : Plans.Write)
  | removeMember (project user : ℕ)
  deriving DecidableEq

/-- A user that an address finds has an account that is not deleted. -/
structure Accounts extends Env where
  active_of_found : ∀ {email : String} {user : ℕ}, userByEmail email = some user → active user = true

variable (E : Accounts)

def refuse (d : Data) : Request → Option Refusal
  | .plan q => Plans.refuse E.toEnv d.plans q
  | .removeMember _ _ => none

def lock (d : Data) : Request → Except Refusal (List Row)
  | .plan q => Plans.lock E.toEnv d.plans q
  | .removeMember project _ => lockProject d.plans project

def check (d : Data) (q : Request) (rows : List Row) : Option Refusal :=
  match q with
  | .plan q => Plans.check E.toEnv d.plans q rows
  | .removeMember _ _ => none

def callback (d : Data) : Request → Except Refusal Write
  | .plan q => (Plans.callback E.toEnv d.plans q).map .plan
  | .removeMember project user =>
    match d.plans.membership E.toEnv project user with
    | none => .ok (.plan .nothing)
    | some m =>
      if m.active then .ok (.removeMember project user)
      else .error (.validation "user" "This user is not an active member of the project.")

/-- What is logged with a write. -/
def Write.logged : Write → List AuditLog
  | .plan (.activate project user) => [⟨"security.project_member_added", project, user, false, true⟩]
  | .removeMember project user => [⟨"security.project_member_removed", project, user, true, false⟩]
  | _ => []

def Write.plans (d : Plans.Data) : Write → Plans.Data
  | .plan w => Plans.write d w
  | .removeMember project user => d.detach project user

def write (d : Data) (w : Write) : Data := ⟨w.plans d.plans, d.auditLogs ++ w.logged⟩

def membershipService : Service Data Row Request Write Statement Refusal where
  refuse := refuse E
  lock := lock E
  check := check E
  callback := callback E
  write := write
  refuseStatement d f := Plans.refuseStatement d.plans f
  statement d f := { d with plans := Plans.statement d.plans f }
  rows := statementRows

abbrev MemberStore := Store Data Row Request Write

abbrev MemberPoint := Point Request Write Statement Refusal

/-! ### The standing of a user in a project -/

/-- The row is the one of this user in this project. -/
def isOf (project user : ℕ) (m : Member) : Bool := m.projectId == project && m.userId == user

/-- `none`: no member; else whether the membership is active. -/
def standing (d : Plans.Data) (project user : ℕ) : Option Bool := (d.members.find? (isOf project user)).map (·.active)

/-- What the audit log says, one after the other: the user is a member, or not any longer. -/
def entries (d : Data) (project user : ℕ) : List Bool :=
  (d.auditLogs.filter fun a => a.auditableId == project && a.memberId == user).map (·.newActive)

/-- The project whose members a write writes. -/
def Write.project : Write → Option ℕ
  | .plan (.invite project _) | .plan (.activate project _) | .removeMember project _ => some project
  | _ => none

/-- The rows of members: each of a project that is there and of a user who does not own it. -/
structure Sound (d : Plans.Data) : Prop where
  wellFormed : d.WellFormed
  project : ∀ m ∈ d.members, ∃ p ∈ d.projects, p.id = m.projectId
  owner : ∀ m ∈ d.members, ∀ p ∈ d.projects, p.id = m.projectId → p.userId ≠ m.userId

/-- What a transaction that has decided on a write may rely on until it makes it. -/
def Applies (d : Plans.Data) : Write → Prop
  | .plan (.invite project user) =>
    standing d project user = none ∧ ∀ p ∈ d.projects, p.id = project → p.userId ≠ user
  | .plan (.activate project user) => standing d project user ≠ some true
  | .removeMember project user => standing d project user ≠ some false
  | _ => True

section Standing

variable {d : Plans.Data} {project user p u : ℕ}

theorem isOf_iff {m : Member} : isOf project user m = true ↔ m.projectId = project ∧ m.userId = user := by
  rw [isOf, Bool.and_eq_true, beq_iff_eq, beq_iff_eq]

theorem isOf_eq_false {m : Member} (h : isOf p u m = true) (hne : ¬ (project = p ∧ user = u)) :
    isOf project user m = false := by
  rw [isOf_iff] at h
  refine Bool.eq_false_iff.mpr fun h' => hne ?_
  rw [isOf_iff] at h'
  exact ⟨h'.1.symm.trans h.1, h'.2.symm.trans h.2⟩

theorem standing_congr {d' : Plans.Data} (h : d'.members = d.members) : standing d' p u = standing d p u := by
  rw [standing, standing, h]

theorem standing_eq_none : standing d p u = none ↔ ∀ m ∈ d.members, isOf p u m = false := by
  rw [standing, Option.map_eq_none_iff, List.find?_eq_none]
  exact forall₂_congr fun m _ => Bool.not_eq_true _ ▸ Iff.rfl

/-- Where a row is found, there is the standing of its user. -/
theorem exists_of_standing {b : Bool} (h : standing d p u = some b) :
    ∃ m ∈ d.members, m.projectId = p ∧ m.userId = u ∧ m.active = b := by
  obtain ⟨m, hm, hb⟩ := Option.map_eq_some_iff.mp h
  obtain ⟨hp, hu⟩ := isOf_iff.mp (List.find?_some hm)
  exact ⟨m, List.mem_of_find?_eq_some hm, hp, hu, hb⟩

/-- What `members()` finds of a user whose account is there. -/
theorem membership_eq (E : Env) (hu : E.active u = true) : d.membership E p u = d.members.find? (isOf p u) := by
  refine congrArg (fun q => List.find? q d.members) (funext fun m => ?_)
  by_cases hm : m.userId = u
  · rw [isOf, hm, hu, Bool.and_true]
  · rw [isOf, beq_eq_false_iff_ne.mpr hm, Bool.and_false, Bool.false_and]

theorem standing_of_membership (E : Env) {m : Member} (h : d.membership E p u = some m) :
    standing d p u = some m.active := by
  have hm := List.find?_some h
  simp only [Bool.and_eq_true, beq_iff_eq] at hm
  have hu : E.active u = true := hm.1.2 ▸ hm.2
  rw [membership_eq E hu] at h
  rw [standing, h, Option.map_some]

theorem standing_of_membership_none (E : Env) (hu : E.active u = true) (h : d.membership E p u = none) :
    standing d p u = none := by
  rw [membership_eq E hu] at h
  rw [standing, h, Option.map_none]

theorem standing_activate : standing (d.activate project user) p u =
    if p = project ∧ u = user then (standing d p u).map fun _ => true else standing d p u := by
  have hfind := Table.find?_updateWhere (p := isOf project user) (q := isOf p u)
    (f := fun m => { m with active := true }) (fun _ => rfl) d.members
  unfold standing
  rw [show (d.activate project user).members = Table.updateWhere (isOf project user)
    (fun m => { m with active := true }) d.members from rfl, hfind, Option.map_map]
  by_cases h : p = project ∧ u = user
  · obtain ⟨rfl, rfl⟩ := h
    rw [if_pos ⟨rfl, rfl⟩, Option.map_map]
    refine Option.map_congr fun m hm => ?_
    simp only [Function.comp_apply, List.find?_some hm, if_true]
  · rw [if_neg h]
    refine Option.map_congr fun m hm => ?_
    have hne := isOf_eq_false (List.find?_some hm) fun h' => h ⟨h'.1.symm, h'.2.symm⟩
    simp only [Function.comp_apply, hne, Bool.false_eq_true, if_false]

theorem standing_detach : standing (d.detach project user) p u =
    if p = project ∧ u = user then none else standing d p u := by
  unfold standing
  rw [show (d.detach project user).members = d.members.filter fun m => !isOf project user m from rfl, List.find?_filter]
  by_cases h : p = project ∧ u = user
  · obtain ⟨rfl, rfl⟩ := h
    rw [if_pos ⟨rfl, rfl⟩, Option.map_eq_none_iff, List.find?_eq_none]
    intro m _
    simp
  · rw [if_neg h]
    refine congrArg _ (congrArg (fun q => List.find? q d.members) (funext fun m => ?_))
    by_cases hm : isOf p u m = true
    · rw [hm, isOf_eq_false hm fun h' => h ⟨h'.1.symm, h'.2.symm⟩]
      rfl
    · simp [hm]

theorem standing_removeProject : standing (d.removeProject project) p u =
    if p = project then none else standing d p u := by
  unfold standing
  rw [show (d.removeProject project).members = d.members.filter fun m => m.projectId != project from rfl,
    List.find?_filter]
  by_cases h : p = project
  · rw [if_pos h, Option.map_eq_none_iff, List.find?_eq_none]
    intro m _
    simp only [isOf, h, Bool.and_eq_true, bne_iff_ne, beq_iff_eq, decide_eq_true_eq]
    exact fun h' => h'.1 h'.2.1
  · rw [if_neg h]
    refine congrArg _ (congrArg (fun q => List.find? q d.members) (funext fun m => ?_))
    by_cases hm : isOf p u m = true
    · have hne : (m.projectId != project) = true := bne_iff_ne.mpr fun h' => h ((isOf_iff.mp hm).1.symm.trans h')
      simp [hm, hne]
    · simp [hm]

/-- An invitation of a user who has no row yet. -/
theorem standing_invite (hnew : standing d project user = none) : standing (d.invite project user) p u =
    if p = project ∧ u = user then some false else standing d p u := by
  have hany : (d.members.any (isOf project user)) = false :=
    List.any_eq_false.mpr fun m hm => by rw [standing_eq_none.mp hnew m hm]; exact Bool.false_ne_true
  have hmembers : (d.invite project user).members = d.members ++ [⟨project, user, false⟩] := by
    rw [Plans.Data.invite, show (d.members.any fun m => m.projectId == project && m.userId == user) = false from hany]
    rfl
  unfold standing at hnew ⊢
  rw [hmembers, List.find?_append]
  by_cases h : p = project ∧ u = user
  · obtain ⟨rfl, rfl⟩ := h
    rw [if_pos ⟨rfl, rfl⟩, Option.map_eq_none_iff.mp hnew]
    simp [isOf]
  · rw [if_neg h]
    have hlast : isOf p u ⟨project, user, false⟩ = false :=
      isOf_eq_false (isOf_iff.mpr ⟨rfl, rfl⟩) h
    simp [hlast]

theorem standing_invite_of_ne (h : p ≠ project) : standing (d.invite project user) p u = standing d p u := by
  have hne (m : Member) (hm : isOf p u m = true) : isOf project user m = false :=
    isOf_eq_false hm fun h' => h h'.1.symm
  unfold Plans.Data.invite
  split
  · have hfind := Table.find?_updateWhere (p := isOf project user) (q := isOf p u)
      (f := fun m => { m with active := false }) (fun _ => rfl) d.members
    change (List.find? (isOf p u) (Table.updateWhere (isOf project user) _ d.members)).map _ = _
    rw [hfind, Option.map_map, standing]
    refine Option.map_congr fun m hm => ?_
    simp only [Function.comp_apply, hne m (List.find?_some hm), Bool.false_eq_true, if_false]
  · change (List.find? (isOf p u) (d.members ++ [⟨project, user, false⟩])).map _ = _
    have hlast : isOf p u ⟨project, user, false⟩ = false :=
      isOf_eq_false (isOf_iff.mpr ⟨rfl, rfl⟩) fun h' => h h'.1
    rw [List.find?_append, List.find?_singleton, hlast, if_neg Bool.false_ne_true, Option.or_none, standing]

/-- A write changes the standing of members of one project only. -/
theorem standing_write_of_ne {w : Write} (h : w.project ≠ some p) : standing (w.plans d) p u = standing d p u := by
  cases w with
  | plan w =>
    cases w with
    | nothing | createProject | createTask | restoreTask => exact standing_congr rfl
    | invite project user => exact standing_invite_of_ne fun h' => h (congrArg some h'.symm)
    | activate project user =>
      rw [Write.plans, Plans.write, standing_activate, if_neg fun h' => h (congrArg some h'.1.symm)]
  | removeMember project user => rw [Write.plans, standing_detach, if_neg fun h' => h (congrArg some h'.1.symm)]

/-- A statement leaves a member where they stand, or takes the row away. -/
theorem standing_statement (f : Statement) :
    standing (Plans.statement d f) p u = standing d p u ∨ standing (Plans.statement d f) p u = none := by
  cases f with
  | deleteProject | restoreProject | archiveTask | deleteTask => exact .inl (standing_congr rfl)
  | forceDeleteProject project =>
    rw [Plans.statement, standing_removeProject]
    by_cases h : p = project
    · exact .inr (if_pos h)
    · exact .inl (if_neg h)
  | detach project user =>
    rw [Plans.statement, standing_detach]
    by_cases h : p = project ∧ u = user
    · exact .inr (if_pos h)
    · exact .inl (if_neg h)

end Standing

/-! ### The rows stay in order -/

section Sound

variable {d d' : Plans.Data}

/-- No row is added, and none loses its project. -/
theorem Sound.of_later (hs : Sound d) (hw : d'.WellFormed) (hl : Later d d')
    (members : ∀ m' ∈ d'.members, ∃ m ∈ d.members, m.projectId = m'.projectId ∧ m.userId = m'.userId)
    (kept : ∀ m' ∈ d'.members, ∀ p ∈ d.projects, p.id = m'.projectId → ∃ p' ∈ d'.projects, p'.id = p.id) :
    Sound d' where
  wellFormed := hw
  project m' hm' := by
    obtain ⟨m, hm, hp, -⟩ := members m' hm'
    obtain ⟨p, hpm, hid⟩ := hs.project m hm
    obtain ⟨p', hp', hid'⟩ := kept m' hm' p hpm (hid.trans hp)
    exact ⟨p', hp', hid'.trans (hid.trans hp)⟩
  owner m' hm' p' hp' hid := by
    obtain ⟨m, hm, hp, hu⟩ := members m' hm'
    have hlt : p'.id < d.nextProject := by
      rw [hid, ← hp]
      exact hs.wellFormed.memberProjects m hm
    obtain ⟨p, hpm, hpid, hpu⟩ := hl.owner p' hp' hlt
    rw [← hpu, ← hu]
    exact hs.owner m hm p hpm (hpid.trans (hid.trans hp.symm))

theorem mem_invite {m : Member} {project user : ℕ} (hnew : standing d project user = none)
    (h : m ∈ (d.invite project user).members) : m ∈ d.members ∨ m = ⟨project, user, false⟩ := by
  have hany : (d.members.any fun m => m.projectId == project && m.userId == user) = false :=
    List.any_eq_false.mpr fun m hm => by
      rw [← isOf, standing_eq_none.mp hnew m hm]
      exact Bool.false_ne_true
  rw [Plans.Data.invite, hany] at h
  rcases List.mem_append.mp h with h | h
  · exact .inl h
  · exact .inr (List.mem_singleton.mp h)

theorem Sound.invite {project user : ℕ} (hs : Sound d) (hp : ∃ p ∈ d.projects, p.id = project)
    (happ : Applies d (.plan (.invite project user))) (hw : (d.invite project user).WellFormed) :
    Sound (d.invite project user) := by
  have hprojects : (d.invite project user).projects = d.projects := by
    unfold Plans.Data.invite
    split <;> rfl
  refine ⟨hw, fun m hm => ?_, fun m hm p hpm hid => ?_⟩
  · rw [hprojects]
    rcases mem_invite happ.1 hm with hm | rfl
    · exact hs.project m hm
    · exact hp
  · rw [hprojects] at hpm
    rcases mem_invite happ.1 hm with hm | rfl
    · exact hs.owner m hm p hpm hid
    · exact happ.2 p hpm hid

/-- No write takes a project away. -/
theorem mem_projects_write {w : Write} {p : Project} (hp : p ∈ d.projects) : p ∈ (w.plans d).projects := by
  cases w with
  | plan w =>
    cases w with
    | nothing | createTask | restoreTask | activate => exact hp
    | createProject => exact List.mem_append_left _ hp
    | invite =>
      change p ∈ (Plans.Data.invite _ _ _).projects
      unfold Plans.Data.invite
      split <;> exact hp
  | removeMember => exact hp

theorem write_later (w : Write) : Later d (w.plans d) := by
  cases w with
  | plan w => exact Plans.write_later
  | removeMember => exact detach_shrinks.later

theorem wellFormed_write {w : Write} (hw : d.WellFormed)
    (hg : ∀ w', w = .plan w' → ∃ l, Grows d w' l) : (w.plans d).WellFormed := by
  cases w with
  | plan w =>
    obtain ⟨l, hl⟩ := hg w rfl
    exact write_wellFormed hw hl
  | removeMember => exact detach_shrinks.wellFormed hw

theorem Sound.write {w : Write} (hs : Sound d) (hg : ∀ w', w = .plan w' → ∃ l, Grows d w' l) (happ : Applies d w)
    (hp : ∀ project, w.project = some project → ∃ p ∈ d.projects, p.id = project) : Sound (w.plans d) := by
  have hw := wellFormed_write hs.wellFormed hg
  have of_members (h : ∀ m' ∈ (w.plans d).members, ∃ m ∈ d.members, m.projectId = m'.projectId ∧ m.userId = m'.userId) :
      Sound (w.plans d) :=
    hs.of_later hw (write_later w) h fun m' _ p hp _ => ⟨p, mem_projects_write hp, rfl⟩
  cases w with
  | plan w =>
    cases w with
    | nothing | createProject | createTask | restoreTask => exact of_members fun m hm => ⟨m, hm, rfl, rfl⟩
    | invite project user => exact hs.invite (hp project rfl) happ hw
    | activate project user =>
      refine of_members fun m' hm' => ?_
      obtain ⟨m, hm, rfl⟩ := Table.mem_updateWhere.mp hm'
      refine ⟨m, hm, ?_⟩
      split <;> exact ⟨rfl, rfl⟩
  | removeMember project user => exact of_members fun m hm => ⟨m, List.mem_of_mem_filter hm, rfl, rfl⟩

theorem Sound.statement {f : Statement} (hs : Sound d) : Sound (Plans.statement d f) := by
  have hshrinks : Shrinks d (Plans.statement d f) := statement_shrinks
  have hw := hshrinks.wellFormed hs.wellFormed
  have members (m' : Member) (hm' : m' ∈ (Plans.statement d f).members) :
      ∃ m ∈ d.members, m.projectId = m'.projectId ∧ m.userId = m'.userId := by
    obtain ⟨m, hm, he⟩ := List.mem_map.mp (hshrinks.members.subset (List.mem_map_of_mem hm'))
    exact ⟨m, hm, (Prod.mk.injEq .. ▸ he).1, (Prod.mk.injEq .. ▸ he).2⟩
  refine hs.of_later hw hshrinks.later members fun m' hm' p hp hid => ?_
  cases f with
  | archiveTask | deleteTask | detach => exact ⟨p, hp, rfl⟩
  | deleteProject project | restoreProject project =>
    refine ⟨_, Table.mem_updateWhere.mpr ⟨p, hp, rfl⟩, ?_⟩
    split <;> rfl
  | forceDeleteProject project =>
    have hne : (m'.projectId != project) = true := (List.mem_filter.mp hm').2
    exact ⟨p, List.mem_filter.mpr ⟨hp, hid ▸ hne⟩, rfl⟩

end Sound

/-! ### The outline -/

/-- What a request has seen of the task that it restores. -/
def Seen (d : Data) (x : Request ⊕ Statement) : Prop :=
  ∀ task project, x = .inl (.plan (.restoreTask task project)) → InProject d.plans task project

/-- A transaction's project is there and not archived; what it has decided on applies, and
is about this project. -/
structure Holds (d : Data) (tx : Tx Row Request Write) : Prop where
  live : ∀ project, Row.project project ∈ tx.keys → ∃ p ∈ d.plans.projects, p.id = project ∧ p.trashed = false
  asks : ∀ q, tx.request = .plan q → ∃ l, tx.keys = [l.row] ∧ Asks d.plans q l
  locked : ∀ project user, tx.request = .removeMember project user → tx.keys = [.project project]
  grows : ∀ w, tx.stage = .decided (.plan w) → ∃ l, Grows d.plans w l
  applies : ∀ w, tx.stage = .decided w → Applies d.plans w
  project : ∀ w, tx.stage = .decided w → ∀ project, w.project = some project → Row.project project ∈ tx.keys

section Outline

variable {E} {d : Data}

theorem lockProject_ok {d : Plans.Data} {project : ℕ} {ks : List Row} (h : lockProject d project = .ok ks) :
    ks = [.project project] ∧ ∃ p ∈ d.projects, p.id = project ∧ p.trashed = false := by
  unfold lockProject at h
  split at h <;> cases h
  rename_i hf
  obtain ⟨p, hf⟩ := Option.isSome_iff_exists.mp hf
  have hp := List.find?_some hf
  simp only [Bool.and_eq_true, beq_iff_eq, Bool.not_eq_true'] at hp
  exact ⟨rfl, p, List.mem_of_find?_eq_some hf, hp⟩

/-- Whatever a request locks is there. -/
theorem live_of_lock {d : Plans.Data} {q : Plans.Request} {ks : List Row} (h : Plans.lock E.toEnv d q = .ok ks)
    (project : ℕ) (hp : Row.project project ∈ ks) : ∃ p ∈ d.projects, p.id = project ∧ p.trashed = false := by
  have of_lock {p : ℕ} (h : lockProject d p = .ok ks) :
      ∃ p ∈ d.projects, p.id = project ∧ p.trashed = false := by
    obtain ⟨rfl, hlive⟩ := lockProject_ok h
    cases List.mem_singleton.mp hp
    exact hlive
  cases q with
  | createProject user data =>
    simp only [Plans.lock, lockUser] at h
    split at h <;> cases h
    cases List.mem_singleton.mp hp
  | createTask | restoreTask | sendInvitation | acceptInvitation => exact of_lock h

/-- What has been decided on is about the project whose row is locked. -/
theorem row_of_grows {d : Plans.Data} {w : Plans.Write} {l : Scope} (h : Grows d w l) {project : ℕ}
    (hp : (Write.plan w).project = some project) : l.row = .project project := by
  cases w with
  | nothing | createProject | createTask | restoreTask => cases hp
  | invite =>
    cases hp
    rw [h.1]
    rfl
  | activate =>
    cases hp
    rw [show l = _ from h]
    rfl

theorem applies_of_invite {d : Plans.Data} {project user : ℕ} {w : Plans.Write} (hw : d.WellFormed)
    (hlive : ∃ p ∈ d.projects, p.id = project ∧ p.trashed = false) (hu : E.active user = true)
    (h : inviteUser E.toEnv d project user = .ok w) : Applies d (.plan w) := by
  unfold inviteUser at h
  split at h
  · cases h
  · rename_i hnone
    split at h <;> cases h
    rename_i howner
    refine ⟨standing_of_membership_none E.toEnv hu (Option.not_isSome_iff_eq_none.mp hnone), fun p hp hid he => ?_⟩
    obtain ⟨p', hp', hid', htr⟩ := hlive
    obtain rfl : p = p' := List.inj_on_of_nodup_map hw.projects hp hp' (hid.trans hid'.symm)
    have hfind : d.findProject project = some p :=
      Table.find?_of_key hw.projects (fun r hr hq => by
        simp only [Bool.and_eq_true, beq_iff_eq] at hq
        exact hq.1.trans hid.symm) hp (by simp [hid, htr])
    rw [hfind, Option.any_some, he] at howner
    exact howner (beq_self_eq_true _)

/-- A decision applies when it is made. -/
theorem applies_of_callback {d : Plans.Data} {q : Plans.Request} {w : Plans.Write} {l : Scope} (hw : d.WellFormed)
    (hlive : ∀ project, l.row = .project project → ∃ p ∈ d.projects, p.id = project ∧ p.trashed = false)
    (hq : Asks d q l) (h : Plans.callback E.toEnv d q = .ok w) : Applies d (.plan w) := by
  cases q with
  | createProject | restoreTask =>
    cases h
    trivial
  | createTask project user attributes =>
    simp only [Plans.callback] at h
    split at h <;> cases h <;> trivial
  | sendInvitation project email =>
    simp only [Plans.callback] at h
    split at h
    · cases h
    · rename_i user hfound
      exact applies_of_invite hw (hlive project (by rw [hq.1]; rfl)) (E.active_of_found hfound) h
  | acceptInvitation project user =>
    simp only [Plans.callback] at h
    split at h
    · cases h
      trivial
    · rename_i m hm
      split at h <;> cases h
      · trivial
      · rename_i hinactive
        intro hactive
        rw [standing_of_membership E.toEnv hm] at hactive
        exact hinactive (Option.some.inj hactive)

/-- What is known of members is not lost with their rows. -/
theorem Applies.mono {d d' : Plans.Data} {w : Write} (h : Applies d w)
    (hstanding : ∀ project user, w.project = some project →
      standing d' project user = standing d project user ∨ standing d' project user = none)
    (howner : ∀ project, w.project = some project → ∀ p' ∈ d'.projects, p'.id = project →
      ∃ p ∈ d.projects, p.id = p'.id ∧ p.userId = p'.userId) : Applies d' w := by
  cases w with
  | plan w =>
    cases w with
    | nothing | createProject | createTask | restoreTask => trivial
    | invite project user =>
      refine ⟨?_, fun p' hp' hid => ?_⟩
      · rcases hstanding project user rfl with hs | hs
        · exact hs.trans h.1
        · exact hs
      · obtain ⟨p, hp, hpid, hpu⟩ := howner project rfl p' hp' hid
        rw [← hpu]
        exact h.2 p hp (hpid.trans hid)
    | activate project user =>
      intro he
      rcases hstanding project user rfl with hs | hs
      · exact h (hs.symm.trans he)
      · cases hs.symm.trans he
  | removeMember project user =>
    intro he
    rcases hstanding project user rfl with hs | hs
    · exact h (hs.symm.trans he)
    · cases hs.symm.trans he

/-- Others leave what a transaction relies on alone, if they leave its project there and its
members as they stand, or take rows of theirs away. -/
theorem Holds.frame {d d' : Data} {tx : Tx Row Request Write} (h : Holds d tx) (hw : d.plans.WellFormed)
    (hl : Later d.plans d'.plans)
    (live : ∀ project, Row.project project ∈ tx.keys → ∀ p ∈ d.plans.projects, p.id = project → p.trashed = false →
      p ∈ d'.plans.projects)
    (same : ∀ project user, Row.project project ∈ tx.keys →
      standing d'.plans project user = standing d.plans project user ∨ standing d'.plans project user = none) :
    Holds d' tx where
  live project hp := by
    obtain ⟨p, hpm, hid, htr⟩ := h.live project hp
    exact ⟨p, live project hp p hpm hid htr, hid, htr⟩
  asks q hq := by
    obtain ⟨l, hk, ha⟩ := h.asks q hq
    exact ⟨l, hk, hl.asks ha⟩
  locked := h.locked
  grows w hw := by
    obtain ⟨l, hg⟩ := h.grows w hw
    exact ⟨l, hl.grows hg⟩
  applies w hst := by
    refine (h.applies w hst).mono (fun project user hp => same project user (h.project w hst project hp)) ?_
    intro project hp p' hp' hid
    obtain ⟨p, hpm, hpid, -⟩ := h.live project (h.project w hst project hp)
    refine hl.owner p' hp' ?_
    rw [hid, ← hpid]
    exact hw.projectIds p hpm
  project := h.project

/-- A statement that waits for the row of a project leaves the project alone. -/
theorem live_of_statement {d : Plans.Data} {f : Statement} {p : Project} (hp : p ∈ d.projects)
    (hfree : Row.project p.id ∉ statementRows f) : p ∈ (Plans.statement d f).projects := by
  cases f with
  | archiveTask | deleteTask | detach => exact hp
  | deleteProject project | restoreProject project =>
    have hne : p.id ≠ project := fun he => hfree (he ▸ List.mem_singleton_self _)
    exact Table.mem_updateWhere.mpr ⟨p, hp, if_neg (by simpa using hne)⟩
  | forceDeleteProject project =>
    have hne : p.id ≠ project := fun he => hfree (he ▸ List.mem_singleton_self _)
    exact List.mem_filter.mpr ⟨hp, bne_iff_ne.mpr hne⟩

theorem isProtected : Protected (membershipService E) (fun _ _ => True) (fun d => Sound d.plans) Holds Seen where
  refuse d q hI h task project hq := by
    cases hq
    exact inProject_of_refuse (E := E.toEnv) hI.wellFormed h
  refuseStatement _ _ _ _ _ _ hq := by cases hq
  lock d q ks id hI hs h := by
    cases q with
    | plan q =>
      have hseen : Plans.Seen d.plans (.inl q) := fun task project hq => hs task project (by cases hq; rfl)
      exact {
        live := live_of_lock h
        asks := by
          rintro _ ⟨⟩
          exact asks_of_lock hI.wellFormed hseen h
        locked := by rintro _ _ ⟨⟩
        grows := by rintro _ ⟨⟩
        applies := by rintro _ ⟨⟩
        project := by rintro _ ⟨⟩ }
    | removeMember project user =>
      obtain ⟨rfl, hlive⟩ := lockProject_ok h
      exact {
        live := fun p hp => by
          cases List.mem_singleton.mp hp
          exact hlive
        asks := by rintro _ ⟨⟩
        locked := by
          rintro _ _ ⟨⟩
          rfl
        grows := by rintro _ ⟨⟩
        applies := by rintro _ ⟨⟩
        project := by rintro _ ⟨⟩ }
  check d q ks id hI hh h :=
    { live := hh.live, asks := hh.asks, locked := hh.locked
      grows := by rintro _ ⟨⟩
      applies := by rintro _ ⟨⟩
      project := by rintro _ ⟨⟩ }
  callback d q ks id w hI hh h := by
    suffices hw : (∀ w', w = .plan w' → ∃ l, Grows d.plans w' l) ∧ Applies d.plans w ∧
        ∀ project, w.project = some project → Row.project project ∈ ks by
      exact {
        live := hh.live, asks := hh.asks, locked := hh.locked
        grows := fun w' he => hw.1 w' (by cases he; rfl)
        applies := by
          rintro _ ⟨⟩
          exact hw.2.1
        project := by
          rintro _ ⟨⟩
          exact hw.2.2 }
    cases q with
    | plan q =>
      obtain ⟨l, rfl, ha⟩ := hh.asks q rfl
      obtain ⟨w', hw', rfl⟩ : ∃ w', Plans.callback E.toEnv d.plans q = .ok w' ∧ w = .plan w' := by
        change (Plans.callback E.toEnv d.plans q).map Write.plan = .ok w at h
        cases hc : Plans.callback E.toEnv d.plans q with
        | error e =>
          rw [hc] at h
          cases h
        | ok w' =>
          rw [hc] at h
          cases h
          exact ⟨w', rfl, rfl⟩
      have hg := grows_of_callback ha hw'
      refine ⟨by rintro _ ⟨⟩; exact ⟨l, hg⟩, ?_, fun project hp => ?_⟩
      · exact applies_of_callback hI.wellFormed
          (fun project hl => hh.live project (hl ▸ List.mem_singleton_self _)) ha hw'
      · exact row_of_grows hg hp ▸ List.mem_singleton_self _
    | removeMember project user =>
      obtain rfl := hh.locked project user rfl
      simp only [membershipService, callback] at h
      split at h
      · cases h
        exact ⟨by rintro _ ⟨⟩; exact ⟨.projects 0, trivial⟩, trivial, by rintro _ ⟨⟩⟩
      · rename_i m hm
        split at h <;> cases h
        rename_i hactive
        refine ⟨by rintro _ ⟨⟩, fun he => ?_, by rintro _ ⟨⟩; exact List.mem_singleton_self _⟩
        rw [standing_of_membership E.toEnv hm, hactive] at he
        cases he
  write d q ks id w hI hh := by
    refine hI.write (fun w' hw' => hh.grows w' (by rw [hw'])) (hh.applies w rfl) fun project hp => ?_
    obtain ⟨p, hpm, hid, -⟩ := hh.live project (hh.project w rfl project hp)
    exact ⟨p, hpm, hid⟩
  writeFrame d q ks id w tx hI hh htx hapart := by
    refine htx.frame hI.wellFormed (write_later w) (fun _ _ p hp _ _ => mem_projects_write hp) fun project user hp => ?_
    exact .inl (standing_write_of_ne fun hw => hapart _ hp (hh.project w rfl project hw))
  writeSeen d q ks id w x _ _ hx task project he := (write_later w).inProject (hx task project he)
  statement s f hI _ _ _ := hI.data.statement
  statementFrame s f tx hI _ _ hfree htx := by
    refine (hI.holds tx htx).frame hI.data.wellFormed statement_shrinks.later (fun project hp p hpm hid _ => ?_)
      fun project user _ => standing_statement f
    exact live_of_statement hpm (hid ▸ hfree tx htx _ hp)
  statementSeen d f x _ _ hx task project he := statement_shrinks.later.inProject (hx task project he)

end Outline

end Membership
end Daywright
