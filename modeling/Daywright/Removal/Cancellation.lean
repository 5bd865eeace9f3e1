/-
# The Zoom meetings of a deleted project

Deleting a project takes its meetings along, and with them the only record of their
Zoom ids. `ForceDeleteAbandonedProjectAction` collects the meetings first and dispatches
a job for each that cancels it at Zoom; the bulk deletion and `remove:abandon` go
through it. It leaves out the meetings whose host is softly deleted, and cancels
"meeting 0" for those without a Zoom id (`host_deleted_and_id_missing`). The purge of
deleted users does not collect anything.

So no meeting is left behind exactly if, of the projects deleted, each meeting to be
cancelled has a host that is not deleted, and each meeting with such a host has a Zoom id;
and, for the purge, if there is no meeting to be cancelled (`leavesNone_iff`).

Key definitions: `collect`, `execute`, `bulkDelete`, `removeAbandoned`, `LeavesNone`, `Covered`, `Deletion`.
Key theorems: `deleteWhere_eq`, `leavesNone_handleUserProjects_iff`, `leavesNone_iff`.
-/
import Daywright.Removal.Purge

namespace Daywright
namespace Removal

open Chunk Db

/-! ### Deleting abandoned projects -/

/-- A meeting as the collector sees it: a missing Zoom id is cast to 0. -/
def Meeting.cancellation (m : Meeting) : CancelZoomMeetingsJob := ⟨m.meetingId.getD 0, m.userId⟩

/-- `whereHas('user')`: the host is not deleted. -/
def hasUser (s : Db) (m : Meeting) : Bool := s.users.any fun u => u.id == m.userId && !u.trashed

/-- `CollectProjectZoomMeetingsForCancellationAction`. -/
def collect (s : Db) (project : ℕ) : List (Meeting × CancelZoomMeetingsJob) :=
  (s.meetings.filter fun m => m.projectId == project && hasUser s m).map fun m => (m, m.cancellation)

/-- The jobs of a batch. -/
def Db.dispatch (s : Db) (jobs : List (Meeting × CancelZoomMeetingsJob)) : Db :=
  { s with dispatched := s.dispatched ++ jobs }

/-- `ForceDeleteAbandonedProjectAction::execute`. -/
def execute (s : Db) (project : Project) : Bool × Db :=
  if !project.trashed then (false, s)
  else if collect s project.id = [] then (true, s.forceDeleteProject project.id)
  else (true, (s.dispatch (collect s project.id)).forceDeleteProject project.id)

/-- `chunkById` over the projects that satisfy `which`. -/
def deleteWhere (which : Project → Bool) (s : Db) : Db :=
  chunkById Project.id 100 (fun s => s.projects.filter which) (each fun s p => (execute s p).2) s

/-- `BulkDeleteProjectsAction::execute`. -/
def bulkDelete (projectIds : List ℕ) (s : Db) : Db :=
  if projectIds = [] then s else deleteWhere (fun p => projectIds.contains p.id) s

/-- `pastAbandonedLimit`. -/
def Project.pastAbandonedLimit (limit : ℕ) (now : Time) (p : Project) : Bool :=
  p.deletedAt.any fun t => t + days limit < now

/-- `remove:abandon`. -/
def removeAbandoned (limit : ℕ) (now : Time) (s : Db) : Db := deleteWhere (fun p => p.pastAbandonedLimit limit now) s

/-- `ProjectController::forceDelete`: the project is found, archived or not. -/
def forceDeleteIfAbandoned (project : ℕ) (s : Db) : Db :=
  match s.projects.find? fun p => p.id == project with
  | none => s
  | some p => (execute s p).2

/-- `CancelZoomMeetingsJob::handle`: the meeting that Zoom is asked to delete, for whom. -/
def CancelZoomMeetingsJob.handle (s : Db) (job : CancelZoomMeetingsJob) : Option (ZoomId × User) :=
  (s.users.find? fun u => u.id == job.userId && !u.trashed).map fun u => (job.meetingId, u)

/-! ### What is left behind -/

/-- The meeting exists at Zoom, and its host has an account, deleted or not. -/
def ToCancel (s : Db) (m : Meeting) : Prop :=
  m.meetingId ≠ none ∧ m.syncStatus ≠ .deleted ∧ ∃ u ∈ s.users, u.id = m.userId

/-- Of each project that is gone, the meetings to be cancelled have their job, and no
job is for a meeting without a Zoom id. -/
def LeavesNone (s s' : Db) : Prop := ∃ jobs, s'.dispatched = s.dispatched ++ jobs ∧
  (∀ p ∈ s.projects, (∀ q ∈ s'.projects, q.id ≠ p.id) → ∀ m ∈ s.meetings, m.projectId = p.id → ToCancel s m →
    ∀ id ∈ m.meetingId, (m, ⟨id, m.userId⟩) ∈ jobs) ∧
  ∀ job ∈ jobs, job.1.meetingId ≠ none

/-- The collector is right about the meeting. -/
def Covered (s : Db) (m : Meeting) : Prop :=
  (s.Live m.userId → m.meetingId ≠ none) ∧ (ToCancel s m → s.Live m.userId)

/-- The collector is right about the meetings of the project. -/
def Covers (s : Db) (p : Project) : Prop := ∀ m ∈ s.meetings, m.projectId = p.id → Covered s m

variable {s t : Db} {p q : Project} {m : Meeting}

theorem hasUser_iff : hasUser s m = true ↔ s.Live m.userId := by
  simp [hasUser, Live, User.trashed]

theorem mem_collect {project : ℕ} {d : Meeting × CancelZoomMeetingsJob} : d ∈ collect s project ↔
    d.1 ∈ s.meetings ∧ d.1.projectId = project ∧ s.Live d.1.userId ∧ d.2 = d.1.cancellation := by
  simp only [collect, List.mem_map, List.mem_filter, Bool.and_eq_true, beq_iff_eq, hasUser_iff]
  constructor
  · rintro ⟨m, ⟨hm, hp, hl⟩, rfl⟩
    exact ⟨hm, hp, hl, rfl⟩
  · rintro ⟨hm, hp, hl, hd⟩
    exact ⟨d.1, ⟨hm, hp, hl⟩, by rw [← hd]⟩

theorem execute_eq : (execute s p).2 =
    if p.trashed then (s.dispatch (collect s p.id)).forceDeleteProject p.id else s := by
  unfold execute
  cases htrashed : p.trashed with
  | false => rfl
  | true =>
    simp only [Bool.not_true, Bool.false_eq_true, if_false, if_true]
    split
    · rename_i hnil
      simp [hnil, dispatch]
    · rfl

/-- Deleting a project leaves the meetings of the others. -/
theorem collect_forceDeleteProject {jobs : List (Meeting × CancelZoomMeetingsJob)} {project project' : ℕ}
    (hne : project' ≠ project) :
    collect ((s.dispatch jobs).forceDeleteProject project) project' = collect s project' := by
  have hmeetings : (((s.dispatch jobs).forceDeleteProject project).meetings.filter fun m =>
      m.projectId == project' && hasUser s m) = s.meetings.filter fun m => m.projectId == project' && hasUser s m := by
    simp only [forceDeleteProject, deleteProjects, dispatch, List.filter_filter]
    refine List.filter_congr fun m _ => ?_
    by_cases hm : m.projectId = project'
    · have hkeep : (s.projects.any fun p => p.id == project && p.id == m.projectId) = false := by
        simp only [List.any_eq_false, Bool.and_eq_true, beq_iff_eq, not_and]
        exact fun p _ hp hpm => hne (hm.symm.trans (hpm.symm.trans hp))
      simp [hkeep]
    · simp [hm]
  exact congrArg (List.map _) hmeetings

/-- The projects `R` have been deleted from `s`, their meetings having been collected. -/
structure Deletes (s t : Db) (R : List Project) : Prop where
  users : t.users = s.users
  projects : ∀ q, q ∈ t.projects ↔ q ∈ s.projects ∧ ∀ r ∈ R, r.id ≠ q.id
  collected : ∀ project, (∀ r ∈ R, r.id ≠ project) → collect t project = collect s project
  dispatched : t.dispatched = s.dispatched ++ R.flatMap fun r => collect s r.id

theorem Deletes.refl (s : Db) : Deletes s s [] := by
  refine ⟨rfl, ?_, ?_, ?_⟩ <;> simp

/-- One more project is deleted, if it is archived. -/
theorem Deletes.execute {R : List Project} (h : Deletes s t R) (hp : ∀ r ∈ R, r.id ≠ p.id) :
    Deletes s (execute t p).2 (R ++ [p].filter Project.trashed) := by
  rw [execute_eq]
  split
  · rename_i htrashed
    rw [List.filter_cons_of_pos htrashed, List.filter_nil]
    refine ⟨h.users, fun q => ?_, fun project hR => ?_, ?_⟩
    · rw [forceDeleteProject, mem_deleteProjects]
      simp only [dispatch, h.projects q, beq_eq_false_iff_ne, List.forall_mem_append,
        List.forall_mem_singleton, and_assoc]
      exact and_congr_right fun _ => and_congr_right fun _ => ne_comm
    · rw [List.forall_mem_append, List.forall_mem_singleton] at hR
      rw [collect_forceDeleteProject hR.2.symm]
      exact h.collected project hR.1
    · simp only [forceDeleteProject, deleteProjects, dispatch, h.dispatched, h.collected p.id hp, List.append_assoc,
        List.flatMap_append, List.flatMap_singleton]
  · rename_i htrashed
    rw [List.filter_cons_of_neg htrashed, List.filter_nil, List.append_nil]
    exact h

/-- Projects deleted one by one. -/
theorem Deletes.foldl : ∀ {l R : List Project} {t : Db}, Deletes s t R → (l.Pairwise fun p q => p.id < q.id) →
    (∀ r ∈ R, ∀ p ∈ l, r.id ≠ p.id) →
    Deletes s (l.foldl (fun s p => (Removal.execute s p).2) t) (R ++ l.filter Project.trashed)
  | [], R, t, h, _, _ => by simpa using h
  | p :: l, R, t, h, hl, hR => by
    rw [List.pairwise_cons] at hl
    have hstep := h.execute fun r hr => hR r hr p List.mem_cons_self
    have hrest : ∀ r ∈ R ++ [p].filter Project.trashed, ∀ q ∈ l, r.id ≠ q.id := by
      intro r hr q hq
      rcases List.mem_append.mp hr with hr | hr
      · exact hR r hr q (List.mem_cons_of_mem _ hq)
      · rw [List.mem_singleton.mp (List.mem_filter.mp hr).1]
        exact (hl.1 q hq).ne
    have := hstep.foldl hl.2 hrest
    rwa [List.append_assoc, ← List.filter_append, List.singleton_append] at this

/-- Handling a project leaves the others in any query. -/
theorem walk_execute (which : Project → Bool) : Walk Project.id (fun t => (t.projects.map (·.id)).Nodup)
    (fun s => s.projects.filter which) fun s p => (execute s p).2 where
  nodup t ht := ht.sublist (List.filter_sublist.map _)
  step t p ht _ := by
    rw [execute_eq]
    split
    · exact ht.sublist (List.filter_sublist.map _)
    · exact ht
  later t p q _ _ hlt := by
    rw [execute_eq]
    split
    · simp only [List.mem_filter, forceDeleteProject, mem_deleteProjects, dispatch, beq_eq_false_iff_ne]
      exact and_congr_left fun _ => and_iff_left hlt.ne'
    · rfl

/-- The archived projects of the query are deleted, whatever the chunks. -/
theorem deleteWhere_eq (hs : s.WellFormed) (which : Project → Bool) : ∃ R, Deletes s (deleteWhere which s) R ∧
    ∀ p, p ∈ R ↔ p ∈ s.projects ∧ which p = true ∧ p.trashed = true := by
  have W := walk_execute which
  have hl : (inOrder Project.id (s.projects.filter which)).Pairwise fun p q => p.id < q.id := by
    rw [← after_none]
    exact pairwise_after (W.nodup s hs.projects)
  refine ⟨(inOrder Project.id (s.projects.filter which)).filter Project.trashed, ?_, fun p => ?_⟩
  · rw [deleteWhere, W.chunkById_eq (by decide) hs.projects]
    exact (Deletes.refl s).foldl hl fun r hr => by cases hr
  · simp only [List.mem_filter, inOrder, List.mem_insertionSort, and_assoc]

/-! ### When nothing is left behind -/

theorem leavesNone_iff_of_deletes {R : List Project} (h : Deletes s t R) (hR : ∀ p ∈ R, p ∈ s.projects) :
    LeavesNone s t ↔ ∀ p ∈ R, Covers s p := by
  constructor
  · rintro ⟨jobs, hjobs, hcancelled, hids⟩ p hp m hm hmp
    have hjobs : jobs = R.flatMap fun r => collect s r.id := List.append_cancel_left (hjobs.symm.trans h.dispatched)
    constructor
    · intro hlive
      refine hids (m, m.cancellation) ?_
      rw [hjobs]
      exact List.mem_flatMap.mpr ⟨p, hp, mem_collect.mpr ⟨hm, hmp, hlive, rfl⟩⟩
    · intro hcancel
      obtain ⟨id, hid⟩ := Option.ne_none_iff_exists'.mp hcancel.1
      have hgone : ∀ q ∈ t.projects, q.id ≠ p.id := fun q hq heq => ((h.projects q).mp hq).2 p hp heq.symm
      have hjob := hcancelled p (hR p hp) hgone m hm hmp hcancel id hid
      rw [hjobs] at hjob
      obtain ⟨r, -, hjob⟩ := List.mem_flatMap.mp hjob
      exact (mem_collect.mp hjob).2.2.1
  · intro hcovers
    refine ⟨_, h.dispatched, fun p hp hgone m hm hmp hcancel id hid => ?_, fun job hjob => ?_⟩
    · have hnot : ¬ ∀ r ∈ R, r.id ≠ p.id := fun hall => hgone p ((h.projects p).mpr ⟨hp, hall⟩) rfl
      simp only [not_forall, not_not] at hnot
      obtain ⟨r, hr, hrp⟩ := hnot
      have hlive := (hcovers r hr m hm (hmp.trans hrp.symm)).2 hcancel
      refine List.mem_flatMap.mpr ⟨r, hr, mem_collect.mpr ⟨hm, hmp.trans hrp.symm, hlive, ?_⟩⟩
      simp [Meeting.cancellation, Option.mem_def.mp hid]
    · obtain ⟨r, hr, hjob⟩ := List.mem_flatMap.mp hjob
      obtain ⟨hm, hmp, hlive, -⟩ := mem_collect.mp hjob
      exact (hcovers r hr _ hm hmp).1 hlive

theorem forceDeleteIfAbandoned_eq (hs : s.WellFormed) (project : ℕ) :
    ∃ R, Deletes s (forceDeleteIfAbandoned project s) R ∧
    ∀ p, p ∈ R ↔ p ∈ s.projects ∧ p.id = project ∧ p.trashed = true := by
  unfold forceDeleteIfAbandoned
  split
  · rename_i hnone
    refine ⟨[], Deletes.refl s, fun p => ?_⟩
    have hne : p ∈ s.projects → p.id ≠ project := fun hp => by simpa using List.find?_eq_none.mp hnone p hp
    simp only [List.not_mem_nil, false_iff, not_and]
    exact fun hp hid => absurd hid (hne hp)
  · rename_i p hfound
    have hp := List.mem_of_find?_eq_some hfound
    have hid : p.id = project := by simpa using List.find?_some hfound
    refine ⟨_, (Deletes.refl s).execute fun r hr => (List.not_mem_nil hr).elim, fun q => ?_⟩
    simp only [List.nil_append, List.mem_filter, List.mem_singleton]
    constructor
    · rintro ⟨rfl, htrashed⟩
      exact ⟨hp, hid, htrashed⟩
    · rintro ⟨hq, hqid, htrashed⟩
      exact ⟨hs.project_eq hq hp (hqid.trans hid.symm), htrashed⟩

/-- The projects that the purge deletes with a user. -/
theorem gone_handleUserProjects {now : Time} {u : User} (hs : s.WellFormed) (hlive : ¬ s.Live u.id)
    (hp : p ∈ s.projects) :
    (∀ q ∈ (handleUserProjects now s u).projects, q.id ≠ p.id) ↔ p.userId = u.id ∧ s.membersOf p.id = [] := by
  have hdisjoint : ∀ x, s.Live x → ¬ x = u.id := fun x hx h => hlive (h ▸ hx)
  obtain ⟨t, ht, hempty, heq⟩ := walk_done now (fun x => x = u.id) hs hlive rfl hdisjoint
  constructor
  · intro hgone
    obtain ⟨-, hk, -⟩ := keeps_handleUserProjects now (fun x => x = u.id) hs hlive rfl hdisjoint
    have howner : p.userId = u.id := by
      by_contra hne
      exact hgone p (hk.others p hp hne) rfl
    refine ⟨howner, ?_⟩
    by_contra hmembers
    obtain ⟨m, hm, hmp, hml⟩ := membersOf_ne_nil.mp hmembers
    obtain ⟨p', hp', hid, -⟩ := hk.shared p hp ⟨m, hm, hmp, hml, fun h => hlive (howner ▸ h ▸ hml)⟩
    exact hgone p' hp' hid
  · rintro ⟨howner, hmembers⟩ q hq hid
    rw [heq, mem_forceDeleteUser] at hq
    exact hq.2 ((ht.owners p hp hmembers q hq.1 hid).trans howner)

/-- The purge of a user collects nothing. -/
theorem leavesNone_handleUserProjects_iff {now : Time} {u : User} (hs : s.WellFormed) (hlive : ¬ s.Live u.id) :
    LeavesNone s (handleUserProjects now s u) ↔ ∀ p ∈ s.projects, p.userId = u.id → s.membersOf p.id = [] →
      ∀ m ∈ s.meetings, m.projectId = p.id → ¬ ToCancel s m := by
  have hdisjoint : ∀ x, s.Live x → ¬ x = u.id := fun x hx h => hlive (h ▸ hx)
  obtain ⟨t, ht, -, heq⟩ := walk_done now (fun x => x = u.id) hs hlive rfl hdisjoint
  have hdispatched : (handleUserProjects now s u).dispatched = s.dispatched := by
    rw [heq]
    exact ht.dispatched
  constructor
  · rintro ⟨jobs, hjobs, hcancelled, -⟩ p hp howner hmembers m hm hmp hcancel
    have hnil : jobs = [] := List.append_cancel_left ((hjobs.symm.trans hdispatched).trans (List.append_nil _).symm)
    obtain ⟨id, hid⟩ := Option.ne_none_iff_exists'.mp hcancel.1
    have := hcancelled p hp ((gone_handleUserProjects hs hlive hp).mpr ⟨howner, hmembers⟩) m hm hmp hcancel id hid
    rw [hnil] at this
    cases this
  · intro h
    refine ⟨[], hdispatched.trans (List.append_nil _).symm, fun p hp hgone m hm hmp hcancel => ?_,
      fun job hjob => by cases hjob⟩
    obtain ⟨howner, hmembers⟩ := (gone_handleUserProjects hs hlive hp).mp hgone
    exact absurd hcancel (h p hp howner hmembers m hm hmp)

/-- The users as the purge handles them, each with the state before. -/
def purgeSteps (now : Time) (s : Db) : List (Db × User) :=
  trace (handleUserProjects now) s (inOrder User.id (expiredUsers now s))

/-- The purge is a transaction for each expired user, in the order of their ids. -/
theorem purge_eq (now : Time) (hs : s.WellFormed) :
    purge now s = (inOrder User.id (expiredUsers now s)).foldl (handleUserProjects now) s :=
  (walk_expiredUsers now hs).chunkById_eq (by decide) ⟨hs, Keeps.refl s⟩

/-- The ways in which the row of a project is deleted. -/
inductive Deletion where
  | project (id : ℕ)
  | bulk (projectIds : List ℕ)
  | abandoned (limit : ℕ) (now : Time)
  | purge (now : Time)

/-- No meeting is left behind; by the purge, in none of its transactions. -/
def Deletion.LeavesNone (s : Db) : Deletion → Prop
  | .project id => Removal.LeavesNone s (forceDeleteIfAbandoned id s)
  | .bulk projectIds => Removal.LeavesNone s (bulkDelete projectIds s)
  | .abandoned limit now => Removal.LeavesNone s (removeAbandoned limit now s)
  | .purge now => ∀ x ∈ purgeSteps now s, Removal.LeavesNone x.1 (handleUserProjects now x.1 x.2)

/-- The collector is right about the projects that are deleted; in the projects without
members of a user who is purged there is nothing to cancel. -/
def Deletion.Covers (s : Db) : Deletion → Prop
  | .project id => ∀ p ∈ s.projects, p.id = id → p.trashed = true → Removal.Covers s p
  | .bulk projectIds => ∀ p ∈ s.projects, p.id ∈ projectIds → p.trashed = true → Removal.Covers s p
  | .abandoned limit now => ∀ p ∈ s.projects, p.pastAbandonedLimit limit now = true → Removal.Covers s p
  | .purge now => ∀ x ∈ purgeSteps now s, ∀ p ∈ x.1.projects, p.userId = x.2.id → x.1.membersOf p.id = [] →
    ∀ m ∈ x.1.meetings, m.projectId = p.id → ¬ ToCancel x.1 m

theorem trashed_of_pastAbandonedLimit {limit : ℕ} {now : Time} (h : p.pastAbandonedLimit limit now = true) :
    p.trashed = true := by
  obtain ⟨t, ht, -⟩ := (Option.any_eq_true _ _).mp h
  simp [Project.trashed, ht]

theorem leavesNone_iff (hs : s.WellFormed) (d : Deletion) : d.LeavesNone s ↔ d.Covers s := by
  cases d with
  | project id =>
    obtain ⟨R, hR, hmem⟩ := forceDeleteIfAbandoned_eq hs id
    simp only [Deletion.LeavesNone, Deletion.Covers, leavesNone_iff_of_deletes hR fun p hp => ((hmem p).mp hp).1, hmem,
      and_imp]
  | bulk projectIds =>
    simp only [Deletion.LeavesNone, Deletion.Covers, bulkDelete]
    split
    · rename_i hnil
      subst hnil
      simp [leavesNone_iff_of_deletes (Deletes.refl s) fun p hp => (List.not_mem_nil hp).elim]
    · obtain ⟨R, hR, hmem⟩ := deleteWhere_eq hs fun p => projectIds.contains p.id
      simp only [leavesNone_iff_of_deletes hR fun p hp => ((hmem p).mp hp).1, hmem, List.contains_iff_mem, and_imp]
  | abandoned limit now =>
    obtain ⟨R, hR, hmem⟩ := deleteWhere_eq hs fun p => p.pastAbandonedLimit limit now
    simp only [Deletion.LeavesNone, Deletion.Covers, removeAbandoned,
      leavesNone_iff_of_deletes hR fun p hp => ((hmem p).mp hp).1, hmem, and_imp]
    exact forall₃_congr fun p _ h => ⟨fun h' => h' (trashed_of_pastAbandonedLimit h), fun h' _ => h'⟩
  | purge now =>
    simp only [Deletion.LeavesNone, Deletion.Covers]
    refine forall₂_congr fun x hx => ?_
    obtain ⟨⟨hwf, -⟩, hexp⟩ := (walk_expiredUsers now hs).of_mem_walk ⟨hs, Keeps.refl s⟩ hx
    exact leavesNone_handleUserProjects_iff hwf (not_live_of_expired hwf ⟨x.2, hexp, rfl⟩)

namespace Sample

/-- Ada's (1) meeting, and one of Ben's (2) that Zoom has not created yet. -/
def adasMeeting : Meeting := ⟨1, 1, 1, some 77, .active⟩

def bensMeeting : Meeting := ⟨2, 1, 2, none, .pending⟩

/-- Ada has deleted her account, and her project has been archived with it. -/
def archived : Db where
  users := [⟨1, false, some 0⟩, ⟨2, false, none⟩]
  projects := [⟨1, 1, some 0⟩]
  members := []
  meetings := [adasMeeting, bensMeeting]
  dispatched := []

theorem wellFormed_archived : archived.WellFormed := by
  constructor <;> decide

/-- The same, if Ada has not deleted her account and Ben has no meeting. -/
def abandoned : Db := { archived with users := [⟨1, false, none⟩, ⟨2, false, none⟩], meetings := [adasMeeting] }

theorem wellFormed_abandoned : abandoned.WellFormed := by
  constructor <;> decide

end Sample

/-- Ada's meeting is left behind by the deletion of the project and by the purge of her
account; for Ben's, meeting 0 is cancelled. -/
theorem host_deleted_and_id_missing : ∃ s, s.WellFormed ∧
    (forceDeleteIfAbandoned 1 s).dispatched = [(Sample.bensMeeting, ⟨0, 2⟩)] ∧
    ¬ Deletion.LeavesNone s (.project 1) ∧ ¬ Deletion.LeavesNone s (.purge (days 16)) := by
  have hjobs : (forceDeleteIfAbandoned 1 Sample.archived).dispatched = [(Sample.bensMeeting, ⟨0, 2⟩)] := by decide
  have hcancel : ToCancel Sample.archived Sample.adasMeeting :=
    ⟨by decide, by decide, ⟨1, false, some 0⟩, by decide, rfl⟩
  refine ⟨Sample.archived, Sample.wellFormed_archived, hjobs, ?_, fun h => ?_⟩
  · rintro ⟨jobs, heq, -, hids⟩
    rw [hjobs] at heq
    exact hids (Sample.bensMeeting, ⟨0, 2⟩) (by rw [← show _ = jobs from heq]; decide) rfl
  · obtain ⟨jobs, heq, hcancelled, -⟩ := h (Sample.archived, ⟨1, false, some 0⟩) List.mem_cons_self
    have hnil : [] = jobs := heq
    have := hcancelled ⟨1, 1, some 0⟩ (by decide) (by decide) Sample.adasMeeting (by decide) rfl hcancel 77 rfl
    rw [← hnil] at this
    cases this

/-- Ada's meeting is cancelled. -/
theorem leavesNone_abandoned : (bulkDelete [1] Sample.abandoned).dispatched = [(Sample.adasMeeting, ⟨77, 1⟩)] ∧
    Deletion.LeavesNone Sample.abandoned (.bulk [1]) := by
  refine ⟨by decide, (leavesNone_iff Sample.wellFormed_abandoned (.bulk [1])).mpr fun p _ _ _ m hm _ => ?_⟩
  have hm : m = Sample.adasMeeting := List.mem_singleton.mp hm
  have hlive : Sample.abandoned.Live 1 := ⟨⟨1, false, none⟩, by decide, rfl, rfl⟩
  rw [hm]
  exact ⟨fun _ => by decide, fun _ => hlive⟩

end Removal
end Daywright
