/-
# A project owner stays within the plan

The tasks and the members of a project never exceed the limits of its owner's plan, in
any interleaving: whatever adds one has counted them under the lock of the project,
which it keeps until it commits. The projects of an owner are counted the same way when
one is created, but `ProjectService::restoreProject` counts nothing: the run
`projects_exceeded` ends with four projects on the free plan. They stay within the limit
along every run whose restores leave room for the creations that have been let through
(`withinLimits_of_run`).

Key definitions: `Within`, `Room`, `Holds`, `RestoresWithRoom`.
Key theorems: `isProtected`, `withinLimits_of_run`.
-/
import Daywright.Plans.Usage

namespace Daywright
namespace Plans

open Interleave Guard

variable (E : Env)

/-- The usage of the scope is within the limit of its owner's plan. -/
def Within (d : Data) (l : Scope) : Prop :=
  ∀ user maxAllowed, l.Owns d user → (E.plan user).maxFor l.type = some maxAllowed → usage E d l ≤ maxAllowed

/-- One more is within it too. -/
def Room (d : Data) (l : Scope) : Prop :=
  ∀ user maxAllowed, l.Owns d user → (E.plan user).maxFor l.type = some maxAllowed → usage E d l < maxAllowed

/-- The scope in which a request asks for room. -/
def Asks (d : Data) : Request → Scope → Prop
  | .createProject user _, l => l = .projects user
  | .createTask project _ _, l => l = .tasks project ∧ project < d.nextProject
  | .restoreTask task project, l => l = .tasks project ∧ project < d.nextProject ∧ InProject d task project
  | .sendInvitation project _, l | .acceptInvitation project _, l => l = .members project ∧ project < d.nextProject

/-- What a request has seen of the task that it restores. -/
def Seen (d : Data) (x : Request ⊕ Statement) : Prop :=
  ∀ task project, x = .inl (.restoreTask task project) → InProject d task project

variable (C : Prop)

/-- The data is well formed and within the limits; within those of projects if `C`. -/
def Limited (d : Data) : Prop := d.WellFormed ∧ ∀ l : Scope, (l.type = .Projects → C) → Within E d l

/-- A transaction has the row of its scope locked; once admitted it has room there, and
what it is going to write takes that room only. -/
def Holds (d : Data) (tx : Tx Row Request Write) : Prop :=
  ∃ l : Scope, tx.keys = [l.row] ∧ Asks d tx.request l ∧
    (tx.stage ≠ .locked → (l.type = .Projects → C) → Room E d l) ∧ ∀ w, tx.stage = .decided w → Grows d w l

/-- The transaction has been let through to create a project of the user. -/
def creates (user : ℕ) (tx : Tx Row Request Write) : Bool :=
  match tx.request, tx.stage with
  | .createProject _ _, .locked => false
  | .createProject u _, _ => u == user
  | _, _ => false

/-- A project is restored only where that leaves room for the creations that have been
let through. -/
def RestoresWithRoom (s : Store Data Row Request Write) (f : Statement) : Prop :=
  ∀ p ∈ s.data.projects, f = .restoreProject p.id → p.trashed = true →
    ∀ maxAllowed ∈ (E.plan p.userId).maxFor .Projects,
      s.data.projectsCount p.userId + s.txs.countP (creates p.userId) < maxAllowed

instance (s : Store Data Row Request Write) (f : Statement) : Decidable (RestoresWithRoom E s f) := by
  unfold RestoresWithRoom
  infer_instance

variable {E} {C} {d : Data} {l l' : Scope}

/-- Any plan allows the starter tasks of a project. -/
theorem three_le_max {plan : SubscriptionPlan} {type : PlanLimitType} {maxAllowed : ℕ}
    (h : plan.maxFor type = some maxAllowed) : 3 ≤ maxAllowed := by
  revert h
  cases plan <;> cases type <;> simp [SubscriptionPlan.maxFor, SubscriptionPlan.limits, PlanLimitType.configKey] <;> omega

theorem Asks.in {q : Request} (h : Asks d q l) : l.In d := by
  cases q with
  | createProject =>
    rw [show l = _ from h]
    trivial
  | createTask | sendInvitation | acceptInvitation =>
    rw [h.1]
    exact h.2
  | restoreTask =>
    rw [h.1]
    exact h.2.1

theorem Later.asks {d' : Data} {q : Request} (h : Later d d') (hq : Asks d q l) : Asks d' q l := by
  cases q with
  | createProject => exact hq
  | createTask | sendInvitation | acceptInvitation => exact ⟨hq.1, Nat.lt_of_lt_of_le hq.2 h.projectIds⟩
  | restoreTask => exact ⟨hq.1, Nat.lt_of_lt_of_le hq.2.1 h.projectIds, h.inProject hq.2.2⟩

/-- What a transaction may rely on, as long as the usage of its scope does not grow. -/
theorem Holds.later {d' : Data} {tx : Tx Row Request Write} (h : Later d d') (hh : Holds E C d tx)
    (hu : ∀ l, tx.keys = [l.row] → Asks d tx.request l → (tx.stage ≠ .locked → (l.type = .Projects → C) → Room E d l) →
      tx.stage ≠ .locked → (l.type = .Projects → C) → Room E d' l) : Holds E C d' tx := by
  obtain ⟨l, hk, hq, hroom, hw⟩ := hh
  exact ⟨l, hk, h.asks hq, hu l hk hq hroom, fun w he => h.grows (hw w he)⟩

theorem Room.mono {d' : Data} (h : Later d d') (hl : l.In d) (hu : usage E d' l ≤ usage E d l) (hr : Room E d l) :
    Room E d' l := fun user m ho hm => Nat.lt_of_le_of_lt hu (hr user m (h.owns hl ho) hm)

theorem creates_of_asks {user : ℕ} {tx : Tx Row Request Write} (hq : Asks d tx.request (.projects user))
    (hst : tx.stage ≠ .locked) : creates user tx = true := by
  obtain ⟨id, ks, q, stage⟩ := tx
  cases q with
  | createProject u data =>
    cases hq
    cases stage with
    | locked => exact absurd rfl hst
    | _ => simp [creates]
  | createTask | restoreTask | sendInvitation | acceptInvitation => cases hq.1

/-! ### The check -/

theorem assertWithinLimit_none {type : PlanLimitType} {user usage maxAllowed : ℕ}
    (h : assertWithinLimit E type user usage = none) (hm : (E.plan user).maxFor type = some maxAllowed) :
    usage < maxAllowed := by
  simp only [assertWithinLimit, hm] at h
  split at h
  · assumption
  · cases h

theorem assertProjectLimit_none {type : PlanLimitType} {project usage maxAllowed : ℕ} (hw : d.WellFormed)
    (h : assertProjectLimit E d project type usage = none) {p : Project} (hp : p ∈ d.projects) (hid : p.id = project)
    (hm : (E.plan p.userId).maxFor type = some maxAllowed) : usage < maxAllowed := by
  simp only [assertProjectLimit, Data.findProject] at h
  split at h
  · cases h
  · rename_i lockedProject hf
    have hmem := List.mem_of_find?_eq_some hf
    have hid' : lockedProject.id = project := by
      have := List.find?_some hf
      simp only [Bool.and_eq_true, beq_iff_eq] at this
      exact this.1
    have : lockedProject = p := List.inj_on_of_nodup_map hw.projects hmem hp (hid'.trans hid.symm)
    exact assertWithinLimit_none h (this ▸ hm)

/-- A request that passes the check has room. -/
theorem room_of_check {q : Request} (hw : d.WellFormed) (hq : Asks d q l) (h : check E d q [l.row] = none) :
    Room E d l := by
  intro user m ho hm
  cases q with
  | createProject u data =>
    obtain rfl : l = .projects u := hq
    obtain rfl : u = user := ho
    exact assertWithinLimit_none h hm
  | createTask | restoreTask | sendInvitation | acceptInvitation =>
    obtain ⟨rfl, -⟩ := hq
    obtain ⟨p, hp, hid, rfl⟩ := ho
    exact assertProjectLimit_none hw h hp hid hm

/-- A callback writes in the scope of its request. -/
theorem grows_of_callback {q : Request} {w : Write} (hq : Asks d q l) (h : callback E d q = .ok w) : Grows d w l := by
  cases q with
  | createProject user data =>
    cases h
    exact ⟨hq, by rw [List.length_map]; exact data.max⟩
  | createTask project user attributes =>
    simp only [callback] at h
    split at h <;> cases h
    · trivial
    · exact hq
  | restoreTask task project =>
    cases h
    exact ⟨project, hq.1, hq.2.2⟩
  | sendInvitation project email =>
    simp only [callback, inviteUser] at h
    split at h
    · cases h
    · split at h
      · cases h
      · split at h <;> cases h
        exact hq
  | acceptInvitation project user =>
    simp only [callback] at h
    split at h
    · cases h
      trivial
    · split at h <;> cases h
      · trivial
      · exact hq.1

/-! ### The outline -/

theorem asks_of_lock {q : Request} {ks : List Row} (hw : d.WellFormed) (hs : Seen d (.inl q)) (h : lock E d q = .ok ks) :
    ∃ l, ks = [l.row] ∧ Asks d q l := by
  have project {p : ℕ} (h : lockProject d p = .ok ks) : ks = [.project p] ∧ p < d.nextProject := by
    unfold lockProject at h
    split at h <;> cases h
    rename_i hf
    obtain ⟨p', hf⟩ := Option.isSome_iff_exists.mp hf
    have hp := List.find?_some hf
    simp only [Bool.and_eq_true, beq_iff_eq] at hp
    exact ⟨rfl, hp.1 ▸ hw.projectIds p' (List.mem_of_find?_eq_some hf)⟩
  cases q with
  | createProject user data =>
    simp only [lock, lockUser] at h
    split at h <;> cases h
    exact ⟨.projects user, rfl, rfl⟩
  | createTask p => exact ⟨.tasks p, (project h).1, rfl, (project h).2⟩
  | restoreTask task p => exact ⟨.tasks p, (project h).1, rfl, (project h).2, hs task p rfl⟩
  | sendInvitation p | acceptInvitation p => exact ⟨.members p, (project h).1, rfl, (project h).2⟩

/-- A write within its room keeps the data within the limits. -/
theorem Limited.write {w : Write} (hI : Limited E C d) (hw : Grows d w l) (hr : (l.type = .Projects → C) → Room E d l) :
    Limited E C (Plans.write d w) := by
  refine ⟨write_wellFormed hI.1 hw, fun l' hc user m ho hm => ?_⟩
  by_cases hin : l'.In d
  · have ho := write_later.owns hin ho
    have hu := write_usage (E := E) hI.1 hw hin
    by_cases hl : l' = l
    · have := hr (hl ▸ hc) user m (hl ▸ ho) (hl ▸ hm)
      rw [if_pos hl, hl] at hu
      rw [hl]
      omega
    · have := hI.2 l' hc user m ho hm
      rw [if_neg hl] at hu
      omega
  · exact (write_usage_new hI.1 hw hin).trans (three_le_max hm)

/-- What a restored project does to the limits depends on what is asked for. -/
theorem Limited.statement {s : Store Data Row Request Write} {f : Statement} (hI : Limited E C s.data)
    (hok : C → RestoresWithRoom E s f) : Limited E C (Plans.statement s.data f) := by
  refine ⟨statement_shrinks.wellFormed hI.1, fun l hc user m ho hm => ?_⟩
  by_cases hf : ∃ u, l = .projects u ∧ Restores s.data f u
  · obtain ⟨u, rfl, hf⟩ := hf
    obtain rfl : u = user := ho
    obtain ⟨p, hp, hf, rfl, htr⟩ := hf
    have hroom := hok (hc rfl) p hp hf htr m hm
    have husage : usage E (Plans.statement s.data f) (.projects p.userId) ≤ s.data.projectsCount p.userId + 1 :=
      statement_usage_succ hI.1
    omega
  · refine (statement_usage fun u hl hr => hf ⟨u, hl, hr⟩).trans (hI.2 l hc user m ?_ hm)
    cases l with
    | projects => exact ho
    | _ =>
      obtain ⟨p', hp', rfl, rfl⟩ := ho
      exact statement_shrinks.project hp'

/-- The room of a creation that has been let through is left to it. -/
theorem Holds.statement {s : Store Data Row Request Write} {f : Statement} {tx : Tx Row Request Write}
    (hI : Limited E C s.data) (hok : C → RestoresWithRoom E s f) (htx : tx ∈ s.txs) (hh : Holds E C s.data tx) :
    Holds E C (Plans.statement s.data f) tx := by
  refine hh.later statement_shrinks.later fun l hk hq hr hst hc => ?_
  by_cases hf : ∃ u, l = .projects u ∧ Restores s.data f u
  · obtain ⟨u, rfl, hf⟩ := hf
    intro user m ho hm
    obtain rfl : u = user := ho
    obtain ⟨p, hp, hf, rfl, htr⟩ := hf
    have hroom := hok (hc rfl) p hp hf htr m hm
    have husage : usage E (Plans.statement s.data f) (.projects p.userId) ≤ s.data.projectsCount p.userId + 1 :=
      statement_usage_succ hI.1
    have hcount : 0 < s.txs.countP (creates p.userId) := List.countP_pos_iff.mpr ⟨tx, htx, creates_of_asks hq hst⟩
    omega
  · exact (hr hst hc).mono statement_shrinks.later hq.in (statement_usage fun u hl hr => hf ⟨u, hl, hr⟩)

theorem inProject_of_refuse {task project : ℕ} (hw : d.WellFormed) (h : refuse E d (.restoreTask task project) = none) :
    InProject d task project := by
  simp only [refuse] at h
  split at h
  · cases h
  · rename_i t hf
    have hmem := List.mem_of_find?_eq_some hf
    obtain ⟨rfl, rfl⟩ : t.id = task ∧ t.projectId = project := by simpa using List.find?_some hf
    exact ⟨hw.taskIds t hmem, fun t' ht' hid => by rw [List.inj_on_of_nodup_map hw.tasks ht' hmem hid]⟩

theorem isProtected : Protected (planLimitService E) (fun s f => C → RestoresWithRoom E s f) (Limited E C)
    (Holds E C) Seen where
  refuse d q hI h task project hq := by
    cases hq
    exact inProject_of_refuse (E := E) hI.1 h
  refuseStatement _ _ _ _ _ _ hq := by cases hq
  lock d q ks id hI hs h := by
    obtain ⟨l, rfl, hq⟩ := asks_of_lock hI.1 hs h
    exact ⟨l, rfl, hq, fun h => absurd rfl h, by rintro _ ⟨⟩⟩
  check d q ks id hI hh h := by
    obtain ⟨l, rfl, hq, -, -⟩ := hh
    exact ⟨l, rfl, hq, fun _ _ => room_of_check hI.1 hq h, by rintro _ ⟨⟩⟩
  callback d q ks id w hI hh h := by
    obtain ⟨l, rfl, hq, hr, -⟩ := hh
    refine ⟨l, rfl, hq, fun _ => hr (by simp), ?_⟩
    rintro _ ⟨⟩
    exact grows_of_callback hq h
  write d q ks id w hI hh := by
    obtain ⟨l, -, -, hr, hw⟩ := hh
    exact hI.write (hw w rfl) (hr (by simp))
  writeFrame d q ks id w tx hI hh htx hapart := by
    obtain ⟨l, rfl, -, -, hw⟩ := hh
    refine htx.later write_later fun l' hk hq hr hst hc => (hr hst hc).mono write_later hq.in ?_
    have hne : l' ≠ l := by
      rintro rfl
      exact hapart l'.row (by rw [hk]; exact List.mem_singleton_self _) (List.mem_singleton_self _)
    have := write_usage (E := E) hI.1 (hw w rfl) hq.in
    rwa [if_neg hne] at this
  writeSeen _ _ _ _ _ _ _ _ hx task project he := write_later.inProject (hx task project he)
  statement _ _ hI hok _ _ := hI.data.statement hok
  statementFrame _ _ tx hI hok _ _ htx := (hI.holds tx htx).statement hI.data hok htx
  statementSeen _ _ _ _ _ hx task project he := statement_shrinks.later.inProject (hx task project he)

/-! ### Runs -/

/-- No transaction is under way. -/
def start (d : Data) : Config (Store Data Row Request Write) (Point Request Write Statement Refusal) :=
  ⟨⟨d, [], 0⟩, []⟩

theorem holds_start (h : Limited E C d) : Interleave.Holds (Inv (Limited E C) (Holds E C)) (Knows Seen) (start d) :=
  ⟨{ data := h, holds := by rintro _ ⟨⟩, lt := by rintro _ ⟨⟩, apart := .nil }, by rintro _ ⟨⟩⟩

/-- **The limits of a plan.** The tasks and the members of each project stay within
them; so do the projects of each owner, if restores leave room. -/
theorem withinLimits_of_run (hw : d.WellFormed) (hl : ∀ l, Within E d l) {tr c}
    (h : (planLimitService E).program.Run (start d) tr c) :
    (∀ p ∈ c.store.data.projects, ∀ m, (E.plan p.userId).maxFor .TasksPerProject = some m →
      c.store.data.activeTasksCount p.id ≤ m) ∧
    (∀ p ∈ c.store.data.projects, ∀ m, (E.plan p.userId).maxFor .MembersPerProject = some m →
      c.store.data.activeMembersCount E p.id ≤ m) ∧
    ((∀ st ∈ tr, st.Meets (Made (RestoresWithRoom E))) →
      ∀ user m, (E.plan user).maxFor .Projects = some m → c.store.data.projectsCount user ≤ m) := by
  have always := (isProtected.outline.run (holds_start (C := False) ⟨hw, fun l _ => hl l⟩) h
    fun st _ p e _ f _ _ hfalse => hfalse.elim).1.data.2
  refine ⟨fun p hp m hm => ?_, fun p hp m hm => ?_, fun hok user m hm => ?_⟩
  · exact always (.tasks p.id) (by rintro ⟨⟩) p.userId m ⟨p, hp, rfl, rfl⟩ hm
  · exact always (.members p.id) (by rintro ⟨⟩) p.userId m ⟨p, hp, rfl, rfl⟩ hm
  · have hI := (isProtected.outline.run (holds_start (C := True) ⟨hw, fun l _ => hl l⟩) h
      fun st hst p e hf f hp he _ => hok st hst p e hf f hp he).1.data.2
    exact hI (.projects user) (fun _ => trivial) user m rfl hm

namespace Sample

/-- Everybody is on the free plan. -/
def env : Env := ⟨fun _ => .Free, fun _ => true, fun _ => none, fun _ _ _ => false⟩

def empty : Data := ⟨[], [], [], 1, 1⟩

theorem empty_wellFormed : empty.WellFormed where
  projects := .nil
  projectIds := by rintro _ ⟨⟩
  tasks := .nil
  taskIds := by rintro _ ⟨⟩
  taskProjects := by rintro _ ⟨⟩
  members := .nil
  memberProjects := by rintro _ ⟨⟩

theorem empty_within (l : Scope) : Within env empty l := by
  intro _ _ _ _
  cases l <;> exact Nat.zero_le _

def noTasks : ProjectCreateData := ⟨[], by decide⟩

/-- The user creates a project. -/
def create : List (Act (Point Request Write Statement Refusal) Reply) :=
  .arrive (.request (.createProject 1 noTasks)) :: List.replicate 5 (.move 0 .done) ++ [.crash 0]

/-- A statement is made. -/
def make (f : Statement) : List (Act (Point Request Write Statement Refusal) Reply) :=
  [.arrive (.ask f), .move 0 .done, .move 0 .done]

end Sample

/-- An archived project makes room for another, and is restored. -/
theorem projects_exceeded : ∃ E d tr c, d.WellFormed ∧ (∀ l, Within E d l) ∧
    (planLimitService E).program.Run (start d) tr c ∧ (E.plan 1).maxFor .Projects = some 3 ∧
    c.store.data.projectsCount 1 = 4 := by
  obtain ⟨tr, c, h, hc⟩ := (planLimitService Sample.env).program.exists_run_of_replay
    (Sample.create ++ Sample.create ++ Sample.create ++ Sample.make (.deleteProject 1) ++ Sample.create ++
      Sample.make (.restoreProject 1)) (c := start Sample.empty)
    (q := fun _ c => c.store.data.projectsCount 1 == 4) (by decide)
  exact ⟨Sample.env, Sample.empty, tr, c, Sample.empty_wellFormed, Sample.empty_within, h, by decide, by simpa using hc⟩

/-- A project is restored where there is room for it. -/
theorem withinLimits_restored : ∃ tr c, (planLimitService Sample.env).program.Run (start Sample.empty) tr c ∧
    c.store.data.projectsCount 1 = 3 ∧
    ∀ user m, (Sample.env.plan user).maxFor .Projects = some m → c.store.data.projectsCount user ≤ m := by
  obtain ⟨tr, c, h, hc⟩ := (planLimitService Sample.env).program.exists_run_of_replay
    (Sample.create ++ Sample.create ++ Sample.create ++ Sample.make (.deleteProject 1) ++
      Sample.make (.restoreProject 1)) (c := start Sample.empty)
    (q := fun tr c => c.store.data.projectsCount 1 == 3 &&
      tr.all fun st => (made st).all fun f => decide (RestoresWithRoom Sample.env st.pre.store f)) (by decide)
  simp only [Bool.and_eq_true, beq_iff_eq, List.all_eq_true, Option.all_eq_true, decide_eq_true_eq] at hc
  exact ⟨tr, c, h, hc.1, (withinLimits_of_run Sample.empty_wellFormed Sample.empty_within h).2.2 fun st hst =>
    meets_made (hc.2 st hst)⟩

end Plans
end Daywright
