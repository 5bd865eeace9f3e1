/-
# The standing of a member, and the audit log

Whatever else goes on, a user's standing in a project moves along one cycle: no member,
invited, active, no member (`Moves`). Only an invitation of a user who is no member
invites, only an invitation makes an active member, in the transaction that logs
it, and what ends a membership is a removal, which logs it too, the cancelling or
rejecting of the invitation it came from, or the end of the project
(`standing_of_run`).

Cancelling and rejecting look at no standing and take no lock. They are what the audit log
does not account for: along a run it says of each project and user in turn that they are a
member and that they are not, the last time rightly, as long as no invitation is cancelled
or rejected that has been accepted, or is being accepted (`accounted_iff`).

Key definitions: `Moves`, `Accounted`, `inTime`.
Key theorems: `standing_of_run`, `members_of_run`, `accounted_iff`.
-/
import Daywright.Plans.Membership

namespace Daywright
namespace Membership

open Guard Plans Interleave

variable {E : Accounts}

/-- What is done is about the standing of this user in this project. -/
def touches (project user : ℕ) : Option (Write ⊕ Statement) → Bool
  | some (.inl (.plan (.invite p u))) | some (.inl (.plan (.activate p u))) | some (.inl (.removeMember p u))
  | some (.inr (.detach p u)) => p == project && u == user
  | some (.inr (.forceDeleteProject p)) => p == project
  | _ => false

/-- What a step may do to the standing of a user in a project, with what it logs about them. -/
inductive Moves (project user : ℕ) : Option (Write ⊕ Statement) → Option Bool → Option Bool → List Bool → Prop
  | stays {x : Option (Write ⊕ Statement)} (b : Option Bool) (h : touches project user x = false) :
      Moves project user x b b []
  | invited : Moves project user (some (.inl (.plan (.invite project user)))) none (some false) []
  | accepted : Moves project user (some (.inl (.plan (.activate project user)))) (some false) (some true) [true]
  /-- The invitation is gone by the time it is accepted. -/
  | acceptedLate : Moves project user (some (.inl (.plan (.activate project user)))) none none [true]
  | removed : Moves project user (some (.inl (.removeMember project user))) (some true) none [false]
  | removedLate : Moves project user (some (.inl (.removeMember project user))) none none [false]
  | detached (b : Option Bool) : Moves project user (some (.inr (.detach project user))) b none []
  | forceDeleted (b : Option Bool) : Moves project user (some (.inr (.forceDeleteProject project))) b none []

/-! ### What a step does -/

section Step

variable {d : Data} {project user p u : ℕ} {w : Write}

theorem entries_write : entries (write d w) p u =
    entries d p u ++ (w.logged.filter fun a => a.auditableId == p && a.memberId == u).map (·.newActive) := by
  rw [entries, write, List.filter_append, List.map_append]
  rfl

theorem entries_write_of_nil (h : w.logged = []) : entries (write d w) p u = entries d p u := by
  rw [entries_write, h]
  exact List.append_nil _

theorem beq_pair : (project == p && user == u) = decide (p = project ∧ u = user) := by
  rw [Bool.eq_iff_iff, Bool.and_eq_true, beq_iff_eq, beq_iff_eq, decide_eq_true_eq, eq_comm, eq_comm (a := user)]

theorem entries_write_of_singleton {a : AuditLog} (h : w.logged = [a]) : entries (write d w) p u =
    entries d p u ++ if p = a.auditableId ∧ u = a.memberId then [a.newActive] else [] := by
  rw [entries_write, h, List.filter_singleton, beq_pair]
  by_cases hpu : p = a.auditableId ∧ u = a.memberId
  · rw [if_pos hpu, decide_eq_true hpu]
    rfl
  · rw [if_neg hpu, decide_eq_false hpu]
    rfl

/-- What is about one user in one project leaves the others where they stand. -/
theorem moves_of_pair {x : Option (Write ⊕ Statement)} {d' : Data} {b : Option Bool} {es : List Bool}
    (ht : touches p u x = (project == p && user == u))
    (hentries : entries d' p u = entries d p u ++ if p = project ∧ u = user then es else [])
    (hstanding : standing d'.plans p u = if p = project ∧ u = user then b else standing d.plans p u)
    (hm : p = project → u = user → Moves p u x (standing d.plans p u) b es) :
    ∃ es, entries d' p u = entries d p u ++ es ∧ Moves p u x (standing d.plans p u) (standing d'.plans p u) es := by
  by_cases h : p = project ∧ u = user
  · rw [if_pos h] at hentries hstanding
    rw [hstanding]
    exact ⟨es, hentries, hm h.1 h.2⟩
  · rw [if_neg h] at hentries hstanding
    rw [hstanding]
    exact ⟨[], hentries, .stays _ (by rw [ht, beq_pair, decide_eq_false h])⟩

/-- Each write that applies, and each statement, moves every user along the cycle. -/
theorem moves_apply {x : Option (Write ⊕ Statement)} (happ : ∀ w, x = some (.inl w) → Applies d.plans w) :
    ∃ es, entries ((membershipService E).apply d x) p u = entries d p u ++ es ∧
      Moves p u x (standing d.plans p u) (standing ((membershipService E).apply d x).plans p u) es := by
  have stays {x : Option (Write ⊕ Statement)} {d' : Data} (ht : touches p u x = false)
      (hlogs : d'.auditLogs = d.auditLogs) (hmembers : d'.plans.members = d.plans.members) :
      ∃ es, entries d' p u = entries d p u ++ es ∧
        Moves p u x (standing d.plans p u) (standing d'.plans p u) es := by
    refine ⟨[], ?_, ?_⟩
    · rw [entries, hlogs, List.append_nil, entries]
    · rw [standing_congr hmembers]
      exact .stays _ ht
  have nothing {P : Prop} [Decidable P] : entries d p u = entries d p u ++ if P then [] else [] := by
    rw [ite_self, List.append_nil]
  rcases x with _ | w | f
  · exact stays rfl rfl rfl
  · have hw := happ w rfl
    rcases w with w | ⟨project, user⟩
    · cases w with
      | nothing | createProject | createTask | restoreTask => exact stays rfl (List.append_nil _) rfl
      | invite project user =>
        refine moves_of_pair rfl ((entries_write_of_nil rfl).trans nothing) (standing_invite hw.1) ?_
        rintro rfl rfl
        rw [hw.1]
        exact .invited
      | activate project user =>
        refine moves_of_pair rfl (entries_write_of_singleton (w := .plan (.activate project user)) rfl)
          standing_activate ?_
        rintro rfl rfl
        match hb : standing d.plans p u with
        | none => exact .acceptedLate
        | some false => exact .accepted
        | some true => exact absurd hb hw
    · refine moves_of_pair rfl (entries_write_of_singleton (w := .removeMember project user) rfl) standing_detach ?_
      rintro rfl rfl
      match hb : standing d.plans p u with
      | none => exact .removedLate
      | some false => exact absurd hb hw
      | some true => exact .removed
  · cases f with
    | deleteProject | restoreProject | archiveTask | deleteTask => exact stays rfl rfl rfl
    | forceDeleteProject project =>
      have hpair (b : Option Bool) : (if p = project then b else standing d.plans p u) =
          if p = project ∧ u = u then b else standing d.plans p u := by
        simp only [and_true]
      have htouches : touches p u (some (.inr (.forceDeleteProject project))) = (project == p && u == u) := by
        rw [beq_self_eq_true, Bool.and_true]
        rfl
      refine moves_of_pair htouches nothing (standing_removeProject.trans (hpair none)) ?_
      rintro rfl -
      exact .forceDeleted _
    | detach project user =>
      refine moves_of_pair rfl nothing standing_detach ?_
      rintro rfl rfl
      exact .detached _

end Step

/-! ### Runs -/

/-- No transaction is under way. -/
def start (d : Data) : Config MemberStore MemberPoint :=
  ⟨⟨d, [], 0⟩, []⟩

/-- What a step does to the data. -/
def did (st : Interleave.Step MemberStore MemberPoint Reply) :
    Option (Write ⊕ Statement) :=
  st.fired.bind fun x => st.pre.store.did x.1 x.2

theorem holds_start {d : Data} (hs : Sound d.plans) :
    Interleave.Holds (Inv (fun d => Sound d.plans) Holds) (Knows Seen) (start d) :=
  ⟨{ data := hs, holds := by rintro _ ⟨⟩, lt := by rintro _ ⟨⟩, apart := .nil }, by rintro _ ⟨⟩⟩

/-- What is written has been decided on by a transaction that may rely on it. -/
theorem applies_of_did {s : MemberStore} {pt : MemberPoint} {e : Reply}
    (hI : Inv (fun d => Sound d.plans) Holds s) (w : Write) (h : s.did pt e = some (.inl w)) :
    Applies s.data.plans w ∧ ∀ project, w.project = some project → ∃ p ∈ s.data.plans.projects, p.id = project := by
  obtain ⟨tx, htx, hw⟩ := Store.find_of_did h
  have hh := hI.holds tx htx
  refine ⟨hh.applies w hw, fun project hp => ?_⟩
  obtain ⟨p, hpm, hid, -⟩ := hh.live project (hh.project w hw project hp)
  exact ⟨p, hpm, hid⟩

section Runs

variable {d : Data} {tr : List (Interleave.Step MemberStore MemberPoint Reply)}
  {c : Config MemberStore MemberPoint}

theorem holds_of_run (hs : Sound d.plans) (h : (membershipService E).program.Run (start d) tr c) :
    Interleave.Holds (Inv (fun d => Sound d.plans) Holds) (Knows Seen) c :=
  isProtected.outline.run (holds_start hs) h fun _ _ _ _ _ _ _ _ => trivial

theorem holds_pre (hs : Sound d.plans) (h : (membershipService E).program.Run (start d) tr c) :
    ∀ st ∈ tr, Interleave.Holds (Inv (fun d => Sound d.plans) Holds) (Knows Seen) st.pre ∧
      (membershipService E).program.step st.pre st.act = some st.post :=
  isProtected.outline.run_pre (holds_start hs) h fun _ _ _ _ _ _ _ _ => trivial

theorem data_of_did {c c' : Config MemberStore MemberPoint}
    {a : Act MemberPoint Reply} (h : (membershipService E).program.step c a = some c') :
    c'.store.data = (membershipService E).apply c.store.data (did ⟨c, a, c'⟩) := by
  rcases (membershipService E).program.step_cases h with
    ⟨p, rfl, -, rfl⟩ | ⟨i, rfl, rfl⟩ | ⟨i, e, p, s, k, rfl, hp, hm, rfl, -⟩
  · rfl
  · rfl
  · rw [data_of_step hm]
    simp only [did, Step.fired, hp, Option.map_some, Option.bind_some]

namespace Sample

/-- Everybody is on the free plan and has an account; the address of user 2 is known. -/
def accounts : Accounts where
  plan _ := .Free
  active _ := true
  userByEmail email := if email = "member@example.test" then some 2 else none
  columnEquals _ _ _ := false
  active_of_found _ := rfl

/-- User 1 has a project. -/
def team : Data := ⟨⟨[⟨1, 1, false⟩], [], [], 2, 1⟩, []⟩

theorem team_sound : Sound team.plans where
  wellFormed :=
    { projects := by decide
      projectIds := by decide
      tasks := .nil
      taskIds := by rintro _ ⟨⟩
      taskProjects := by rintro _ ⟨⟩
      members := .nil
      memberProjects := by rintro _ ⟨⟩ }
  project := by rintro _ ⟨⟩
  owner := by rintro _ ⟨⟩

/-- A request runs to its end. -/
def run (q : Request) : List (Act MemberPoint Reply) :=
  .arrive (.request q) :: List.replicate 5 (.move 0 .done) ++ [.crash 0]

def invite : List (Act MemberPoint Reply) :=
  run (.plan (.sendInvitation 1 "member@example.test"))

/-- User 2 is invited, accepts, and is removed. -/
def season : List (Act MemberPoint Reply) :=
  invite ++ run (.plan (.acceptInvitation 1 2)) ++ run (.removeMember 1 2)

/-- The invitation is cancelled while it is being accepted. -/
def cancelled : List (Act MemberPoint Reply) :=
  invite ++ [.arrive (.request (.plan (.acceptInvitation 1 2))), .move 0 .done, .move 0 .done, .move 0 .done,
    .move 0 .done, .arrive (.ask (.detach 1 2)), .move 1 .done, .move 1 .done, .move 0 .done]

end Sample

/-- **The cycle of a membership.** Whatever requests run, and however they interleave, each
step leaves a user's standing in a project as it is, or moves it on along the cycle, and
logs that they have become a member, or have been removed, when it does so; and an
acceptance or a removal that finds the row gone logs the same, without a move. -/
theorem standing_of_run (hs : Sound d.plans) (h : (membershipService E).program.Run (start d) tr c) :
    ∀ st ∈ tr, ∀ project user : ℕ, ∃ es,
      entries st.post.store.data project user = entries st.pre.store.data project user ++ es ∧
      Moves project user (did st) (standing st.pre.store.data.plans project user)
        (standing st.post.store.data.plans project user) es := by
  intro st hst project user
  obtain ⟨hpre, hstep⟩ := holds_pre hs h st hst
  rw [data_of_did hstep]
  refine moves_apply fun w hw => ?_
  obtain ⟨x, hx, hdid⟩ := Option.bind_eq_some_iff.mp hw
  exact (applies_of_did hpre.1 w hdid).1

/-- User 2 is invited, accepts and is removed. -/
theorem standing_of_run_season : ∃ tr c, (membershipService Sample.accounts).program.Run (start Sample.team) tr c ∧
    entries c.store.data 1 2 = [true, false] ∧
    ∀ st ∈ tr, ∀ project user : ℕ, ∃ es,
      entries st.post.store.data project user = entries st.pre.store.data project user ++ es ∧
      Moves project user (did st) (standing st.pre.store.data.plans project user)
        (standing st.post.store.data.plans project user) es := by
  obtain ⟨tr, c, h, hc⟩ := (membershipService Sample.accounts).program.exists_run_of_replay Sample.season
    (c := start Sample.team) (q := fun _ c => entries c.store.data 1 2 == [true, false]) (by decide +kernel)
  exact ⟨tr, c, h, beq_iff_eq.mp hc, standing_of_run Sample.team_sound h⟩

/-- **The members are in order.** In every state that is reached a user has at most one row in
a project, which is there, and is not their own. -/
theorem members_of_run (hs : Sound d.plans) (h : (membershipService E).program.Run (start d) tr c) :
    (c.store.data.plans.members.map fun m => (m.projectId, m.userId)).Nodup ∧
    ∀ m ∈ c.store.data.plans.members, ∃ p ∈ c.store.data.plans.projects, p.id = m.projectId ∧ p.userId ≠ m.userId := by
  have hsound := (holds_of_run hs h).1.data
  refine ⟨hsound.wellFormed.members, fun m hm => ?_⟩
  obtain ⟨p, hp, hid⟩ := hsound.project m hm
  exact ⟨p, hp, hid, hsound.owner m hm p hp hid⟩

/-- User 2 is invited. -/
theorem members_of_run_invited : ∃ tr c, (membershipService Sample.accounts).program.Run (start Sample.team) tr c ∧
    c.store.data.plans.members = [⟨1, 2, false⟩] ∧
    (c.store.data.plans.members.map fun m => (m.projectId, m.userId)).Nodup ∧
    ∀ m ∈ c.store.data.plans.members, ∃ p ∈ c.store.data.plans.projects, p.id = m.projectId ∧ p.userId ≠ m.userId := by
  obtain ⟨tr, c, h, hc⟩ := (membershipService Sample.accounts).program.exists_run_of_replay Sample.invite
    (c := start Sample.team) (q := fun _ c => c.store.data.plans.members == [⟨1, 2, false⟩]) (by decide +kernel)
  exact ⟨tr, c, h, beq_iff_eq.mp hc, members_of_run Sample.team_sound h⟩

end Runs

/-! ### What the audit log accounts for -/

/-- In turn that the user is a member, and that they are not. -/
def alternating (n : ℕ) : List Bool := (List.range n).map fun i => i % 2 == 0

theorem alternating_succ (n : ℕ) : alternating (n + 1) = alternating n ++ [n % 2 == 0] := by
  rw [alternating, List.range_succ, List.map_append, List.map_singleton, alternating]

theorem length_alternating (n : ℕ) : (alternating n).length = n := by
  rw [alternating, List.length_map, List.length_range]

theorem alternating_append_eq {n m : ℕ} {b : Bool} :
    alternating n ++ [b] = alternating m ↔ m = n + 1 ∧ b = (n % 2 == 0) := by
  constructor
  · intro h
    have hm : m = n + 1 := by
      have hl := congrArg List.length h
      rw [List.length_append, length_alternating, length_alternating, List.length_singleton] at hl
      exact hl.symm
    rw [hm, alternating_succ, List.append_cancel_left_eq, List.singleton_inj] at h
    exact ⟨hm, h⟩
  · rintro ⟨rfl, rfl⟩
    exact (alternating_succ n).symm

/-- The log's last word on the user is right. -/
def AccountsFor (d : Data) (project user : ℕ) : Prop :=
  ∃ n, entries d project user = alternating n ∧ (standing d.plans project user = some true ↔ n % 2 = 1)

/-- The log is about projects that have been created, and accounts for the members of those
that are there. -/
structure Accounted (d : Data) : Prop where
  created : ∀ a ∈ d.auditLogs, a.auditableId < d.plans.nextProject
  members : ∀ p ∈ d.plans.projects, ∀ user, AccountsFor d p.id user

/-- What is done finds the member as it expects: who is accepted or removed has a row still,
and whose row is taken away is no active member. -/
def inTime (d : Data) : Option (Write ⊕ Statement) → Bool
  | some (.inl (.plan (.activate project user))) | some (.inl (.removeMember project user)) =>
    (standing d.plans project user).isSome
  | some (.inr (.detach project user)) => standing d.plans project user != some true
  | _ => true

section Accounted

variable {d d' : Data} {p u : ℕ} {x : Option (Write ⊕ Statement)}

/-- A move keeps the log right exactly if it is in time. -/
theorem accountsFor_iff {es : List Bool} (ha : AccountsFor d p u) (hentries : entries d' p u = entries d p u ++ es)
    (hm : Moves p u x (standing d.plans p u) (standing d'.plans p u) es)
    (hx : x ≠ some (.inr (.forceDeleteProject p))) :
    AccountsFor d' p u ↔ (touches p u x = true → inTime d x = true) := by
  obtain ⟨n, hn, hstanding⟩ := ha
  unfold AccountsFor
  rw [hentries, hn]
  generalize hb : standing d.plans p u = b at hm hstanding
  generalize standing d'.plans p u = b' at hm
  cases hm with
  | stays _ ht =>
    rw [List.append_nil]
    exact iff_of_true ⟨n, rfl, hstanding⟩ fun h => absurd h (by rw [ht]; exact Bool.false_ne_true)
  | invited =>
    rw [List.append_nil]
    exact iff_of_true ⟨n, rfl, by rw [← hstanding]; simp⟩ fun _ => rfl
  | accepted =>
    have heven : ¬ n % 2 = 1 := fun h => by cases hstanding.mpr h
    have hlast : true = (n % 2 == 0) := (beq_iff_eq.mpr (by omega)).symm
    refine iff_of_true ⟨n + 1, alternating_append_eq.mpr ⟨rfl, hlast⟩, iff_of_true rfl (by omega)⟩ fun _ => ?_
    rw [inTime, hb]
    rfl
  | acceptedLate =>
    refine iff_of_false ?_ fun h => ?_
    · rintro ⟨m, hm, hodd⟩
      have hlast : n % 2 = 0 := beq_iff_eq.mp (alternating_append_eq.mp hm).2.symm
      cases hodd.mpr (by rw [(alternating_append_eq.mp hm).1]; omega)
    · have hin := h (by simp [touches])
      rw [inTime, hb] at hin
      cases hin
  | removed =>
    have hodd : n % 2 = 1 := hstanding.mp rfl
    have hlast : false = (n % 2 == 0) := (beq_eq_false_iff_ne.mpr (by omega)).symm
    refine iff_of_true ⟨n + 1, alternating_append_eq.mpr ⟨rfl, hlast⟩, iff_of_false nofun (by omega)⟩ fun _ => ?_
    rw [inTime, hb]
    rfl
  | removedLate =>
    refine iff_of_false ?_ fun h => ?_
    · rintro ⟨m, hm, -⟩
      have hlast : ¬ n % 2 = 0 := beq_eq_false_iff_ne.mp (alternating_append_eq.mp hm).2.symm
      cases hstanding.mpr (by omega)
    · have hin := h (by simp [touches])
      rw [inTime, hb] at hin
      cases hin
  | detached =>
    rw [List.append_nil, inTime, hb, bne_iff_ne]
    have hleft : (∃ m, alternating n = alternating m ∧ ((none : Option Bool) = some true ↔ m % 2 = 1)) ↔
        b ≠ some true := by
      constructor
      · rintro ⟨m, hm, hodd⟩ he
        have hnm := congrArg List.length hm
        rw [length_alternating, length_alternating] at hnm
        cases hodd.mpr (hnm ▸ hstanding.mp he)
      · exact fun he => ⟨n, rfl, iff_of_false nofun fun h => he (hstanding.mpr h)⟩
    exact hleft.trans ⟨fun h _ => h, fun h => h (by simp [touches])⟩
  | forceDeleted => exact absurd rfl hx

/-- There is nothing to account for in a project that has not been created. -/
theorem accountsFor_of_le (hs : Sound d.plans) (ha : Accounted d) (hp : d.plans.nextProject ≤ p) :
    AccountsFor d p u := by
  have hentries : entries d p u = [] := by
    rw [entries, List.map_eq_nil_iff, List.filter_eq_nil_iff]
    intro a hmem he
    have hlt := ha.created a hmem
    simp only [Bool.and_eq_true, beq_iff_eq] at he
    omega
  have hstanding : standing d.plans p u = none := by
    refine standing_eq_none.mpr fun m hm => Bool.eq_false_iff.mpr fun h => ?_
    have hlt := hs.wellFormed.memberProjects m hm
    have hid := (isOf_iff.mp h).1
    omega
  exact ⟨0, hentries, by rw [hstanding]; exact iff_of_false nofun nofun⟩

theorem later_apply (x : Option (Write ⊕ Statement)) : Later d.plans ((membershipService E).apply d x).plans := by
  rcases x with _ | w | f
  · exact .refl _
  · exact write_later w
  · exact statement_shrinks.later

/-- What is logged is about a project that is there. -/
theorem mem_auditLogs_apply {a : AuditLog} (h : a ∈ ((membershipService E).apply d x).auditLogs) :
    a ∈ d.auditLogs ∨ ∃ w : Write, x = some (.inl w) ∧ w.project = some a.auditableId := by
  rcases x with _ | w | f
  · exact .inl h
  · rcases List.mem_append.mp h with h | h
    · exact .inl h
    · refine .inr ⟨w, rfl, ?_⟩
      rcases w with w | ⟨project, user⟩
      · cases w with
        | activate =>
          rw [List.mem_singleton.mp h]
          rfl
        | _ => exact absurd h List.not_mem_nil
      · rw [List.mem_singleton.mp h]
        rfl
  · exact .inl h

/-- **A step keeps the log right exactly if it is in time.** -/
theorem accounted_apply_iff (hs : Sound d.plans) (ha : Accounted d)
    (hw : ∀ w, x = some (.inl w) → Applies d.plans w ∧
      ∀ project, w.project = some project → ∃ p ∈ d.plans.projects, p.id = project) :
    Accounted ((membershipService E).apply d x) ↔ inTime d x = true := by
  have hmoves (p u : ℕ) := moves_apply (E := E) (d := d) (p := p) (u := u) fun w h => (hw w h).1
  -- who is touched in a project that is still there is accounted for if this is in time
  have touched {p : Project} {u : ℕ} (hp : p ∈ d.plans.projects)
      (hp' : p ∈ ((membershipService E).apply d x).plans.projects) (ht : touches p.id u x = true)
      (hx : x ≠ some (.inr (.forceDeleteProject p.id))) (h : Accounted ((membershipService E).apply d x)) :
      inTime d x = true := by
    obtain ⟨es, hentries, hm⟩ := hmoves p.id u
    exact (accountsFor_iff (ha.members p hp u) hentries hm hx).mp (h.members p hp' u) ht
  constructor
  · intro h
    rcases x with _ | w | f
    · rfl
    · rcases w with w | ⟨project, user⟩
      · cases w with
        | nothing | createProject | createTask | restoreTask | invite => rfl
        | activate project user =>
          obtain ⟨p, hp, rfl⟩ := (hw _ rfl).2 project rfl
          exact touched (u := user) hp (mem_projects_write hp) (by simp [touches]) nofun h
      · obtain ⟨p, hp, rfl⟩ := (hw _ rfl).2 project rfl
        exact touched (u := user) hp (mem_projects_write hp) (by simp [touches]) nofun h
    · cases f with
      | deleteProject | restoreProject | forceDeleteProject | archiveTask | deleteTask => rfl
      | detach project user =>
        rw [inTime, bne_iff_ne]
        intro hactive
        obtain ⟨m, hm, rfl, rfl, -⟩ := exists_of_standing hactive
        obtain ⟨p, hp, hid⟩ := hs.project m hm
        have hin := touched (u := m.userId) hp hp (by simp [touches, hid]) nofun h
        rw [inTime, bne_iff_ne] at hin
        exact hin hactive
  · refine fun hin => ⟨fun a hmem => ?_, fun p' hp' u => ?_⟩
    · refine Nat.lt_of_lt_of_le ?_ (later_apply x).projectIds
      rcases mem_auditLogs_apply hmem with h | ⟨w, hx, hp⟩
      · exact ha.created a h
      · obtain ⟨p, hp, hid⟩ := (hw w hx).2 _ hp
        exact hid ▸ hs.wellFormed.projectIds p hp
    · have hfor : AccountsFor d p'.id u := by
        by_cases hlt : p'.id < d.plans.nextProject
        · obtain ⟨p, hp, hid, -⟩ := (later_apply x).owner p' hp' hlt
          exact hid ▸ ha.members p hp u
        · exact accountsFor_of_le hs ha (Nat.le_of_not_lt hlt)
      obtain ⟨es, hentries, hm⟩ := hmoves p'.id u
      refine (accountsFor_iff hfor hentries hm ?_).mpr fun _ => hin
      rintro rfl
      exact absurd (List.mem_filter.mp hp').2 (by simp)

/-- The step finds the member as it expects. -/
def InTime (s : MemberStore) (p : MemberPoint) (e : Reply) : Prop :=
  inTime s.data (s.did p e) = true

instance (s : MemberStore) (p : MemberPoint) (e : Reply) :
    Decidable (InTime s p e) := by
  unfold InTime
  infer_instance

theorem accounted_step_iff {s s' : MemberStore} {pt : MemberPoint}
    {e : Reply} {k : Option MemberPoint} (hI : Inv (fun d => Sound d.plans) Holds s)
    (ha : Accounted s.data) (h : (membershipService E).step s pt e = some (s', k)) :
    Accounted s'.data ↔ InTime s pt e := by
  rw [data_of_step h]
  exact accounted_apply_iff hI.data ha (applies_of_did hI)

theorem outline : Outline (membershipService E).program InTime
    (fun s => Inv (fun d => Sound d.plans) Holds s ∧ Accounted s.data) (Knows Seen) :=
  isProtected.outline.strengthenStore (fun _ _ _ _ _ _ _ => trivial) fun _ _ _ _ _ hI _ ha hok hm =>
    (accounted_step_iff hI ha hm).mpr hok

/-- **What the audit log is worth.** Along a run the log accounts for the members of every
project, all the time, if and only if every acceptance and removal finds the row that it was
decided on, and no invitation is cancelled or rejected whose user is an active member. -/
theorem accounted_iff (hs : Sound d.plans) (ha : Accounted d)
    {tr : List (Interleave.Step MemberStore MemberPoint Reply)}
    {c : Config MemberStore MemberPoint}
    (h : (membershipService E).program.Run (start d) tr c) :
    (∀ st ∈ tr, Accounted st.post.store.data) ↔ ∀ st ∈ tr, st.Meets InTime :=
  outline.forall_store_iff (fun _ hI => hI.2) (fun _ _ _ _ _ hI _ hm => accounted_step_iff hI.1 hI.2 hm)
    ⟨⟨(holds_start hs).1, ha⟩, (holds_start hs).2⟩ h

end Accounted

namespace Sample

theorem team_accounted : Accounted team where
  created := by rintro _ ⟨⟩
  members _ _ _ := ⟨0, rfl, iff_of_false nofun nofun⟩

end Sample

/-- The log accounts for a member who comes and goes, and not for one whose invitation is
cancelled while they accept it. -/
theorem accounted_iff_season :
    (∃ tr c, (membershipService Sample.accounts).program.Run (start Sample.team) tr c ∧
      entries c.store.data 1 2 = [true, false] ∧ ∀ st ∈ tr, Accounted st.post.store.data) ∧
    ∃ tr c, (membershipService Sample.accounts).program.Run (start Sample.team) tr c ∧
      entries c.store.data 1 2 = [true] ∧ standing c.store.data.plans 1 2 = none ∧
      ¬ ∀ st ∈ tr, Accounted st.post.store.data := by
  constructor
  · obtain ⟨tr, c, h, hc⟩ := (membershipService Sample.accounts).program.exists_run_of_replay Sample.season
      (c := start Sample.team)
      (q := fun tr c => entries c.store.data 1 2 == [true, false] && tr.all fun st => decide (st.Meets InTime))
      (by decide +kernel)
    rw [Bool.and_eq_true, beq_iff_eq, List.all_eq_true] at hc
    exact ⟨tr, c, h, hc.1, (accounted_iff Sample.team_sound Sample.team_accounted h).mpr fun st hst =>
      of_decide_eq_true (hc.2 st hst)⟩
  · obtain ⟨tr, c, h, hc⟩ := (membershipService Sample.accounts).program.exists_run_of_replay Sample.cancelled
      (c := start Sample.team)
      (q := fun tr c => (entries c.store.data 1 2 == [true] && standing c.store.data.plans 1 2 == none) &&
        tr.any fun st => decide (¬ st.Meets InTime))
      (by decide +kernel)
    rw [Bool.and_eq_true, Bool.and_eq_true, beq_iff_eq, beq_iff_eq, List.any_eq_true] at hc
    obtain ⟨⟨hentries, hstanding⟩, st, hst, hlate⟩ := hc
    exact ⟨tr, c, h, hentries, hstanding, fun hall => of_decide_eq_true hlate
      ((accounted_iff Sample.team_sound Sample.team_accounted h).mp hall st hst)⟩

end Membership
end Daywright
