/-
# The limit of created meetings

`CreateProjectMeeting` checks the plan's limit in a transaction of its own and
inserts the meeting in another; the check counts the meetings that are Active. So
it does not see a meeting that is being updated, deleted or created, nor a
creation that has been let through, and all of these may be Active later: the run
`limit_exceeded` ends above the limit. The limit holds along every run in which
each creation that passes the check leaves room for them (`createdMeetings_le`).

An account is the meetings of one user, each with its own processes; meetings are
never removed from the table. The lock on `meeting-create:user` has a lease, so
it plays no part.

Key definitions: `program`, `mayBeActive`, `LeavesRoom`.
Key theorems: `stays_failed`, `createdMeetings_le`.
-/
import Mathlib.Data.List.Induction
import Daywright.Meetings.Coupling
import Daywright.Meetings.Establish

namespace Daywright

/-! ### A meeting whose creation failed -/

/-- Where a failed creation can go. -/
theorem Sync.Step.of_failed {fresh : Uuid → Prop} {s s' : Sync} (hw : s.WellFormed)
    (hs : s.status = .failed) (h : Step fresh s s') :
    s'.status = .failed ∨ s'.status = .deleted ∨ s'.status = .active := by
  have htype : s.type = none := hw.creation (.inr (.inr (.inr hs)))
  have closed (ho : s.status = .creating ∨ s.status = .createUnknown) :
      s'.status = .failed ∨ s'.status = .deleted ∨ s'.status = .active := by
    rcases ho with h | h <;> cases hs.symm.trans h
  cases h with
  | keep | postpone | disturb => exact .inl hs
  | intend payload lease hf ht hst => rcases hst with h | h | h <;> cases hs.symm.trans h
  | claimOperation lease hf hst => rcases hst with h | h | h | h <;> cases hs.symm.trans h
  | await a ht => cases htype.symm.trans ht
  | fail ht => cases htype.symm.trans ht
  | remove => exact .inr (.inl rfl)
  | settle | activate => exact .inr (.inr rfl)
  | claimCreation lease a hf ho => exact closed ho
  | attach id a ho => exact closed ho
  | suspect a ho => exact closed ho
  | review ho => exact closed ho
  | reject ho => exact closed ho

namespace Meetings

open Interleave

variable {E : Env} {s s' : Store} {p q : Point} {e : Input} {k : Option Point} {o : Outcome Point} {m' : Meeting}

/-- Nobody has a claim on a meeting whose creation failed. -/
def Unclaimed (s : Sync) : Prop := s.status = .failed → s.claim = none

theorem Unclaimed.step {fresh : Uuid → Prop} {s s' : Sync} (hu : Unclaimed s) (h : Sync.Step fresh s s') :
    Unclaimed s' := by
  cases h with
  | keep => exact hu
  | claimOperation lease hf hs =>
    intro hst
    rcases hs with h | h | h | h <;> cases h.symm.trans hst
  | claimCreation => exact nofun
  | _ => exact fun _ => rfl

theorem Unclaimed.late {s s' : Sync} (h : Sync.Late s s') : Unclaimed s' := fun _ => h.claim

/-- Only its creation makes a meeting Active that failed. -/
theorem act_not_active (hp : ∀ q, p ≠ .create q) (hI : Inv s) (hA : Knowledge s p)
    (hs : s.row.syncStatus = .failed) (hc : s.row.syncClaimToken = none) (h : act E p s.row e = some o)
    (hw : o.written = some m') : m'.syncStatus ≠ .active := by
  have unowned (job : RecoverZoomMeetingOperationJob) :
      PerformZoomMeetingRecovery.owns job s.row e.now = false := by
    by_contra ho
    cases hc.symm.trans (PerformZoomMeetingRecovery.owns_iff.mp (eq_true_of_ne_false ho)).1
  intro ha
  obtain ⟨⟨q, hq⟩ | hst | hst, -⟩ :=
    act_of_creation hI hA (.inr (.inr (.inr hs))) (fun job _ _ => unowned job) h hw ha
  · exact hp q hq
  · cases hs.symm.trans hst
  · cases hs.symm.trans hst

/-- A meeting whose creation failed stays so, or is deleted, until the creation itself is
answered. -/
theorem stays_failed (hp : ∀ q, p ≠ .create q) (hI : Inv s) (hA : Knowledge s p) (hu : Unclaimed s.row.sync)
    (hs : s.row.syncStatus = .failed) (h : (program E).move s p e = some (s', k)) :
    s'.row.syncStatus = .failed ∨ s'.row.syncStatus = .deleted := by
  obtain ⟨o, hmv⟩ := moved h
  cases hw : o.written with
  | none =>
    rw [hmv.row, hw]
    exact .inl hs
  | some m' =>
    rw [hmv.row, hw, Option.getD_some]
    have hna := act_not_active hp hI hA hs (hu hs) hmv.outcome hw
    rcases (act_moves hp hA hmv.fresh hmv.outcome hw).sync.of_failed hI.wellFormed hs with h | h | h
    · exact .inl h
    · exact .inr h
    · exact absurd h hna

theorem unclaimedOutline : Outline (program E) (fun _ _ _ => True)
    (fun s => Inv s ∧ Unclaimed s.row.sync) Knowledge :=
  outline.strengthenStore (fun _ _ _ h => h) fun s p e s' k hI hA hu _ h => by
    rcases (move_effect hA h).1 with ⟨-, hl, -⟩ | ⟨-, hl, -⟩ | ⟨-, -, hs⟩
    · exact .late hl
    · exact .late hl
    · exact hu.step hs

/-- A creation is not begun again on the same row. -/
theorem next_not_create (h : (program E).move s p e = some (s', some q)) : ∀ r, q ≠ .create r := by
  rintro r rfl
  obtain ⟨o, ho, hk, -⟩ := moved h
  cases p with
  | create p =>
    obtain ⟨o₁, ho₁, rfl⟩ := Option.map_eq_some_iff.mp ho
    obtain ⟨c, -, rfl⟩ := Option.map_eq_some_iff.mp ho₁
    cases hk
  | recoverPending =>
    cases ho
    unfold recoverPendingStep at hk
    split at hk
    · obtain ⟨op, -, he⟩ := Option.map_eq_some_iff.mp hk.symm
      cases he
    · cases hk
  | createdWebhook data =>
    cases ho
    cases hk
  | _ =>
    obtain ⟨o₁, -, rfl⟩ := Option.map_eq_some_iff.mp ho
    obtain ⟨r', -, he⟩ := Option.map_eq_some_iff.mp hk.symm
    cases he

/-! ### The meetings of one user -/

namespace PlanLimit

structure Account where
  meetings : List Store

inductive Process where
  /-- `CreateProjectMeeting::handle`, about to check the limit. -/
  | handle (data : MeetingStoreData)
  /-- The check is passed; the row is inserted next. -/
  | createMeetingWithOperation (data : MeetingStoreData)
  /-- A process on the meeting at this place of the table. -/
  | meeting (i : ℕ) (p : Point)

/-- `meetings_count`. -/
def createdMeetings (a : Account) : ℕ := a.meetings.countP fun s => s.row.syncStatus == .active

def withinLimit (usage : ℕ) (maxAllowed : Option ℕ) : Bool := maxAllowed.all (usage < ·)

/-- `maxAllowed` is what the user's plan allows; `none`: any number. -/
def program (E : Env) (maxAllowed : Option ℕ) : Program Account Process Input where
  entry
    | .handle _ => true
    | .createMeetingWithOperation _ => false
    | .meeting _ p => p.entry
  move a p e :=
    match p with
    | .handle data =>
      some (a, if withinLimit (createdMeetings a) maxAllowed then some (.createMeetingWithOperation data) else none)
    | .createMeetingWithOperation data =>
      some (⟨a.meetings ++ [(created data e.uuid e.now).store]⟩,
        some (.meeting a.meetings.length (.create .createMeeting)))
    | .meeting i p =>
      match a.meetings[i]? with
      | none => none
      | some s => ((Meetings.program E).move s p e).map fun (s', k) => (⟨a.meetings.set i s'⟩, k.map (.meeting i))

/-- A user without meetings. -/
def start : Config Account Process := ⟨⟨[]⟩, []⟩

/-! ### Meetings that may be Active -/

def creates (i : ℕ) : Process → Bool
  | .meeting j (.create _) => j == i
  | _ => false

def admitted : Process → Bool
  | .createMeetingWithOperation _ => true
  | _ => false

/-- The meeting is not deleted, and if its creation failed, the creation is still to be
answered. -/
def mayBeActive (c : Config Account Process) (i : ℕ) : Bool :=
  c.store.meetings[i]?.any fun s =>
    s.row.syncStatus != .deleted && (s.row.syncStatus != .failed || c.procs.any (creates i))

/-- The meetings that may be Active, now or later, and those about to be inserted. -/
def openMeetings (c : Config Account Process) : ℕ :=
  (List.range c.store.meetings.length).countP (mayBeActive c) + c.procs.countP admitted

/-- If the step lets a creation pass the check, there is room for one more. -/
def LeavesRoom (M : ℕ) (st : Step Account Process Input) : Prop :=
  ∀ data e, st.Fires (.handle data) e → withinLimit (createdMeetings st.pre.store) (some M) = true →
    openMeetings st.pre < M

variable {M : Option ℕ} {c c' : Config Account Process}

/-! ### What holds of every account -/

def Sound (a : Account) : Prop := ∀ s ∈ a.meetings, Inv s ∧ Unclaimed s.row.sync

def Aware (a : Account) : Process → Prop
  | .meeting i p => (p.entry = true ∨ i < a.meetings.length) ∧ ∀ s, a.meetings[i]? = some s → Knowledge s p
  | _ => True

theorem created_unclaimed (data : MeetingStoreData) (operationId : Uuid) (now : Time) :
    Unclaimed (created data operationId now).store.row.sync := fun _ => rfl

theorem move_meeting {a a' : Account} {i : ℕ} {p : Point} {e : Input} {k : Option Process}
    (h : (program E M).move a (.meeting i p) e = some (a', k)) : ∃ s s' k', a.meetings[i]? = some s ∧
      (Meetings.program E).move s p e = some (s', k') ∧ a' = ⟨a.meetings.set i s'⟩ ∧ k = k'.map (.meeting i) := by
  simp only [program] at h
  split at h
  · cases h
  · rename_i s hs
    obtain ⟨⟨s', k'⟩, hm, he⟩ := Option.map_eq_some_iff.mp h
    cases he
    exact ⟨s, s', k', hs, hm, rfl, rfl⟩

theorem accountOutline : Outline (program E M) (fun _ _ _ => True) Sound Aware where
  entry a p _ hp := by
    cases p with
    | meeting i p => exact ⟨.inl hp, fun s _ => .of_entry hp⟩
    | _ => trivial
  move a p e a' k hI hA _ h := by
    cases p with
    | handle data =>
      cases h
      refine ⟨hI, fun q hq => ?_⟩
      split at hq <;> cases hq
      trivial
    | createMeetingWithOperation data =>
      cases h
      have h₀ := created_holds data e.uuid e.now
      refine ⟨fun s hs => ?_, fun q hq => ?_⟩
      · rcases List.mem_append.mp hs with hs | hs
        · exact hI s hs
        · rw [List.mem_singleton.mp hs]
          exact ⟨h₀.1, created_unclaimed data e.uuid e.now⟩
      · cases hq
        exact ⟨.inr (by simp), fun s _ => trivial⟩
    | meeting i p =>
      obtain ⟨s, s', k', hs, hm, rfl, rfl⟩ := move_meeting h
      obtain ⟨hinv, hnext⟩ :=
        unclaimedOutline.move s p e s' k' (hI s (List.mem_of_getElem? hs)) (hA.2 s hs) trivial hm
      refine ⟨fun r hr => ?_, fun q hq => ?_⟩
      · rcases List.mem_or_eq_of_mem_set hr with hr | rfl
        · exact hI r hr
        · exact hinv
      · obtain ⟨q', hq', rfl⟩ := Option.map_eq_some_iff.mp hq
        have hi : i < a.meetings.length := (List.getElem?_eq_some_iff.mp hs).1
        refine ⟨.inr (by simpa using hi), fun r hr => ?_⟩
        simp only [List.getElem?_set_self hi, Option.some.injEq] at hr
        exact hr ▸ hnext q' hq'
  frame a p e a' k q hI hA _ h hq := by
    cases q with
    | meeting j q =>
      cases p with
      | handle data =>
        cases h
        exact hq
      | createMeetingWithOperation data =>
        cases h
        refine ⟨hq.1.imp_right fun hj => ?_, fun r hr => ?_⟩
        · simp only [List.length_append, List.length_singleton]
          omega
        · rcases Nat.lt_or_ge j a.meetings.length with hj | hj
          · rw [List.getElem?_append_left hj] at hr
            exact hq.2 r hr
          · exact .of_entry (hq.1.resolve_right (Nat.not_lt.mpr hj))
      | meeting i p =>
        obtain ⟨s, s', k', hs, hm, rfl, rfl⟩ := move_meeting h
        refine ⟨hq.1.imp_right fun hj => by simpa using hj, fun r hr => ?_⟩
        simp only [List.getElem?_set] at hr
        split at hr
        · rename_i hij
          subst hij
          split at hr <;> cases hr
          exact unclaimedOutline.frame s p e _ k' q (hI s (List.mem_of_getElem? hs)) (hA.2 s hs) trivial hm
            (hq.2 s hs)
        · exact hq.2 r hr
    | _ => trivial

theorem holds_of_run {tr : List (Step Account Process Input)} (h : (program E M).Run start tr c) :
    Holds Sound Aware c :=
  accountOutline.run ⟨fun s hs => by simp [start] at hs, fun p hp => by simp [start] at hp⟩ h
    fun _ _ _ _ _ => trivial

/-! ### A step -/

theorem mayBeActive_iff {i : ℕ} : mayBeActive c i = true ↔ ∃ s, c.store.meetings[i]? = some s ∧
    s.row.syncStatus ≠ .deleted ∧ (s.row.syncStatus = .failed → ∃ q ∈ c.procs, creates i q = true) := by
  simp only [mayBeActive, Option.any_eq_true, Bool.and_eq_true, Bool.or_eq_true, bne_iff_ne, List.any_eq_true]
  exact exists_congr fun s => and_congr_right fun _ => and_congr_right fun _ => Classical.or_iff_not_imp_left.trans
    (by rw [not_not])

/-- As long as its row stays, nothing but its creation makes a meeting one that may be Active. -/
theorem mayBeActive_of_same {i : ℕ} (hs : c'.store.meetings[i]? = c.store.meetings[i]?)
    (hq : ∀ q ∈ c'.procs, creates i q = true → q ∈ c.procs) (h : mayBeActive c' i = true) :
    mayBeActive c i = true := by
  obtain ⟨s, hst, hd, hf⟩ := mayBeActive_iff.mp h
  refine mayBeActive_iff.mpr ⟨s, hs ▸ hst, hd, fun hfail => ?_⟩
  obtain ⟨q, hqm, hc⟩ := hf hfail
  exact ⟨q, hq q hqm hc, hc⟩

/-- No step of a process on the meeting does either. -/
theorem mayBeActive_of_move {i : ℕ} {p : Point} {e : Input} {s s' : Store} {k : Option Point}
    (hH : Holds Sound Aware c) (hs : c.store.meetings[i]? = some s) (hp : .meeting i p ∈ c.procs)
    (hm : (Meetings.program E).move s p e = some (s', k)) (hs' : c'.store.meetings[i]? = some s')
    (hq : ∀ q ∈ c'.procs, q ∈ c.procs ∨ k.map (.meeting i) = some q) (h : mayBeActive c' i = true) :
    mayBeActive c i = true := by
  obtain ⟨hI, hu⟩ := hH.1 s (List.mem_of_getElem? hs)
  have hA : Knowledge s p := (hH.2 _ hp).2 s hs
  obtain ⟨r, hr, hd, hf⟩ := mayBeActive_iff.mp h
  cases hs'.symm.trans hr
  refine mayBeActive_iff.mpr ⟨s, hs, fun hdel => ?_, fun hfail => ?_⟩
  · exact hd ((move_effect hA hm).1.deleted hI hdel)
  by_contra hn
  have hcreate : ∀ q, p ≠ .create q := fun q hq => hn ⟨_, hp, by simp [creates, hq]⟩
  rcases stays_failed hcreate hI hA hu hfail hm with hs | hs
  · obtain ⟨q, hqm, hc⟩ := hf hs
    rcases hq q hqm with hq | hq
    · exact hn ⟨q, hq, hc⟩
    · obtain ⟨q', hk, rfl⟩ := Option.map_eq_some_iff.mp hq
      subst hk
      cases q' with
      | create r => exact next_not_create hm r rfl
      | _ => cases hc
  · exact hd hs

theorem not_creates_of_entry {p : Process} (h : (program E M).entry p = true) (i : ℕ) :
    creates i p = false ∧ admitted p = false := by
  cases p with
  | handle data => exact ⟨rfl, rfl⟩
  | createMeetingWithOperation data => cases h
  | meeting j p =>
    cases p with
    | create q => cases h
    | _ => exact ⟨rfl, rfl⟩

theorem openMeetings_le {d : ℕ} (hn : c'.store.meetings.length = c.store.meetings.length)
    (h : ∀ i, mayBeActive c' i = true → mayBeActive c i = true)
    (ha : c'.procs.countP admitted ≤ c.procs.countP admitted + d) : openMeetings c' ≤ openMeetings c + d := by
  have hrange : (List.range c.store.meetings.length).countP (mayBeActive c') ≤
      (List.range c.store.meetings.length).countP (mayBeActive c) :=
    List.countP_mono_left fun i _ => h i
  unfold openMeetings
  rw [hn]
  omega

/-- A creation that is let through takes the room that is left; no other step takes any. -/
theorem openMeetings_step {M : ℕ} {a : Act Process Input} (hH : Holds Sound Aware c)
    (hs : (program E (some M)).step c a = some c') (hr : LeavesRoom M ⟨c, a, c'⟩)
    (hle : openMeetings c ≤ M) : openMeetings c' ≤ M := by
  cases a with
  | arrive p =>
    simp only [Program.step, Option.ite_none_right_eq_some, Option.some.injEq] at hs
    obtain ⟨hp, rfl⟩ := hs
    refine le_trans (openMeetings_le (c := c) (d := 0) rfl (fun i => mayBeActive_of_same rfl fun q hq hc => ?_) ?_) hle
    · refine (List.mem_append.mp hq).resolve_right fun hq => ?_
      rw [List.mem_singleton.mp hq, (not_creates_of_entry hp i).1] at hc
      cases hc
    · simp [List.countP_append, (not_creates_of_entry hp 0).2]
  | crash i =>
    simp only [Program.step, Option.ite_none_right_eq_some, Option.some.injEq] at hs
    obtain ⟨-, rfl⟩ := hs
    refine le_trans (openMeetings_le (c := c) (d := 0) rfl (fun i => mayBeActive_of_same rfl fun q hq _ => ?_) ?_) hle
    · exact List.mem_of_mem_eraseIdx hq
    · exact (List.eraseIdx_sublist c.procs i).countP_le
  | move i e =>
    obtain ⟨p, hp⟩ : ∃ p, c.procs[i]? = some p := by
      cases hp : c.procs[i]? with
      | none => simp [Program.step, hp] at hs
      | some p => exact ⟨p, rfl⟩
    obtain ⟨a', k, hm, rfl, hq, hcount⟩ := (program E (some M)).countP_move admitted hp hs
    have hpm : p ∈ c.procs := List.mem_of_getElem? hp
    cases p with
    | handle data =>
      simp only [program, Option.some.injEq, Prod.mk.injEq] at hm
      obtain ⟨hstore, rfl⟩ := hm
      have hopen (j : ℕ) (h : mayBeActive c' j = true) : mayBeActive c j = true := by
        refine mayBeActive_of_same (by rw [hstore]) (fun q hqm hc => (hq q hqm).resolve_right fun hk => ?_) h
        split at hk <;> cases hk
        cases hc
      cases hpass : withinLimit (createdMeetings c.store) (some M) with
      | true =>
        simp only [hpass, admitted, Option.any_some, Bool.false_eq_true, if_false, if_true] at hcount
        have hroom : openMeetings c < M := hr data e ⟨i, rfl, hp⟩ hpass
        have hle := openMeetings_le (c := c) (d := 1) (by rw [hstore]) hopen hcount.le
        omega
      | false =>
        simp only [hpass, admitted, Option.any_none, Bool.false_eq_true, if_false] at hcount
        exact le_trans (openMeetings_le (c := c) (d := 0) (by rw [hstore]) hopen hcount.le) hle
    | createMeetingWithOperation data =>
      simp only [program, Option.some.injEq, Prod.mk.injEq] at hm
      obtain ⟨hstore, rfl⟩ := hm
      have hopen (j : ℕ) (hj : j ∈ List.range c.store.meetings.length) (h : mayBeActive c' j = true) :
          mayBeActive c j = true := by
        have hj := List.mem_range.mp hj
        refine mayBeActive_of_same ?_ (fun q hqm hc => (hq q hqm).resolve_right fun hk => ?_) h
        · rw [← hstore]
          exact List.getElem?_append_left hj
        · cases hk
          simp only [creates, beq_iff_eq] at hc
          omega
      have hrange := List.countP_mono_left hopen
      have hlast : [c.store.meetings.length].countP (mayBeActive c') ≤ 1 := List.countP_le_length
      simp only [admitted, Option.any_some, Bool.false_eq_true, if_false, if_true] at hcount
      unfold openMeetings at hle ⊢
      rw [← hstore, List.length_append, List.length_singleton, List.range_succ, List.countP_append]
      omega
    | meeting j p =>
      obtain ⟨s, s', k', hs₁, hm₁, hstore, rfl⟩ := move_meeting hm
      refine le_trans (openMeetings_le (c := c) (d := 0) (by rw [hstore]; exact List.length_set) (fun i hi => ?_) ?_) hle
      · by_cases hij : i = j
        · subst hij
          have hlt := (List.getElem?_eq_some_iff.mp hs₁).1
          refine mayBeActive_of_move hH hs₁ hpm hm₁ ?_ hq hi
          rw [hstore]
          exact List.getElem?_set_self hlt
        · refine mayBeActive_of_same ?_ (fun q hqm hc => (hq q hqm).resolve_right fun hk => ?_) hi
          · rw [hstore]
            exact List.getElem?_set_ne (Ne.symm hij)
          · obtain ⟨q', -, rfl⟩ := Option.map_eq_some_iff.mp hk
            cases q' <;> simp [creates] at hc
            exact hij hc.symm
      · cases k' <;> simpa [admitted] using hcount.le

/-! ### Along a run -/

theorem countP_eq_range {α : Type*} (f : α → Bool) (l : List α) :
    l.countP f = (List.range l.length).countP fun i => l[i]?.any f := by
  induction l using List.reverseRecOn with
  | nil => rfl
  | append_singleton l x ih =>
    rw [List.length_append, List.length_singleton, List.range_succ, List.countP_append, List.countP_append, ih]
    congr 1
    · refine List.countP_congr fun i hi => ?_
      rw [List.getElem?_append_left (List.mem_range.mp hi)]
    · simp

theorem createdMeetings_le_openMeetings : createdMeetings c.store ≤ openMeetings c := by
  refine le_trans ?_ (Nat.le_add_right _ _)
  unfold createdMeetings
  rw [countP_eq_range]
  refine List.countP_mono_left fun i _ h => ?_
  obtain ⟨s, hs, ha⟩ := (Option.any_eq_true _ _).mp h
  rw [beq_iff_eq] at ha
  exact mayBeActive_iff.mpr ⟨s, hs, by rw [ha]; nofun, fun hf => by rw [ha] at hf; cases hf⟩

theorem openMeetings_run {M : ℕ} {tr : List (Step Account Process Input)}
    (h : (program E (some M)).Run start tr c) (hr : ∀ st ∈ tr, LeavesRoom M st) : openMeetings c ≤ M := by
  induction h with
  | nil => exact Nat.zero_le M
  | snoc a hrun hs ih =>
    have hle := ih fun st hst => hr st (List.mem_append_left _ hst)
    exact openMeetings_step (holds_of_run hrun) hs (hr _ (List.mem_append_right _ (List.mem_singleton_self _))) hle

/-- **The plan's limit holds** in every run in which each creation that passes the
check leaves room for the meetings that may be Active and for those let through
before it. -/
theorem createdMeetings_le {M : ℕ} {tr : List (Step Account Process Input)}
    (h : (program E (some M)).Run start tr c) (hr : ∀ st ∈ tr, LeavesRoom M st) :
    createdMeetings c.store ≤ M :=
  le_trans createdMeetings_le_openMeetings (openMeetings_run h hr)

namespace Sample

open Meetings.Sample

/-- A meeting is created. -/
def create (z : ZoomMeeting) (operationId : Uuid) : List (Act Process Input) :=
  [.arrive (.handle storeData), .move 0 (input 0 "" .none), .move 0 (input 0 operationId .none),
    .move 0 (input 1000 "" (.created z))]

/-- Its password is changed, and Zoom is to be read for it. -/
def changePassword : List (Act Process Input) :=
  [.arrive (.meeting 0 (.update (.saveUpdateIntent ⟨none, none, none, none, none, some "changed", none⟩))),
    .move 0 (input 60000 "op-update" .none), .move 0 (input 61000 "" .done)]

/-- The recovery finds the password changed. -/
def verifyPassword : List (Act Process Input) :=
  [.arrive (.meeting 0 .recoverPending), .move 0 (input 200000 "claim" .none), .move 0 (input 200000 "" .none),
    .move 0 (input 201000 "" (.fetched (some { zoomMeeting with password := "changed" }))),
    .move 0 (input 201000 "" .none), .move 0 (input 201000 "" .none)]

end Sample

def leavesRoom (M : ℕ) (st : Step Account Process Input) : Bool :=
  match st.mover with
  | some (.handle _) => !withinLimit (createdMeetings st.pre.store) (some M) || decide (openMeetings st.pre < M)
  | _ => true

theorem leavesRoom_sound {M : ℕ} {st : Step Account Process Input} (h : leavesRoom M st = true) :
    LeavesRoom M st := by
  intro data e hf hpass
  simpa [leavesRoom, hf.mover, hpass] using h

/-- A plan with one meeting, and its creation. -/
theorem createdMeetings_le_create : ∃ tr c, (program Meetings.Sample.env (some 1)).Run start tr c ∧
    0 < createdMeetings c.store ∧ createdMeetings c.store ≤ 1 := by
  obtain ⟨tr, c, h, hc⟩ := (program Meetings.Sample.env (some 1)).exists_run_of_replay
    (Sample.create Meetings.Sample.zoomMeeting "op-create") (c := start)
    (q := fun tr c => tr.all (leavesRoom 1) && decide (0 < createdMeetings c.store)) (by decide)
  simp only [Bool.and_eq_true, List.all_eq_true, decide_eq_true_eq] at hc
  exact ⟨tr, c, h, hc.2, createdMeetings_le h fun st hst => leavesRoom_sound (hc.1 st hst)⟩

/-- A plan with one meeting: while the first has its password changed, a second one
is created, and then both are Active. -/
theorem limit_exceeded : ∃ tr c, (program Meetings.Sample.env (some 1)).Run start tr c ∧
    createdMeetings c.store = 2 := by
  obtain ⟨tr, c, h, hc⟩ := (program Meetings.Sample.env (some 1)).exists_run_of_replay
    (Sample.create Meetings.Sample.zoomMeeting "op-create" ++ Sample.changePassword ++
      Sample.create { Meetings.Sample.zoomMeeting with meetingId := 78 } "op-create-2" ++ Sample.verifyPassword)
    (c := start) (q := fun _ c => createdMeetings c.store == 2) (by decide)
  exact ⟨tr, c, h, by simpa using hc⟩

end PlanLimit
end Meetings
end Daywright
