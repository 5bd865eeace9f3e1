/-
# Nothing is delivered after the mark

The lock and the queue keep the attempts at a notification apart, as long as they are
in time (`InTime`): a worker acts before the queue hands its job out again (the job's
timeout is below `retry_after`), a lock that is due to expire belongs to no queued job,
and a job that failed gives its lock back before another one takes it. In such a run
nothing is delivered of a notification that is marked as sent, and it is marked once
(`no_delivery_after_mark`): a member who hears twice of a start has been served by an
attempt that was broken off.

Key definitions: `InTime`, `Queue`, `Holder`, `Final`.
Key theorem: `no_delivery_after_mark`.
-/
import Daywright.Notifications.Delivery

namespace Daywright

namespace Notifications

open Interleave Table

variable {sha256 : String → String} {s s' : Store} {p q : Point} {e : Input} {k : Option Point} {w w' : Attempt}

/-! ### In time -/

/-- The attempt is the last one at its job. -/
def Current (s : Store) (w : Attempt) : Prop := ∃ j ∈ s.jobs, j.id = w.job ∧ j.attempts = w.attempts

namespace Point

/-- The attempt a worker makes, at a job that is queued. -/
def atWork : Point → Option Attempt
  | .handle w | .load w _ | .send w _ _ | .markNotificationAsSent w | .releaseLock w | .delete w | .threw w |
    .fail w => some w
  | _ => none

/-- The attempt after which the job has been deleted as failed. -/
def afterFailure : Point → Option Attempt
  | .failed w => some w
  | _ => none

def worker (p : Point) : Option Attempt := p.atWork.or p.afterFailure

/-- A worker counts on the notification being unsent. -/
def unsent : Point → Bool
  | .load w r => !w.kind.job.hasAlreadySentNotification r
  | .send _ _ _ | .markNotificationAsSent _ => true
  | _ => false

/-- What a process dispatches. -/
def dispatches : Point → Option (MeetingNotification × ℕ)
  | .dispatchNotificationJob kind id | .redispatch kind _ (id :: _) _ => some (kind, id)
  | _ => none

end Point

structure InTime (s : Store) (p : Point) (e : Input) : Prop where
  current : ∀ w ∈ p.atWork, Current s w
  failed : ∀ w ∈ p.afterFailure, ∀ j ∈ s.jobs, j.uniqueId ≠ w.uniqueId
  locked : ∀ x ∈ p.dispatches, ∀ l ∈ s.locks, l.key = x.1.uniqueId x.2 →
    (∃ j ∈ s.jobs, j.uniqueId = x.1.uniqueId x.2) → e.now < l.expiresAt

instance : Decidable (Current s w) := inferInstanceAs (Decidable (∃ j ∈ s.jobs, j.id = w.job ∧ j.attempts = w.attempts))

instance : Decidable (InTime s p e) := decidable_of_iff
  ((∀ w ∈ p.atWork, Current s w) ∧ (∀ w ∈ p.afterFailure, ∀ j ∈ s.jobs, j.uniqueId ≠ w.uniqueId) ∧
    ∀ x ∈ p.dispatches, ∀ l ∈ s.locks, l.key = x.1.uniqueId x.2 →
      (∃ j ∈ s.jobs, j.uniqueId = x.1.uniqueId x.2) → e.now < l.expiresAt)
  ⟨fun h => ⟨h.1, h.2.1, h.2.2⟩, fun h => ⟨h.current, h.failed, h.locked⟩⟩

/-- Who counts on the notification being unsent is at work. -/
theorem Point.atWork_of_unsent (h : p.worker = some w) (hu : p.unsent = true) : p.atWork = some w := by
  cases p <;> first | exact h | cases hu

/-! ### The queue -/

/-- What a step can do to a job. -/
structure JobStep (j j' : QueuedJob) : Prop where
  id : j'.id = j.id
  kind : j'.kind = j.kind
  meetingId : j'.meetingId = j.meetingId
  attempts : j.attempts ≤ j'.attempts

theorem JobStep.refl (j : QueuedJob) : JobStep j j := ⟨rfl, rfl, rfl, le_rfl⟩

theorem JobStep.uniqueId {j j' : QueuedJob} (h : JobStep j j') : j'.uniqueId = j.uniqueId := by
  rw [QueuedJob.uniqueId, QueuedJob.uniqueId, h.kind, h.meetingId]

/-- What a step does to the queue. -/
inductive QueueEffect (s : Store) (p : Point) (e : Input) (s' : Store) : Prop
  | same : s'.jobs = s.jobs → s'.locks = s.locks → s'.lastJob = s.lastJob → QueueEffect s p e s'
  | locked (kind : MeetingNotification) (id : ℕ) (lock : Lock) (queued : Bool) : p.dispatches = some (kind, id) →
      (∀ l ∈ s.locks, l.key = kind.uniqueId id → l.expiresAt ≤ e.now) → lock.key = kind.uniqueId id →
      s'.jobs = (if queued then s.jobs ++ [⟨s.lastJob + 1, kind, id, 0, e.now, none⟩] else s.jobs) →
      s'.locks = lock :: s.locks.filter (·.key != kind.uniqueId id) →
      s'.lastJob = (if queued then s.lastJob + 1 else s.lastJob) → QueueEffect s p e s'
  | changed (id : ℕ) (f : QueuedJob → QueuedJob) : (∀ j, JobStep j (f j)) →
      s'.jobs = updateWhere (·.id == id) f s.jobs → s'.locks = s.locks → s'.lastJob = s.lastJob → QueueEffect s p e s'
  | unlocked (w : Attempt) : (p = .releaseLock w ∨ p = .failed w) → s'.jobs = s.jobs →
      s'.locks = s.locks.filter (·.key != w.uniqueId) → s'.lastJob = s.lastJob → QueueEffect s p e s'
  | deleted (id : ℕ) : s'.jobs = s.jobs.filter (·.id != id) → s'.locks = s.locks → s'.lastJob = s.lastJob →
      QueueEffect s p e s'

theorem Effect.queue (h : Effect sha256 s p e s') : QueueEffect s p e s' := by
  cases h with
  | transitioned kind r s' _ _ ht =>
    obtain ⟨m, -, rfl⟩ := transitionTo_some ht
    exact .same rfl rfl rfl
  | dispatched kind id hp =>
    have hd : p.dispatches = some (kind, id) := by
      rcases hp with rfl | ⟨cutoff, ids, full, rfl⟩ <;> rfl
    rcases dispatch_cases kind id e.result.done e.now s with ⟨-, h⟩ | ⟨hfree, lock, hkey, h⟩
    · rw [h]
      exact .same rfl rfl rfl
    · rw [h]
      exact .locked kind id lock e.result.done hd hfree hkey rfl rfl rfl
  | reserved j _ _ =>
    refine .changed j.id _ ?_ rfl rfl rfl
    exact fun i => ⟨rfl, rfl, rfl, Nat.le_succ i.attempts⟩
  | released w _ =>
    refine .changed w.job _ ?_ rfl rfl rfl
    exact fun i => ⟨rfl, rfl, rfl, le_rfl⟩
  | unlocked w hp => exact .unlocked w hp rfl rfl rfl
  | deleted w _ => exact .deleted w.job rfl rfl rfl
  | delivered w asignees user channel remaining _ => cases channel <;> exact .same rfl rfl rfl
  | other w _ => cases w <;> exact .same rfl rfl rfl
  | idle | loaded | marked => exact .same rfl rfl rfl

/-- A job that has just been queued, under a lock that no other held. -/
structure Queued (s : Store) (p : Point) (e : Input) (s' : Store) (j : QueuedJob) : Prop where
  id : j.id = s.lastJob + 1
  lastJob : s'.lastJob = s.lastJob + 1
  dispatches : p.dispatches = some (j.kind, j.meetingId)
  free : ∀ l ∈ s.locks, l.key = j.uniqueId → l.expiresAt ≤ e.now
  locked : ∃ l ∈ s'.locks, l.key = j.uniqueId

namespace QueueEffect

/-- A job was queued before, or has just been. -/
theorem origin (h : QueueEffect s p e s') {j' : QueuedJob} (hj : j' ∈ s'.jobs) :
    (∃ j ∈ s.jobs, JobStep j j') ∨ Queued s p e s' j' := by
  cases h with
  | same hjobs _ _ => exact .inl ⟨j', hjobs ▸ hj, .refl j'⟩
  | locked kind id lock queued hp hfree hkey hjobs hlocks hlast =>
    rw [hjobs] at hj
    cases queued with
    | false => exact .inl ⟨j', hj, .refl j'⟩
    | true =>
      rcases List.mem_append.mp hj with hj | hj
      · exact .inl ⟨j', hj, .refl j'⟩
      · rw [List.mem_singleton.mp hj]
        exact .inr ⟨rfl, hlast, hp, hfree, lock, hlocks ▸ List.mem_cons_self, hkey⟩
  | changed id f hf hjobs _ _ =>
    rw [hjobs] at hj
    obtain ⟨j, hj₀, rfl⟩ := mem_updateWhere.mp hj
    refine .inl ⟨j, hj₀, ?_⟩
    split
    · exact hf j
    · exact .refl j
  | unlocked w _ hjobs _ _ => exact .inl ⟨j', hjobs ▸ hj, .refl j'⟩
  | deleted id hjobs _ _ =>
    rw [hjobs] at hj
    exact .inl ⟨j', (List.mem_filter.mp hj).1, .refl j'⟩

theorem lastJob_le (h : QueueEffect s p e s') : s.lastJob ≤ s'.lastJob := by
  cases h with
  | same _ _ hl | changed _ _ _ _ _ hl | unlocked _ _ _ _ hl | deleted _ _ _ hl => exact hl.ge
  | locked kind id lock queued _ _ _ _ _ hl =>
    rw [hl]
    split <;> omega

theorem nodup (h : QueueEffect s p e s') (hd : (s.jobs.map (·.id)).Nodup) (hb : ∀ j ∈ s.jobs, j.id ≤ s.lastJob) :
    (s'.jobs.map (·.id)).Nodup := by
  cases h with
  | same hjobs _ _ | unlocked _ _ hjobs _ _ => rwa [hjobs]
  | locked kind id lock queued _ _ _ hjobs _ _ =>
    rw [hjobs]
    cases queued with
    | false => exact hd
    | true =>
      rw [if_pos rfl, List.map_append, List.map_singleton]
      refine List.nodup_append.mpr ⟨hd, List.nodup_singleton _, fun a ha b hb' hab => ?_⟩
      obtain ⟨j, hj, rfl⟩ := List.mem_map.mp ha
      have hle := hb j hj
      have hnew : j.id = s.lastJob + 1 := hab.trans (List.mem_singleton.mp hb')
      omega
  | changed id f hf hjobs _ _ =>
    rw [hjobs, map_updateWhere fun j => (hf j).id]
    exact hd
  | deleted id hjobs _ _ =>
    rw [hjobs]
    exact hd.sublist (List.filter_sublist.map _)

/-- A lock is there as long as its holder has not released it. -/
theorem lock (h : QueueEffect s p e s') {l : Lock} (hl : l ∈ s.locks)
    (hp : ∀ w, p = .releaseLock w ∨ p = .failed w → l.key ≠ w.uniqueId) : ∃ l' ∈ s'.locks, l'.key = l.key := by
  cases h with
  | same _ hlocks _ | changed _ _ _ _ hlocks _ | deleted _ _ hlocks _ => exact ⟨l, hlocks ▸ hl, rfl⟩
  | locked kind id lock queued _ _ hkey _ hlocks _ =>
    rw [hlocks]
    by_cases hk : l.key = kind.uniqueId id
    · exact ⟨lock, List.mem_cons_self, hkey.trans hk.symm⟩
    · exact ⟨l, List.mem_cons_of_mem _ (List.mem_filter.mpr ⟨hl, bne_iff_ne.mpr hk⟩), rfl⟩
  | unlocked w hw _ hlocks _ =>
    rw [hlocks]
    exact ⟨l, List.mem_filter.mpr ⟨hl, bne_iff_ne.mpr (hp w hw)⟩, rfl⟩

end QueueEffect

/-! ### What holds in time -/

/-- Of an unsent notification at most one job is queued, under its lock. -/
structure Queue (s : Store) : Prop where
  ids : (s.jobs.map (·.id)).Nodup
  bounded : ∀ j ∈ s.jobs, j.id ≤ s.lastJob
  locked : ∀ j ∈ s.jobs, ¬ Marked s j.kind j.meetingId → ∃ l ∈ s.locks, l.key = j.uniqueId
  unique : ∀ j ∈ s.jobs, ∀ j' ∈ s.jobs, j.kind = j'.kind → j.meetingId = j'.meetingId →
    ¬ Marked s j.kind j.meetingId → j = j'

/-- What an attempt knows of its job. -/
structure Holder (s : Store) (w : Attempt) : Prop where
  bounded : w.job ≤ s.lastJob
  job : ∀ j ∈ s.jobs, j.id = w.job → w.attempts ≤ j.attempts ∧ j.kind = w.kind ∧ j.meetingId = w.meetingId

/-- As long as it is the last one, it counts on the notification being unsent with reason. -/
structure Holding (s : Store) (p : Point) : Prop where
  holder : ∀ w, p.worker = some w → Holder s w
  unsent : ∀ w, p.worker = some w → p.unsent = true → Current s w → ¬ Marked s w.kind w.meetingId

/-- The attempts are different ones. -/
def Distinct (p q : Point) : Prop :=
  ∀ w w', p.worker = some w → q.worker = some w' → (w.job, w.attempts) ≠ (w'.job, w'.attempts)

theorem Queue.effect (hQ : Queue s) (hP : Progress s p) (hok : InTime s p e) (h : Effect sha256 s p e s') :
    Queue s' := by
  have hq := h.queue
  have unmarked {kind : MeetingNotification} {id : ℕ} (hn : ¬ Marked s' kind id) : ¬ Marked s kind id :=
    fun hm => hn (hm.mono fun _ hx => h.mem_log hx)
  -- A lock is released by a worker that found the notification sent, or whose job is gone.
  have keeps {j : QueuedJob} (hj : j ∈ s.jobs) (hn : ¬ Marked s j.kind j.meetingId) (w : Attempt)
      (hp : p = .releaseLock w ∨ p = .failed w) : j.uniqueId ≠ w.uniqueId := by
    rcases hp with rfl | rfl
    · intro he
      obtain ⟨hk, hm⟩ := MeetingNotification.uniqueId_inj he
      exact hn (hk ▸ hm ▸ hP)
    · exact hok.failed w rfl j hj
  have locked {j : QueuedJob} (hj : j ∈ s.jobs) (hn : ¬ Marked s j.kind j.meetingId) :
      ∃ l ∈ s'.locks, l.key = j.uniqueId := by
    obtain ⟨l, hl, hk⟩ := hQ.locked j hj hn
    obtain ⟨l', hl', hk'⟩ := hq.lock hl fun w hp => hk ▸ keeps hj hn w hp
    exact ⟨l', hl', hk'.trans hk⟩
  have hnodup := hq.nodup hQ.ids hQ.bounded
  constructor
  case ids => exact hnodup
  case bounded =>
    intro j' hj'
    rcases hq.origin hj' with ⟨j, hj, hstep⟩ | hnew
    · rw [hstep.id]
      exact (hQ.bounded j hj).trans hq.lastJob_le
    · rw [hnew.id, hnew.lastJob]
  case locked =>
    intro j' hj' hn
    rcases hq.origin hj' with ⟨j, hj, hstep⟩ | hnew
    · rw [hstep.uniqueId]
      exact locked hj (hstep.kind ▸ hstep.meetingId ▸ unmarked hn)
    · exact hnew.locked
  case unique =>
    intro i hi j hj hkind hid hn
    -- A job whose notification is unsent holds the lock, which is in force.
    have free {i j : QueuedJob} (hi : i ∈ s.jobs) (hnew : Queued s p e s' j) (hkind : i.kind = j.kind)
        (hid : i.meetingId = j.meetingId) (hn : ¬ Marked s i.kind i.meetingId) : False := by
      have hkey : i.uniqueId = j.uniqueId := by rw [QueuedJob.uniqueId, QueuedJob.uniqueId, hkind, hid]
      obtain ⟨l, hl, hk⟩ := hQ.locked i hi hn
      have hlt := hok.locked (j.kind, j.meetingId) hnew.dispatches l hl (hk.trans hkey) ⟨i, hi, hkey⟩
      exact absurd (hnew.free l hl (hk.trans hkey)) (Nat.not_le.mpr hlt)
    rcases hq.origin hi with ⟨i₀, hi₀, hstep⟩ | hnew
    · have hn₀ : ¬ Marked s i₀.kind i₀.meetingId := hstep.kind ▸ hstep.meetingId ▸ unmarked hn
      rcases hq.origin hj with ⟨j₀, hj₀, hstep'⟩ | hnew
      · have h₀ : i₀ = j₀ := hQ.unique i₀ hi₀ j₀ hj₀ (by rw [← hstep.kind, hkind, hstep'.kind])
          (by rw [← hstep.meetingId, hid, hstep'.meetingId]) hn₀
        exact List.inj_on_of_nodup_map hnodup hi hj (by rw [hstep.id, hstep'.id, h₀])
      · exact (free hi₀ hnew (hstep.kind ▸ hkind) (hstep.meetingId ▸ hid) hn₀).elim
    · rcases hq.origin hj with ⟨j₀, hj₀, hstep'⟩ | hnew'
      · exact (free hj₀ hnew (hstep'.kind ▸ hkind.symm) (hstep'.meetingId ▸ hid.symm)
          (hstep'.kind ▸ hstep'.meetingId ▸ hkind ▸ hid ▸ unmarked hn)).elim
      · exact List.inj_on_of_nodup_map hnodup hi hj (by rw [hnew.id, hnew'.id])

/-- Two attempts that are the last ones, at one unsent notification, are the same. -/
theorem Queue.same_attempt (hQ : Queue s) (hw : Holder s w) (hw' : Holder s w') (hc : Current s w)
    (hc' : Current s w') (hk : w.kind = w'.kind) (hm : w.meetingId = w'.meetingId)
    (hn : ¬ Marked s w.kind w.meetingId) : (w.job, w.attempts) = (w'.job, w'.attempts) := by
  obtain ⟨j, hj, hid, ha⟩ := hc
  obtain ⟨j', hj', hid', ha'⟩ := hc'
  obtain ⟨-, hkind, hmeeting⟩ := hw.job j hj hid
  obtain ⟨-, hkind', hmeeting'⟩ := hw'.job j' hj' hid'
  have h : j = j' := hQ.unique j hj j' hj' (by rw [hkind, hkind', hk]) (by rw [hmeeting, hmeeting', hm])
    (by rwa [hkind, hmeeting])
  rw [← hid, ← ha, ← hid', ← ha', h]

theorem Holder.effect (hw : Holder s w) (h : QueueEffect s p e s') : Holder s' w := by
  refine ⟨hw.bounded.trans h.lastJob_le, fun j' hj' hid => ?_⟩
  rcases h.origin hj' with ⟨j, hj, hstep⟩ | hnew
  · obtain ⟨ha, hk, hm⟩ := hw.job j hj (hstep.id ▸ hid)
    exact ⟨ha.trans hstep.attempts, hstep.kind.trans hk, hstep.meetingId.trans hm⟩
  · have hle := hw.bounded
    have hid' := hnew.id
    omega

/-- An attempt that is the last one has been so since it began. -/
theorem Current.of_effect (hw : Holder s w) (h : QueueEffect s p e s') (hc : Current s' w) : Current s w := by
  obtain ⟨j', hj', hid, ha⟩ := hc
  rcases h.origin hj' with ⟨j, hj, hstep⟩ | hnew
  · have hle := (hw.job j hj (hstep.id ▸ hid)).1
    have hle' := hstep.attempts
    exact ⟨j, hj, hstep.id ▸ hid, by omega⟩
  · have hle := hw.bounded
    have hid' := hnew.id
    omega

/-- The mark of a notification is that of the attempt that stands there. -/
theorem Marked.of_effect {kind : MeetingNotification} {id : ℕ} (h : Effect sha256 s p e s') (hm : Marked s' kind id) :
    Marked s kind id ∨ ∃ w, p = .markNotificationAsSent w ∧ w.kind = kind ∧ w.meetingId = id := by
  obtain ⟨w, hk, hid, hw⟩ := hm
  rcases h.of_mem_log hw with hw | ⟨_, _, -, -, -, he⟩ | ⟨_, _, _, -, he⟩ | ⟨_, _, _, _, _, -, -, he⟩ | ⟨w', hp, -, he⟩
  · exact .inl ⟨w, hk, hid, hw⟩
  · cases he
  · cases he
  · cases he
  · cases he
    exact .inr ⟨w, hp, hk, hid⟩

theorem Holding.frame (hQ : Queue s) (hp : Holding s p) (hok : InTime s p e) (h : Effect sha256 s p e s')
    (hq : Holding s q) (hd : Distinct p q) : Holding s' q where
  holder w hw := (hq.holder w hw).effect h.queue
  unsent w' hw' hu hc' hm := by
    have hc := Current.of_effect (hq.holder w' hw') h.queue hc'
    have hn := hq.unsent w' hw' hu hc
    rcases hm.of_effect h with hm | ⟨w, rfl, hk, hid⟩
    · exact hn hm
    · have hcw := hok.current w rfl
      exact hd w w' rfl hw' (hQ.same_attempt (hp.holder w rfl) (hq.holder w' hw') hcw hc hk hid (hk ▸ hid ▸ hn))

/-- Where an attempt goes on. -/
theorem worker_next (hq : (act sha256 s p e).2 = some q) (hw : q.worker = some w) : p.worker = some w ∨
    ∃ j ∈ s.jobs, p = .reserve j.id ∧ w = ⟨j.id, j.attempts + 1, j.kind, j.meetingId⟩ ∧
      (act sha256 s p e).1 = reserved j.id e.now s := by
  have goes {w' : Attempt} {q' : Point} (hq : q = e.result.andThen w' q') (hq' : q'.worker = some w') : w' = w := by
    rcases andThen_cases e.result w' q' with ⟨-, he⟩ | he | he
    · rw [hq, he, hq'] at hw
      exact Option.some.inj hw
    · rw [hq, he] at hw
      exact Option.some.inj hw
    · rw [hq, he] at hw
      exact Option.some.inj hw
  cases p with
  | reserve job =>
    simp only [act] at hq ⊢
    split at hq <;> cases hq
    rename_i j hj
    have hid := List.find?_some hj
    simp only [Bool.and_eq_true, beq_iff_eq] at hid
    refine .inr ⟨j, List.mem_of_find?_eq_some hj, by rw [hid.1], ?_, by rw [hid.1]⟩
    split at hw <;> exact (Option.some.inj hw).symm
  | handle w' =>
    left
    simp only [act] at hq
    split at hq <;> cases hq <;> exact congrArg some (goes rfl rfl)
  | load w' r =>
    left
    simp only [act] at hq
    split at hq
    · cases hq
      exact congrArg some (goes rfl rfl)
    · split at hq <;> cases hq <;> exact congrArg some (goes rfl rfl)
  | send w' asignees remaining =>
    left
    cases remaining with
    | nil | cons =>
      cases hq
      exact congrArg some (goes rfl rfl)
  | markNotificationAsSent w' =>
    left
    cases hq
    exact congrArg some (goes rfl rfl)
  | releaseLock | fail =>
    cases hq
    exact .inl hw
  | threw w' =>
    simp only [act] at hq
    split at hq <;> cases hq
    exact .inl hw
  | webhook kind meetingId =>
    simp only [act] at hq
    split at hq
    · cases hq
    · split at hq <;> cases hq
      cases hw
  | transition kind id =>
    simp only [act] at hq
    split at hq
    · split at hq
      · cases hq
      · split at hq <;> cases hq
        cases hw
    · cases hq
  | redispatch kind cutoff ids full =>
    cases ids with
    | nil =>
      cases full with
      | some => cases hq; cases hw
      | none => cases kind <;> cases hq; cases hw
    | cons => cases hq; cases hw
  | check | page => cases hq; cases hw
  | dispatchNotificationJob | delete | failed | other => cases hq

/-- An attempt comes to count on the notification being unsent by reading its row. -/
theorem unsent_next (hq : (act sha256 s p e).2 = some q) (hu : q.unsent = true) (hw : q.worker = some w) :
    (p.unsent = true ∧ p.worker = some w ∧ p ≠ .markNotificationAsSent w) ∨
    p = .handle w ∧ (act sha256 s p e).1 = s ∧ ∃ r ∈ s.meetings, r.id = w.meetingId ∧ w.kind.sentAt r = none := by
  have goes {w' : Attempt} {q' : Point} (hq : q = e.result.andThen w' q') : q = q' := by
    rcases andThen_cases e.result w' q' with ⟨-, he⟩ | he | he
    · rwa [he] at hq
    · rw [hq, he] at hu
      cases hu
    · rw [hq, he] at hu
      cases hu
  cases p with
  | handle w' =>
    right
    simp only [act] at hq ⊢
    split at hq
    · rw [goes (Option.some.inj hq).symm] at hu
      cases hu
    · rename_i r hr
      have hload := goes (Option.some.inj hq).symm
      subst hload
      cases hw
      have hnone : w.kind.sentAt r = none := by
        have hu' : w.kind.job.hasAlreadySentNotification r = false := by simpa [Point.unsent] using hu
        cases hk : w.kind <;> rw [hk] at hu' <;> exact Option.isSome_eq_false_iff.mp hu' |> Option.isNone_iff_eq_none.mp
      exact ⟨rfl, rfl, r, List.mem_of_find?_eq_some hr, by simpa using List.find?_some hr, hnone⟩
  | load w' r =>
    left
    simp only [act] at hq
    split at hq
    · rw [goes (Option.some.inj hq).symm] at hu
      cases hu
    · rename_i hs
      split at hq
      · rw [goes (Option.some.inj hq).symm] at hu
        cases hu
      · rw [goes (Option.some.inj hq).symm] at hw
        exact ⟨by simpa [Point.unsent] using hs, hw, Point.noConfusion⟩
  | send w' asignees remaining =>
    left
    cases remaining with
    | nil | cons =>
      rw [goes (Option.some.inj hq).symm] at hw
      exact ⟨rfl, hw, Point.noConfusion⟩
  | markNotificationAsSent w' =>
    rw [goes (Option.some.inj hq).symm] at hu
    cases hu
  | reserve job =>
    simp only [act] at hq
    split at hq <;> cases hq
    split at hu <;> cases hu
  | threw w' =>
    simp only [act] at hq
    split at hq <;> cases hq
    cases hu
  | webhook kind meetingId =>
    simp only [act] at hq
    split at hq
    · cases hq
    · split at hq <;> cases hq
      cases hu
  | transition kind id =>
    simp only [act] at hq
    split at hq
    · split at hq
      · cases hq
      · split at hq <;> cases hq
        cases hu
    · cases hq
  | redispatch kind cutoff ids full =>
    cases ids with
    | nil =>
      cases full with
      | some => cases hq; cases hu
      | none => cases kind <;> cases hq; cases hu
    | cons => cases hq; cases hu
  | check | page | releaseLock | fail => cases hq; cases hu
  | dispatchNotificationJob | delete | failed | other => cases hq

theorem Holding.next (hI : Inv s) (hQ : Queue s) (hp : Holding s p) (hq : (act sha256 s p e).2 = some q) :
    Holding (act sha256 s p e).1 q where
  holder w hw := by
    rcases worker_next hq hw with hpw | ⟨j, hj, -, rfl, hs⟩
    · exact (hp.holder w hpw).effect (act_effect (p := p) (e := e)).queue
    · rw [hs]
      refine ⟨hQ.bounded j hj, fun j' hj' hid => ?_⟩
      obtain ⟨j₀, hj₀, rfl⟩ := mem_updateWhere.mp hj'
      have h₀ : j₀ = j := by
        refine List.inj_on_of_nodup_map hQ.ids hj₀ hj ?_
        split at hid <;> exact hid
      rw [h₀, if_pos (beq_self_eq_true j.id)]
      exact ⟨le_rfl, rfl, rfl⟩
  unsent w hw hu hc hm := by
    rcases unsent_next hq hu hw with ⟨hpu, hpw, hne⟩ | ⟨-, hs, r, hr, hid, hnone⟩
    · have heff : Effect sha256 s p e (act sha256 s p e).1 := act_effect
      have hc₀ := Current.of_effect (hp.holder w hpw) heff.queue hc
      rcases hm.of_effect heff with hm | ⟨w', hp', -, -⟩
      · exact hp.unsent w hpw hpu hc₀ hm
      · rw [hp'] at hpw hne
        exact hne (congrArg Point.markNotificationAsSent (Option.some.inj hpw))
    · rw [hs] at hm
      obtain ⟨w', hk, hid', hw'⟩ := hm
      exact (hI.marked w' hw').2 r hr (hid.trans hid'.symm) (hk ▸ hnone)

/-! ### The log in time -/

/-- An attempt delivers or marks. -/
def Event.sends : Event → Option Attempt
  | .delivered w _ _ | .marked w => some w
  | _ => none

/-- No event of the notification `w` is about follows its mark. -/
def Final (log : List Event) : Prop :=
  log.Pairwise fun x y => ∀ w w', x = .marked w → y.sends = some w' →
    ¬ (w'.kind = w.kind ∧ w'.meetingId = w.meetingId)

theorem Effect.log_cases (h : Effect sha256 s p e s') : s'.log = s.log ∨
    ∃ x, s'.log = s.log ++ [x] ∧ ∀ w, x.sends = some w → p.unsent = true ∧ p.worker = some w := by
  cases h with
  | transitioned kind r s' _ _ ht =>
    obtain ⟨m, -, rfl⟩ := transitionTo_some ht
    exact .inr ⟨_, rfl, nofun⟩
  | loaded => exact .inr ⟨_, rfl, nofun⟩
  | delivered w asignees user channel remaining hp =>
    refine .inr ⟨.delivered w user channel, by cases channel <;> rfl, fun w' hw' => ?_⟩
    cases hw'
    rw [hp]
    exact ⟨rfl, rfl⟩
  | marked w hp =>
    refine .inr ⟨.marked w, rfl, fun w' hw' => ?_⟩
    cases hw'
    rw [hp]
    exact ⟨rfl, rfl⟩
  | dispatched kind id _ =>
    left
    rcases dispatch_cases kind id e.result.done e.now s with ⟨-, h⟩ | ⟨-, lock, -, h⟩ <;> rw [h]
  | other w _ => left; cases w <;> rfl
  | idle | reserved | unlocked | deleted | released => exact .inl rfl

theorem Final.effect (hF : Final s.log) (hp : Holding s p) (hok : InTime s p e) (h : Effect sha256 s p e s') :
    Final s'.log := by
  rcases h.log_cases with he | ⟨x, he, hx⟩
  · rwa [he]
  · rw [he]
    refine List.pairwise_append.mpr ⟨hF, List.pairwise_singleton _ _, fun y hy z hz w w' hyw hzw' hsame => ?_⟩
    rw [List.mem_singleton.mp hz] at hzw'
    obtain ⟨hu, hw'⟩ := hx w' hzw'
    have hc := hok.current w' (Point.atWork_of_unsent hw' hu)
    exact hp.unsent w' hw' hu hc ⟨w, hsame.1.symm, hsame.2.symm, hyw ▸ hy⟩

/-- A process that arrives makes no attempt yet. -/
theorem worker_of_entry (h : (program sha256).entry p = true) : p.worker = none := by
  cases p <;> first | rfl | exact absurd h Bool.false_ne_true

theorem exclusive_outline (sha256 : String → String) : ApartOutline ((program sha256).restrict InTime)
    (fun s => Inv s ∧ Queue s ∧ Final s.log) (fun s p => Progress s p ∧ Holding s p) Distinct where
  symm p q h w w' hw hw' := (h w' w hw' hw).symm
  entry s p h hp := by
    have hentry : (program sha256).entry p = true := hp
    have hnone := worker_of_entry hentry
    refine ⟨(outline sha256).entry s p h.1 hp, ⟨fun w hw => ?_, fun w hw => ?_⟩⟩
    · cases hnone.symm.trans hw
    · cases hnone.symm.trans hw
  arrive s p q _ hp _ w w' hw _ := by
    have hentry : (program sha256).entry p = true := hp
    cases (worker_of_entry hentry).symm.trans hw
  move s p e s' k h hA hm := by
    obtain ⟨hok, hm⟩ := Program.restrict_move.mp hm
    obtain ⟨hI, hnext⟩ := (outline sha256).move s p e s' k h.1 hA.1 trivial hm
    obtain ⟨rfl, rfl⟩ := moved hm
    have heff : Effect sha256 s p e (act sha256 s p e).1 := act_effect
    have hQ := h.2.1.effect hA.1 hok heff
    have hF := h.2.2.effect hA.2 hok heff
    refine ⟨⟨hI, ⟨hQ.ids, hQ.bounded, hQ.locked, hQ.unique⟩, hF⟩, fun q hq => ⟨hnext q hq, ?_⟩⟩
    have hH := hA.2.next h.1 h.2.1 hq
    exact ⟨fun w hw => ⟨(hH.holder w hw).bounded, (hH.holder w hw).job⟩, hH.unsent⟩
  goOn s p e s' p' q h hA hq hB hm w w' hw hw' := by
    obtain ⟨-, hm⟩ := Program.restrict_move.mp hm
    obtain ⟨rfl, hk⟩ := moved hm
    rcases worker_next hk.symm hw with hpw | ⟨j, hj, rfl, rfl, -⟩
    · exact hB w w' hpw hw'
    · intro he
      have hle := ((hq.2.holder w' hw').job j hj (congrArg Prod.fst he)).1
      have he' := congrArg Prod.snd he
      simp only at he'
      omega
  frame s p e s' k q h hA hq hB hm := by
    obtain ⟨hok, hm⟩ := Program.restrict_move.mp hm
    refine ⟨(outline sha256).frame s p e s' k q h.1 hA.1 trivial hm hq.1, ?_⟩
    obtain ⟨rfl, -⟩ := moved hm
    have heff : Effect sha256 s p e (act sha256 s p e).1 := act_effect
    have hH := hA.2.frame h.2.1 hok heff hq.2 hB
    exact ⟨fun w hw => ⟨(hH.holder w hw).bounded, (hH.holder w hw).job⟩, hH.unsent⟩

/-- In a run in time nothing is delivered, and no mark is set, after the mark. -/
theorem no_delivery_after_mark {tr : List (Step Store Point Input)} {c : Config Store Point}
    (h : (program sha256).Run start tr c) (hok : ∀ st ∈ tr, st.Meets InTime) : Final c.store.log := by
  have none {α : Type} {x : α} {P : Prop} (h : x ∈ ([] : List α)) : P := absurd h List.not_mem_nil
  have hstart : Holds (fun s => Inv s ∧ Queue s ∧ Final s.log) (fun s p => Progress s p ∧ Holding s p) start :=
    ⟨⟨start_holds.1, ⟨List.nodup_nil, fun _ => none, fun _ => none, fun _ => none⟩, List.Pairwise.nil⟩, fun _ => none⟩
  have hapart : Apart Distinct (start.procs) := fun i j p q _ hp _ => by cases hp
  exact ((exclusive_outline sha256).run hstart hapart (h.restrict hok)).1.1.2.2

/-- A member who was served by an attempt that was broken off is served again, and then
the notification is marked. -/
theorem no_delivery_after_mark_twice : ∃ tr c, (program Sample.digest).Run start tr c ∧
    c.store.log.countP (fun x => decide (∃ w ∈ x.sends, x = .delivered w 3 .mail)) = 2 ∧
    c.store.log.countP (fun x => decide (∃ w ∈ x.sends, x = .marked w)) = 1 ∧ Final c.store.log := by
  obtain ⟨tr, c, h, hq⟩ := (program Sample.digest).exists_run_of_replay
    (Sample.transition ++ Sample.dispatch ++ Sample.brokenOff ++ Sample.attempt 400) (c := start)
    (q := fun tr c => tr.all (fun st => decide (st.Meets InTime)) &&
      c.store.log.countP (fun x => decide (∃ w ∈ x.sends, x = .delivered w 3 .mail)) == 2 &&
      c.store.log.countP (fun x => decide (∃ w ∈ x.sends, x = .marked w)) == 1) (by decide +kernel)
  simp only [Bool.and_eq_true, List.all_eq_true, decide_eq_true_eq, beq_iff_eq] at hq
  exact ⟨tr, c, h, hq.1.2, hq.2, no_delivery_after_mark h hq.1.1⟩

end Notifications
end Daywright
