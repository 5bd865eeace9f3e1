/-
# What a step does to messages and batches

`Effect` says what a step can do to a message: claim it, put its batch id in the
token's place, release it, mark it as delivered or clear it. `BatchEffect` says what
it can do to a batch: count an attempt or record a result. `Next` says which steps
lead a process to where it holds a claim, a job's delivery or a batch's callbacks.

Key definitions: `Point.token`, `Point.claim`, `Point.callback`, `Effect`, `BatchEffect`, `Next`.
Key theorems: `act_rows`, `act_batches`, `next_of_act`.
-/
import Daywright.Messages.Service

namespace Daywright

/-- The user a job may send the message to. -/
def Job.MayReach (userId : ℕ) : Job → Prop
  | .mailMessage u => u = userId
  | .smsMessage => True

theorem Job.handle_sends {dir : Directory} {projectId userId : ℕ} {message : Option Message} {job : Job}
    (h : job.handle dir projectId message = .sends userId) : job.MayReach userId := by
  cases job with
  | mailMessage u =>
    simp only [Job.handle, MailMessage.handle] at h
    split at h
    · cases h
    · split at h <;> cases h
      rfl
  | smsMessage => trivial

namespace Messages

open Interleave DispatchProjectMessageAction

/-! ### What a process holds -/

namespace Point

/-- The message and the token of a process that claimed it. -/
def token : Point → Option (ℕ × String)
  | .findClaimedMessage _ messageId token _ => some (messageId, token)
  | .dispatchBatch _ m token _ => some (m.id, token)
  | .markBatchStarted messageId token _ _ => some (messageId, token)
  | .releaseClaim messageId token _ => some (messageId, token)
  | _ => none

/-- The same, before the batch is dispatched. -/
def claim : Point → Option (ℕ × String)
  | .findClaimedMessage _ messageId token _ => some (messageId, token)
  | .dispatchBatch _ m token _ => some (m.id, token)
  | _ => none

/-- The batch whose callbacks the process runs, and its message. -/
def callback : Point → Option (String × ℕ)
  | .thenCallback batchId messageId _ => some (batchId, messageId)
  | .finallyCallback batchId messageId => some (batchId, messageId)
  | _ => none

/-- The job whose delivery the process makes or records, and to whom. -/
def delivery : Point → Option (String × ℕ × ℕ)
  | .deliver batchId k userId => some (batchId, k, userId)
  | .record batchId k (.succeeded (some userId)) => some (batchId, k, userId)
  | _ => none

/-- The process holds nothing. -/
structure Idle (p : Point) : Prop where
  token : p.token = none
  callback : p.callback = none
  delivery : p.delivery = none

theorem token_of_claim {p : Point} {x : ℕ × String} (h : p.claim = some x) : p.token = some x := by
  cases p with
  | findClaimedMessage => exact h
  | dispatchBatch => exact h
  | _ => cases h

end Point

theorem Caller.goOn_idle {caller : Caller} {q : Point} (h : caller.goOn = some q) : q.Idle := by
  match caller with
  | .sendNow => cases h
  | .send _ _ _ =>
    cases h
    exact ⟨rfl, rfl, rfl⟩
  | .pass [] _ true =>
    cases h
    exact ⟨rfl, rfl, rfl⟩
  | .pass [] _ false => cases h
  | .pass (_ :: _) _ _ =>
    cases h
    exact ⟨rfl, rfl, rfl⟩

theorem Caller.onThrow_idle {caller : Caller} {q : Point} (h : caller.onThrow = some q) : q.Idle := by
  cases caller with
  | pass => exact Caller.goOn_idle h
  | _ => cases h

/-! ### Messages -/

inductive Effect (p : Point) (e : Input) (m : Message) : Message → Prop
  | keep : Effect p e m m
  | scheduled (at' : Time) : Effect p e m { m with deliveredAt := some at' }
  | claimed {projectId : ℕ} {caller : Caller} : p = .execute projectId m.id caller → canDispatch m = true →
      e.answer.applies = true → Effect p e m { m with batchId := some (claimToken e.uuid) }
  | started {token batchId : String} {caller : Caller} : p = .markBatchStarted m.id token batchId caller →
      m.batchId = some token → Effect p e m { m with batchId := some batchId }
  | released {token : String} {caller : Caller} : p = .releaseClaim m.id token caller →
      m.batchId = some token → e.answer.applies = true → Effect p e m { m with batchId := none }
  | delivered {batchId : String} {failedJobs : ℕ} : p = .thenCallback batchId m.id failedJobs →
      Effect p e m { m with delivered := true }
  | cleared {batchId : String} : p = .finallyCallback batchId m.id → m.delivered = false →
      e.answer.applies = true → Effect p e m { m with batchId := none }

/-- The row `send` inserts. -/
def Created (s s' : Store) (m : Message) : Prop :=
  s'.nextId = s.nextId + 1 ∧ ∃ projectId type payload, m = newMessage s.nextId projectId type payload

variable {s s' : Store} {p q : Point} {e : Input} {m m' : Message} {k : Option Point}

theorem Effect.id_eq (h : Effect p e m m') : m'.id = m.id := by cases h <;> rfl

theorem Effect.users_eq (h : Effect p e m m') : m'.users = m.users := by cases h <;> rfl

theorem Effect.delivered_of (h : Effect p e m m') (hm : m'.delivered = false) : m.delivered = false := by
  cases h with
  | delivered => cases hm
  | _ => exact hm

theorem claimed_iff {messageId : ℕ} {token : String} :
    claimed messageId token m = true ↔ m.id = messageId ∧ m.batchId = some token := by
  simp [claimed]

/-- A statement took effect or it did not. -/
theorem Store.after_cases (s s' : Store) (a : Answer) :
    s.after s' a = s ∨ a.applies = true ∧ s.after s' a = s' := by
  cases a with
  | throws => exact .inl rfl
  | _ => exact .inr ⟨rfl, rfl⟩

theorem execute_cases {messageId : ℕ} {token : String} {rows rows' : List Message}
    (h : execute messageId token rows = some (some rows')) : ∃ m ∈ rows, m.id = messageId ∧
      rows.find? (·.id == messageId) = some m ∧ canDispatch m = true ∧
      rows' = Table.updateWhere (·.id == messageId) (fun m => { m with batchId := some token }) rows := by
  obtain ⟨m, hm, he⟩ := Option.map_eq_some_iff.mp h
  split at he
  · rename_i hc
    cases he
    exact ⟨m, List.mem_of_find?_eq_some hm, by simpa using List.find?_some hm, hm, hc, rfl⟩
  · cases he

/-- A step of the rows that may fail to take effect. -/
theorem step_after {s' : Store}
    (h : e.answer.applies = true → Table.Step (Effect p e) (Created s s') s.rows s'.rows) :
    Table.Step (Effect p e) (Created s (s.after s' e.answer)) s.rows (s.after s' e.answer).rows := by
  rcases s.after_cases s' e.answer with ha | ⟨happ, ha⟩
  · rw [ha]
    exact .keep fun _ => .keep
  · rw [ha]
    exact h happ

/-- A worker leaves the messages alone. -/
theorem worker_frame {batchId : String} {k : ℕ} :
    (worker s p e batchId k).1.rows = s.rows ∧ (worker s p e batchId k).1.nextId = s.nextId := by
  have after {a : Answer} {batchId : String} {k : ℕ} {q : QueuedJob} :
      (s.after (s.setJob batchId k q) a).rows = s.rows ∧ (s.after (s.setJob batchId k q) a).nextId = s.nextId := by
    rcases s.after_cases (s.setJob batchId k q) a with ha | ⟨-, ha⟩
    · rw [ha]
      exact ⟨rfl, rfl⟩
    · rw [ha]
      exact ⟨rfl, rfl⟩
  unfold worker
  split
  · split
    · unfold workerStep
      split
      · exact ⟨rfl, rfl⟩
      · split <;> exact ⟨rfl, rfl⟩
      · split <;> exact ⟨rfl, rfl⟩
      · exact after
      · exact ⟨rfl, rfl⟩
    · exact ⟨rfl, rfl⟩
  · exact ⟨rfl, rfl⟩

/-- What a step does to the messages, a deletion apart. -/
theorem act_rows (hn : (s.rows.map (·.id)).Nodup) (hd : ∀ id, p ≠ .delete id) :
    Table.Step (Effect p e) (Created s (act s p e).1) s.rows (act s p e).1.rows := by
  have keep {s' : Store} : Table.Step (Effect p e) (Created s s') s.rows s.rows := .keep fun _ => .keep
  cases p with
  | send projectId payload types =>
    cases types with
    | nil => exact keep
    | cons type types =>
      simp only [act, sendStep]
      split
      · exact step_after fun _ => .insert _ ⟨rfl, projectId, type, payload, rfl⟩
      · exact keep
  | schedule messageId projectId payload types =>
    simp only [act, scheduleStep]
    split
    · split
      · exact keep
      · exact step_after fun _ => .updateWhere (fun _ => .keep) fun _ _ _ => .scheduled _
    · exact keep
  | execute projectId messageId caller =>
    simp only [act]
    split
    · exact keep
    · exact keep
    · rename_i rows hx
      obtain ⟨m, hm, rfl, -, hc, rfl⟩ := execute_cases hx
      refine step_after fun happ => .updateWhere (fun _ => .keep) fun m' hm' he => ?_
      simp only [beq_iff_eq] at he
      obtain rfl : m' = m := List.inj_on_of_nodup_map hn hm' hm he
      exact .claimed rfl hc happ
  | findClaimedMessage projectId messageId token caller =>
    simp only [act]
    split
    · split <;> exact keep
    · exact keep
  | dispatchBatch projectId m token caller => exact step_after fun _ => keep
  | markBatchStarted messageId token batchId caller =>
    refine step_after fun _ => .updateWhere (fun _ => .keep) fun m _ hc => ?_
    obtain ⟨rfl, ht⟩ := claimed_iff.mp hc
    exact .started rfl ht
  | releaseClaim messageId token caller =>
    refine step_after fun happ => .updateWhere (fun _ => .keep) fun m _ hc => ?_
    obtain ⟨rfl, ht⟩ := claimed_iff.mp hc
    exact .released rfl ht happ
  | thenCallback batchId messageId failedJobs =>
    refine step_after fun _ => ?_
    simp only [thenCallback]
    split
    · refine .updateWhere (fun _ => .keep) fun m _ he => ?_
      simp only [beq_iff_eq] at he
      exact .delivered (by rw [he])
    · exact keep
  | finallyCallback batchId messageId =>
    refine step_after fun happ => .updateWhere (fun _ => .keep) fun m _ ht => ?_
    simp only [terminated, Bool.and_eq_true, beq_iff_eq, Bool.not_eq_true'] at ht
    exact .cleared (by rw [ht.1.1]) ht.1.2 happ
  | delete messageId => exact absurd rfl (hd messageId)
  | handle lastId => exact keep
  | _ =>
    simp only [act, worker_frame]
    exact keep

theorem act_nextId : s.nextId ≤ (act s p e).1.nextId := by
  have after {s' : Store} {a : Answer} (h : s.nextId ≤ s'.nextId) : s.nextId ≤ (s.after s' a).nextId := by
    rcases s.after_cases s' a with ha | ⟨-, ha⟩
    all_goals rw [ha]
    exact h
  cases p with
  | send projectId payload types =>
    cases types with
    | nil => exact le_rfl
    | cons type types =>
      simp only [act, sendStep]
      split
      · exact after (Nat.le_succ _)
      · exact le_rfl
  | schedule messageId projectId payload types =>
    simp only [act, scheduleStep]
    split
    · split
      · exact le_rfl
      · exact after le_rfl
    · exact le_rfl
  | handle lastId => exact le_rfl
  | execute projectId messageId caller =>
    simp only [act]
    split
    · exact le_rfl
    · exact le_rfl
    · exact after le_rfl
  | findClaimedMessage projectId messageId token caller =>
    simp only [act]
    split
    · split <;> exact le_rfl
    · exact le_rfl
  | work | handleJob | deliver | record =>
    simp only [act, worker_frame]
    exact le_rfl
  | _ => exact after le_rfl

theorem delete_rows {messageId : ℕ} :
    ∀ m ∈ (act s (.delete messageId) e).1.rows, m ∈ s.rows := by
  intro m hm
  rcases s.after_cases { s with rows := s.rows.filter (·.id != messageId) } e.answer with ha | ⟨-, ha⟩
  · rwa [act, ha] at hm
  · rw [act, ha] at hm
    exact List.mem_of_mem_filter hm

/-! ### Batches -/

inductive BatchEffect (p : Point) (b : Batch) : Batch → Prop
  | keep : BatchEffect p b b
  | attempted {k : ℕ} {q : QueuedJob} : b.jobs[k]? = some q →
      BatchEffect p b { b with jobs := b.jobs.set k { q with attempts := q.attempts + 1 } }
  | recorded {k : ℕ} {q : QueuedJob} {result : JobResult} : p = .record b.id k result →
      b.jobs[k]? = some q → q.result = none →
      BatchEffect p b { b with jobs := b.jobs.set k { q with result := some result } }

/-- The batch a process dispatches. -/
def Dispatched (p : Point) (e : Input) (b : Batch) : Prop :=
  ∃ projectId m token caller, p = .dispatchBatch projectId m token caller ∧ b = newBatch e.uuid projectId token m

theorem job?_some {batchId : String} {k : ℕ} {b : Batch} {q : QueuedJob}
    (h : s.job? batchId k = some (b, q)) : b ∈ s.batches ∧ b.id = batchId ∧ b.jobs[k]? = some q := by
  obtain ⟨b', hb, hq⟩ := Option.bind_eq_some_iff.mp h
  obtain ⟨q', hq', he⟩ := Option.map_eq_some_iff.mp hq
  cases he
  exact ⟨List.mem_of_find?_eq_some hb, by simpa using List.find?_some hb, hq'⟩

theorem setJob_step {batchId : String} {k : ℕ} {b : Batch} {q q' : QueuedJob}
    (hn : (s.batches.map (·.id)).Nodup) (hj : s.job? batchId k = some (b, q))
    (h : BatchEffect p b { b with jobs := b.jobs.set k q' }) :
    Table.Step (BatchEffect p) (Dispatched p e) s.batches (s.setJob batchId k q').batches := by
  obtain ⟨hb, rfl, -⟩ := job?_some hj
  refine .updateWhere (fun _ => .keep) fun b' hb' he => ?_
  obtain rfl : b' = b := List.inj_on_of_nodup_map hn hb' hb (by simpa using he)
  exact h

/-- The job a worker is at. -/
def Point.job : Point → Option (String × ℕ)
  | .work batchId k | .handleJob batchId k | .deliver batchId k _ | .record batchId k _ => some (batchId, k)
  | _ => none

theorem worker_batches {batchId : String} {k : ℕ} (hn : (s.batches.map (·.id)).Nodup)
    (hp : p.job = some (batchId, k)) :
    Table.Step (BatchEffect p) (Dispatched p e) s.batches (worker s p e batchId k).1.batches := by
  have keep : Table.Step (BatchEffect p) (Dispatched p e) s.batches s.batches := .keep fun _ => .keep
  unfold worker
  split
  · rename_i b q hj
    obtain ⟨-, hid, hq⟩ := job?_some hj
    split
    · rename_i hr
      simp only [Option.isNone_iff_eq_none] at hr
      unfold workerStep
      split
      · cases hp
        exact setJob_step hn hj (.attempted hq)
      · split <;> exact keep
      · split <;> exact keep
      · rename_i result
        cases hp
        rcases s.after_cases (s.setJob batchId k { q with result := some result }) e.answer with ha | ⟨-, ha⟩
        · rw [ha]
          exact keep
        · rw [ha]
          exact setJob_step hn hj (.recorded (by rw [hid]) hq hr)
      · exact keep
    · exact keep
  · exact keep

/-- What a step does to the batches. -/
theorem act_batches (hn : (s.batches.map (·.id)).Nodup) :
    Table.Step (BatchEffect p) (Dispatched p e) s.batches (act s p e).1.batches := by
  have keep : Table.Step (BatchEffect p) (Dispatched p e) s.batches s.batches := .keep fun _ => .keep
  have after {rows : List Message} {n : ℕ} {a : Answer} :
      Table.Step (BatchEffect p) (Dispatched p e) s.batches
        (s.after { s with rows := rows, nextId := n } a).batches := by
    rcases s.after_cases { s with rows := rows, nextId := n } a with ha | ⟨-, ha⟩ <;> rw [ha] <;> exact keep
  cases p with
  | send projectId payload types =>
    cases types with
    | nil => exact keep
    | cons type types =>
      simp only [act, sendStep]
      split
      · exact after
      · exact keep
  | schedule messageId projectId payload types =>
    simp only [act, scheduleStep]
    split
    · split
      · exact keep
      · exact after
    · exact keep
  | handle lastId => exact keep
  | execute projectId messageId caller =>
    simp only [act]
    split
    · exact keep
    · exact keep
    · exact after
  | findClaimedMessage projectId messageId token caller =>
    simp only [act]
    split
    · split <;> exact keep
    · exact keep
  | dispatchBatch projectId m token caller =>
    rcases s.after_cases { s with batches := s.batches ++ [newBatch e.uuid projectId token m] } e.answer with ha | ⟨-, ha⟩
    · simp only [act, ha]
      exact keep
    · simp only [act, ha]
      exact .insert _ ⟨projectId, m, token, caller, rfl, rfl⟩
  | work batchId k => exact worker_batches hn rfl
  | handleJob batchId k => exact worker_batches hn rfl
  | deliver batchId k userId => exact worker_batches hn rfl
  | record batchId k result => exact worker_batches hn rfl
  | _ => exact after

/-! ### Where a process goes on -/

/-- The step leaves the store `s'` and the process at `q`. -/
inductive Next (s : Store) (p : Point) (e : Input) (s' : Store) (q : Point) : Prop
  | idle : q.Idle → Next s p e s' q
  | claimed {projectId : ℕ} {caller : Caller} {m : Message} : p = .execute projectId m.id caller →
      q = .findClaimedMessage projectId m.id (claimToken e.uuid) caller → m ∈ s.rows → canDispatch m = true →
      s'.rows = Table.updateWhere (·.id == m.id) (fun m => { m with batchId := some (claimToken e.uuid) }) s.rows →
      Next s p e s' q
  | found {projectId : ℕ} {token : String} {caller : Caller} {m : Message} :
      p = .findClaimedMessage projectId m.id token caller →
      q = .dispatchBatch projectId { m with users := m.users.filter e.dir.user } token caller → m ∈ s.rows →
      s' = s → Next s p e s' q
  | dispatched {projectId : ℕ} {token : String} {caller : Caller} {m : Message} :
      p = .dispatchBatch projectId m token caller → q = .markBatchStarted m.id token e.uuid caller →
      s' = { s with batches := s.batches ++ [newBatch e.uuid projectId token m] } → Next s p e s' q
  | undispatched {projectId : ℕ} {token : String} {caller : Caller} {m : Message} :
      p = .dispatchBatch projectId m token caller → q = .releaseClaim m.id token caller → Next s p e s' q
  | unmarked {messageId : ℕ} {token batchId : String} {caller : Caller} :
      p = .markBatchStarted messageId token batchId caller → q = .releaseClaim messageId token caller →
      Next s p e s' q
  | handled {batchId : String} {k userId : ℕ} {b : Batch} {j : QueuedJob} : p = .handleJob batchId k →
      q = .deliver batchId k userId → s.job? batchId k = some (b, j) → j.job.MayReach userId → s' = s →
      Next s p e s' q
  | sent {batchId : String} {k userId : ℕ} : p = .deliver batchId k userId →
      q = .record batchId k (.succeeded (some userId)) → s' = s → Next s p e s' q
  | finished {batchId : String} {k : ℕ} {result : JobResult} {b : Batch} {j : QueuedJob} :
      p = .record batchId k result → q.token = none → q.delivery = none →
      q.callback = some (b.id, b.messageId) → s.job? batchId k = some (b, j) → j.result = none →
      s' = s.setJob batchId k { j with result := some result } →
      ({ b with jobs := b.jobs.set k { j with result := some result } } : Batch).allJobsHaveRanExactlyOnce = true →
      Next s p e s' q
  | called {batchId : String} {messageId failedJobs : ℕ} : p = .thenCallback batchId messageId failedJobs →
      q = .finallyCallback batchId messageId → Next s p e s' q

theorem afterThrow_idle {batchId : String} {k : ℕ} {j : QueuedJob} (h : afterThrow e batchId k j = some q) :
    q.Idle := by
  simp only [afterThrow, Option.ite_none_right_eq_some, Option.some.injEq] at h
  obtain ⟨-, rfl⟩ := h
  exact ⟨rfl, rfl, rfl⟩

theorem callbacks_some {b : Batch} (h : callbacks b = some q) : b.allJobsHaveRanExactlyOnce = true ∧
    q.token = none ∧ q.delivery = none ∧ q.callback = some (b.id, b.messageId) := by
  simp only [callbacks] at h
  split at h
  · rename_i hr
    split at h <;> cases h <;> exact ⟨hr, rfl, rfl, rfl⟩
  · cases h

theorem next_of_workerStep {batchId : String} {k : ℕ} {b : Batch} {j : QueuedJob}
    (hj : s.job? batchId k = some (b, j)) (hr : j.result = none)
    (hp : p = .work batchId k ∨ p = .handleJob batchId k ∨ (∃ userId, p = .deliver batchId k userId) ∨
      ∃ result, p = .record batchId k result)
    (h : workerStep s p e b j = (s', some q)) : Next s p e s' q := by
  rcases hp with rfl | rfl | ⟨userId, rfl⟩ | ⟨result, rfl⟩
  · simp only [workerStep, Prod.mk.injEq] at h
    refine .idle ?_
    split at h <;> cases h.2 <;> exact ⟨rfl, rfl, rfl⟩
  · simp only [workerStep] at h
    split at h
    · simp only [Prod.mk.injEq, Option.some.injEq] at h
      obtain ⟨rfl, rfl⟩ := h
      cases hh : j.job.handle e.dir b.projectId (s.rows.find? (·.id == b.messageId)) with
      | sends userId => exact .handled rfl (by simp [handleJob, hh]) hj (Job.handle_sends hh) rfl
      | _ => exact .idle (by simp only [handleJob, hh]; exact ⟨rfl, rfl, rfl⟩)
    · simp only [Prod.mk.injEq] at h
      exact .idle (afterThrow_idle h.2)
  · simp only [workerStep] at h
    split at h
    · simp only [Prod.mk.injEq, Option.some.injEq] at h
      obtain ⟨rfl, rfl⟩ := h
      exact .sent rfl rfl rfl
    · simp only [Prod.mk.injEq] at h
      exact .idle (afterThrow_idle h.2)
  · simp only [workerStep, Prod.mk.injEq] at h
    obtain ⟨rfl, h⟩ := h
    split at h
    · rename_i ha
      obtain ⟨hran, ht, hd, hc⟩ := callbacks_some h
      exact .finished (b := b) rfl ht hd hc hj hr (if_pos ha) hran
    · cases h

theorem next_of_worker {batchId : String} {k : ℕ}
    (hp : p = .work batchId k ∨ p = .handleJob batchId k ∨ (∃ userId, p = .deliver batchId k userId) ∨
      ∃ result, p = .record batchId k result)
    (h : worker s p e batchId k = (s', some q)) : Next s p e s' q := by
  unfold worker at h
  split at h
  · rename_i b j hj
    split at h
    · rename_i hr
      exact next_of_workerStep hj (by simpa using hr) hp h
    · cases h
  · cases h

theorem next_of_act (h : act s p e = (s', some q)) : Next s p e s' q := by
  cases p with
  | send projectId payload types =>
    cases types with
    | nil => cases h
    | cons type types =>
      simp only [act, sendStep] at h
      refine .idle ?_
      split at h
      · simp only [Prod.mk.injEq] at h
        obtain ⟨-, h⟩ := h
        split at h
        · split at h <;> cases h <;> exact ⟨rfl, rfl, rfl⟩
        · cases h
      · cases h
        exact ⟨rfl, rfl, rfl⟩
  | schedule messageId projectId payload types =>
    simp only [act, scheduleStep] at h
    refine .idle ?_
    split at h
    · split at h
      · cases h
      · simp only [Prod.mk.injEq] at h
        obtain ⟨-, h⟩ := h
        split at h <;> cases h
        exact ⟨rfl, rfl, rfl⟩
    · cases h
  | handle lastId =>
    simp only [act, Prod.mk.injEq] at h
    exact .idle (Caller.goOn_idle h.2)
  | execute projectId messageId caller =>
    simp only [act] at h
    split at h
    · simp only [Prod.mk.injEq] at h
      exact .idle (Caller.onThrow_idle h.2)
    · simp only [Prod.mk.injEq] at h
      exact .idle (Caller.goOn_idle h.2)
    · rename_i rows hx
      obtain ⟨m, hm, rfl, -, hc, rfl⟩ := execute_cases hx
      simp only [Prod.mk.injEq] at h
      obtain ⟨rfl, h⟩ := h
      split at h
      · rename_i ha
        cases h
        exact .claimed rfl rfl hm hc (by rw [ha]; rfl)
      · split at h
        · exact .idle (Caller.onThrow_idle h)
        · cases h
          exact .idle ⟨rfl, rfl, rfl⟩
      · exact .idle (Caller.onThrow_idle h)
  | findClaimedMessage projectId messageId token caller =>
    simp only [act] at h
    split at h
    · split at h
      · rename_i m hm
        obtain ⟨m', hm', rfl⟩ := Option.map_eq_some_iff.mp hm
        obtain ⟨rfl, -⟩ := claimed_iff.mp (List.find?_some hm')
        cases h
        exact .found rfl rfl (List.mem_of_find?_eq_some hm') rfl
      · simp only [Prod.mk.injEq] at h
        exact .idle (Caller.goOn_idle h.2)
    · simp only [Prod.mk.injEq] at h
      exact .idle (Caller.onThrow_idle h.2)
  | dispatchBatch projectId m token caller =>
    simp only [act, Prod.mk.injEq] at h
    obtain ⟨rfl, h⟩ := h
    split at h
    · rename_i ha
      cases h
      exact .dispatched rfl rfl (by rw [ha]; rfl)
    · cases h
      exact .undispatched rfl rfl
  | markBatchStarted messageId token batchId caller =>
    simp only [act, Prod.mk.injEq] at h
    obtain ⟨-, h⟩ := h
    split at h
    · exact .idle (Caller.goOn_idle h)
    · cases h
      exact .unmarked rfl rfl
  | releaseClaim messageId token caller =>
    simp only [act, Prod.mk.injEq] at h
    exact .idle (Caller.onThrow_idle h.2)
  | work batchId k => exact next_of_worker (.inl rfl) h
  | handleJob batchId k => exact next_of_worker (.inr (.inl rfl)) h
  | deliver batchId k userId => exact next_of_worker (.inr (.inr (.inl ⟨userId, rfl⟩))) h
  | record batchId k result => exact next_of_worker (.inr (.inr (.inr ⟨result, rfl⟩))) h
  | thenCallback batchId messageId failedJobs =>
    simp only [act, Prod.mk.injEq, Option.some.injEq] at h
    exact .called rfl h.2.symm
  | finallyCallback batchId messageId => cases h
  | delete messageId => cases h

end Messages
end Daywright
