/-
# The notification that a task is due

`SendTaskDueNotificationAction` locks the task, and if it is due and not marked it
notifies the assignees and marks it, in one transaction. The notifications are queued
once the transaction has committed; those of one that is rolled back are dropped, and
the transaction may be run again, up to five times in all.

The runs of the action and the updates of the task interleave as they like. A setting
is what lies between two changes of the due date, as an instant, or of the rule; the
store numbers them, and keeps of each notification that is queued the setting of its
transaction. In a setting every assignee is notified at most once, and the mark is
taken back by the steps that begin a new one (`due_notification_once`).

Key definitions: `canNotify`, `transaction`, `Request`, `program`.
Key theorems: `mark_of_commits`, `onceOutline`, `due_notification_once`.
-/
import Daywright.Tasks.Reset
import Mathlib.Data.List.Nodup

namespace Daywright
namespace SendTaskDueNotificationAction

open Php Interleave Versions

abbrev UserId := ℕ

/-! ### The transaction -/

/-- What a run of the transaction reads beside the task. -/
structure Reads where
  now : Time
  /-- Whether the project is trashed; `none`: there is no project. -/
  project : Option Bool
  assignee : List UserId
  /-- `task_user` is unique in its user and task. -/
  distinct : assignee.Nodup

inductive Failure where
  | service (e : Error)
  /-- `TypeError`. -/
  | typeError

def canNotify (q : Reads) (task : Task) : Except Failure Bool :=
  if q.project ≠ some false ∨ task.isSent = true then .ok false
  else match task.notified with
    | .str notified => .ok <|
      match TaskDueNotifies.getPeriodInMinutes notified, task.dueAt with
      | some n, some dueAt => decide (dueAt ≤ q.now + minutes n)
      | _, _ => false
    | _ => .error .typeError

def notifies (q : Reads) (task : Task) : Bool :=
  match canNotify q task with
  | .ok b => b
  | .error _ => false

/-- The body of the transaction, on the task under its lock. -/
def transaction (q : Reads) (lockedTask : Task) : Transaction.Body Task Failure Clock :=
  if lockedTask.deletedAt.isSome then .fail (.service .modelNotFound)
  else match canNotify q lockedTask with
    | .error e => .fail e
    | .ok false => .commit lockedTask
    | .ok true =>
      .update (fun t => { lockedTask with notifySent := bound (.bool true), updatedAt := t.freshTimestamp }) .commit

/-- `TaskDue::via`. -/
def via : List String := ["mail", "database", "broadcast"]

/-- A job of the queue: one for each assignee and channel. -/
abbrev Delivery := UserId × String

def deliveries (q : Reads) : List Delivery := q.assignee.product via

/-! ### The requests -/

/-- An update that `TaskUpdateRequest` has accepted. -/
structure AcceptedUpdate (trim : String → String) where
  isUnique : String → Bool
  input : Json
  accepted : TaskUpdateRequest.accepts isUnique trim input = true

def AcceptedUpdate.data {trim : String → String} (u : AcceptedUpdate trim) : TaskUpdateData :=
  TaskUpdateRequest.toDto trim u.input

inductive Request (trim : String → String) where
  | update (u : AcceptedUpdate trim)
  | notify (q : Reads)

/-- The two transactions on the task. -/
def service (C : Carbon) (trim : String → String) : Transaction.Service Task (Request trim) Failure Clock where
  refuse
    | .update u => ((taskService C).refuse u.data).map .service
    | .notify _ => none
  body
    | .update u, task => ((taskService C).body u.data task).mapError .service
    | .notify q, task => transaction q task

/-! ### The processes -/

abbrev TxPoint (trim : String → String) := Transaction.Point Task (Request trim) Failure Clock

/-- Where an update, or a run of the action, stands. -/
inductive Point (trim : String → String) where
  | update (p : TxPoint trim)
  /-- About to look for the project of the task. -/
  | execute (project : Option Bool)
  /-- In the `n`th run of the transaction. -/
  | attempt (n : ℕ) (p : TxPoint trim)
  /-- The `n`th run was rolled back, and there is to be another. -/
  | retry (n : ℕ)
  /-- The transaction has committed; the deliveries are yet to be queued, for this setting. -/
  | queue (q : Reads) (model : Task) (due : List Delivery) (setting : ℕ)

structure Input where
  tx : Transaction.Input Clock
  /-- What the next run of the transaction reads. -/
  reads : Reads
  /-- The failure is a deadlock, or a lock that was waited for too long. -/
  concurrencyError : Bool

structure Store where
  task : Transaction.Store Task
  /-- How often the setting has changed. -/
  settings : ℕ
  /-- The deliveries queued, each with the setting of its transaction. -/
  sent : List (Delivery × ℕ)

def transactionRetryAttempts : ℕ := 5

section

variable (C : Carbon) (instant : Time → ℤ) {trim : String → String} (s : Store)

/-- The store after a statement of a transaction. -/
def Store.wrote (task : Transaction.Store Task) : Store where
  task
  settings := if task.row.setting instant = s.task.row.setting instant then s.settings else s.settings + 1
  sent := s.sent

/-- Where the `n`th run goes on from after a statement. What has committed is what the body
made of the row, which nobody else writes under the lock. -/
def afterStatement (n : ℕ) (concurrencyError : Bool) : Option (TxPoint trim) → Option (Point trim)
  | some (.committed (.notify q) model) =>
    if notifies q s.task.row then some (.queue q model (deliveries q) s.settings)
    else some (.attempt n (.committed (.notify q) model))
  | some p => some (.attempt n p)
  | none => if concurrencyError && n < transactionRetryAttempts then some (.retry n) else none

def move (p : Point trim) (e : Input) : Option (Store × Option (Point trim)) :=
  match p with
  | .update p => ((service C trim).program.move s.task p e.tx).map fun (t, k) => (s.wrote instant t, k.map .update)
  | .execute project =>
    some (s, if project.isSome then some (.attempt 1 (.request (.notify e.reads))) else none)
  | .attempt n p =>
    ((service C trim).program.move s.task p e.tx).map fun (t, k) =>
      (s.wrote instant t, afterStatement s n e.concurrencyError k)
  | .retry n => some (s, some (.attempt (n + 1) (.request (.notify e.reads))))
  | .queue _ _ [] _ => some (s, none)
  | .queue q model (d :: due) setting =>
    match e.tx.reply with
    | .done => some ({ s with sent := s.sent ++ [(d, setting)] }, some (.queue q model due setting))
    | .failed => some (s, none)
    | .lost => some ({ s with sent := s.sent ++ [(d, setting)] }, none)

variable (trim) in
def program : Program Store (Point trim) Input where
  entry
    | .update (.request (.update _)) | .update .rollback | .execute _ => true
    | _ => false
  move := move C instant

end

/-- The task, nothing queued for it yet. -/
def start {trim : String → String} (task : Task) : Config Store (Point trim) := ⟨⟨⟨task, none, 0⟩, 0, []⟩, []⟩

variable {C : Carbon} {instant : Time → ℤ} {trim : String → String} {s s' : Store} {p p' : Point trim} {e : Input}
  {k : Option (Point trim)} {task task' model : Task} {q : Reads}

/-! ### What the transactions make of the mark -/

theorem canNotify_of_notifies (h : notifies q task = true) : canNotify q task = .ok true := by
  unfold notifies at h
  split at h
  · rename_i b hb
    rw [hb, h]
  · cases h

theorem not_isSent_of_notifies (h : notifies q task = true) : task.isSent = false := by
  have hcan := canNotify_of_notifies h
  rw [canNotify] at hcan
  split at hcan
  · cases hcan
  · rename_i hn
    exact Bool.eq_false_iff.mpr fun hsent => hn (.inr hsent)

/-- The transaction leaves the task alone, or marks it. -/
theorem transaction_commits (h : (transaction q task).Commits task task' model) :
    (notifies q task = false ∧ task' = task) ∨
      (notifies q task = true ∧ task'.isSent = true ∧ task'.dueAt = task.dueAt ∧ task'.notified = task.notified) := by
  unfold transaction at h
  split at h
  · exact absurd h Transaction.Body.commits_fail
  split at h
  · exact absurd h Transaction.Body.commits_fail
  · rename_i hcan
    exact .inl ⟨by rw [notifies, hcan], (Transaction.Body.commits_commit.mp h).2⟩
  · rename_i hcan
    obtain ⟨t, h⟩ := Transaction.Body.commits_update.mp h
    obtain ⟨-, rfl⟩ := Transaction.Body.commits_commit.mp h
    exact .inr ⟨by rw [notifies, hcan], rfl, rfl, rfl⟩

/-- **A transaction takes the mark back exactly if it changes the setting.** -/
theorem mark_of_commits (ht : ∀ s, isBlank (trim s) = true → trim s = "") (hC : C.Exact instant) (hs : task.RuleStored)
    {r : Request trim} (h : ((service C trim).body r task).Commits task task' model) :
    task'.RuleStored ∧ (task.isSent = true → (task'.isSent = true ↔ task'.setting instant = task.setting instant)) := by
  cases r with
  | update u =>
    have hu : (updateTask C u.data task).Commits task task' model := Transaction.Body.commits_mapError.mp h
    obtain ⟨hmark, hstored⟩ := isSent_of_updateTask hC (TaskUpdateRequest.normal_toDto ht u.accepted) hs hu
    refine ⟨hstored, fun hsent => ?_⟩
    rw [hmark, hsent, Bool.true_and, decide_eq_true_iff]
  | notify q =>
    rcases transaction_commits h with ⟨-, rfl⟩ | ⟨hn, -, -, hrule⟩
    · exact ⟨hs, fun hsent => iff_of_true hsent rfl⟩
    · refine ⟨?_, fun hsent => ?_⟩
      · rw [Task.RuleStored, hrule]
        exact hs
      · rw [not_isSent_of_notifies hn] at hsent
        cases hsent

/-! ### What a step can do -/

/-- What a process is to the transactions. -/
def Point.tx : Point trim → Option (TxPoint trim)
  | .update p | .attempt _ p => some p
  | .queue q model _ _ => some (.committed (.notify q) model)
  | .execute _ | .retry _ => none

/-- The process has deliveries for this setting to queue. -/
def Point.Queues (p : Point trim) (setting : ℕ) : Prop := ∃ q model due, p = .queue q model due setting

inductive Moved (C : Carbon) (instant : Time → ℤ) (s : Store) (p : Point trim) (e : Input) :
    Store → Option (Point trim) → Prop
  | idle {k : Option (Point trim)} : (∀ p', k = some p' → ∀ n, ¬ p'.Queues n) →
      (∀ p', k.bind Point.tx = some p' → (service C trim).program.entry p' = true) → Moved C instant s p e s k
  /-- A statement of a transaction. -/
  | statement {tx : TxPoint trim} {t : Transaction.Store Task} {k' : Option (TxPoint trim)} {k : Option (Point trim)} :
      p.tx = some tx → (∀ n, ¬ p.Queues n) → (service C trim).program.move s.task tx e.tx = some (t, k') →
      k.bind Point.tx = k' →
      (∀ q model due n, k = some (.queue q model due n) → notifies q s.task.row = true ∧ due = deliveries q ∧
        n = s.settings) →
      Moved C instant s p e (s.wrote instant t) k
  | queued {q : Reads} {model : Task} {d : Delivery} {due : List Delivery} {n : ℕ} {k : Option (Point trim)} :
      p = .queue q model (d :: due) n → (∀ p', k = some p' → p' = .queue q model due n) →
      Moved C instant s p e { s with sent := s.sent ++ [(d, n)] } k

/-- A statement takes the process on to where the transaction goes on, and to the queue only
from the commit of a transaction that notifies. -/
theorem afterStatement_spec {n : ℕ} {concurrencyError : Bool} {k' : Option (TxPoint trim)} :
    (afterStatement s n concurrencyError k').bind Point.tx = k' ∧
      ∀ q model due setting, afterStatement s n concurrencyError k' = some (.queue q model due setting) →
        notifies q s.task.row = true ∧ due = deliveries q ∧ setting = s.settings := by
  unfold afterStatement
  split
  · rename_i q model
    by_cases hn : notifies q s.task.row = true
    · rw [if_pos hn]
      refine ⟨rfl, fun q' model' due setting he => ?_⟩
      cases he
      exact ⟨hn, rfl, rfl⟩
    · rw [if_neg hn]
      exact ⟨rfl, fun _ _ _ _ he => by cases he⟩
  · exact ⟨rfl, fun _ _ _ _ he => by cases he⟩
  · split <;> exact ⟨rfl, fun _ _ _ _ he => by cases he⟩

theorem not_queues_update (tx : TxPoint trim) (n : ℕ) : ¬ (Point.update tx).Queues n := by
  rintro ⟨q, model, due, hp⟩
  cases hp

theorem not_queues_attempt (m : ℕ) (tx : TxPoint trim) (n : ℕ) : ¬ (Point.attempt m tx).Queues n := by
  rintro ⟨q, model, due, hp⟩
  cases hp

/-- The process ends. -/
theorem Moved.ended : Moved C instant s p e s none :=
  .idle (fun _ hk => absurd hk (Option.some_ne_none _).symm) fun _ hk => absurd hk (Option.some_ne_none _).symm

/-- The process begins a run of the transaction. -/
theorem Moved.begun (n : ℕ) (q : Reads) : Moved C instant s p e s (some (.attempt n (.request (.notify q)))) := by
  refine .idle (fun p' hk m => ?_) fun tx hk => ?_
  · obtain rfl := Option.some.inj hk
    exact not_queues_attempt n _ m
  · obtain rfl : Transaction.Point.request (.notify q) = tx := Option.some.inj hk
    rfl

theorem moved (h : (program C instant trim).move s p e = some (s', k)) : Moved C instant s p e s' k := by
  simp only [program, move] at h
  cases p with
  | update p =>
    obtain ⟨⟨t, k'⟩, hm, he⟩ := Option.map_eq_some_iff.mp h
    cases he
    refine .statement rfl (not_queues_update p) hm ?_ fun q model due n hk => ?_
    · cases k' <;> rfl
    · obtain ⟨p', -, hp'⟩ := Option.map_eq_some_iff.mp hk
      cases hp'
  | execute project =>
    cases h
    cases project with
    | none => exact .ended
    | some trashed => exact .begun 1 e.reads
  | attempt n p =>
    obtain ⟨⟨t, k'⟩, hm, he⟩ := Option.map_eq_some_iff.mp h
    cases he
    exact .statement rfl (not_queues_attempt n p) hm afterStatement_spec.1 afterStatement_spec.2
  | retry n =>
    cases h
    exact .begun (n + 1) e.reads
  | queue q model due setting =>
    cases due with
    | nil =>
      cases h
      exact .ended
    | cons d due =>
      dsimp only at h
      split at h <;> cases h
      · exact .queued rfl fun p' hk => (Option.some.inj hk).symm
      · exact .ended
      · exact .queued rfl fun p' hk => absurd hk (Option.some_ne_none p').symm

/-! ### The transactions as a component -/

theorem component : Component (program C instant trim) (service C trim).program Store.task Point.tx
    (fun _ _ _ => True) (fun _ _ _ => True) where
  entry p tx hp htx := by
    cases p with
    | update p =>
      cases htx
      cases tx with
      | request | rollback => rfl
      | _ => cases hp
    | execute => cases htx
    | _ => cases hp
  move s p e s' k _ h := by
    cases moved h with
    | idle _ hk => exact .inl ⟨rfl, fun tx htx => .inr (hk tx htx)⟩
    | statement htx _ hm hk _ =>
      refine .inr ⟨_, e.tx, htx, trivial, ?_⟩
      rw [hk]
      exact hm
    | queued hp hk =>
      refine .inl ⟨rfl, fun tx htx => .inl ?_⟩
      obtain ⟨p', rfl, hp'⟩ := Option.bind_eq_some_iff.mp htx
      rw [hk p' rfl] at hp'
      rw [hp]
      exact hp'

/-- What the transactions rely on, of the one the process is in. -/
def Knows (C : Carbon) (s : Store) (p : Point trim) : Prop :=
  ∀ tx, p.tx = some tx → Transaction.Knowledge (service C trim) s.task tx

theorem txOutline : ApartOutline (program C instant trim) (fun s => Transaction.Inv s.task)
    (Knows C) (fun p p' => ∀ tx tx', p.tx = some tx → p'.tx = some tx' → Transaction.Distinct tx tx') :=
  (Transaction.outline (service C trim)).pullback component

/-! ### Once in a setting -/

/-- What has been queued for the present setting has been marked. -/
structure Once (s : Store) : Prop where
  ruleStored : s.task.row.RuleStored
  nodup : s.sent.Nodup
  le : ∀ x ∈ s.sent, x.2 ≤ s.settings
  marked : ∀ x ∈ s.sent, x.2 = s.settings → s.task.row.isSent = true

/-- What is still to be queued has not been, and is marked if the setting is the present one. -/
def Pending (s : Store) (p : Point trim) : Prop :=
  ∀ q model due n, p = .queue q model due n → due.Nodup ∧ n ≤ s.settings ∧
    (n = s.settings → s.task.row.isSent = true) ∧ ∀ d ∈ due, (d, n) ∉ s.sent

/-- Two processes queue for different settings. -/
def OtherSetting (p p' : Point trim) : Prop := ∀ n n', p.Queues n → p'.Queues n' → n ≠ n'

theorem deliveries_nodup (q : Reads) : (deliveries q).Nodup := q.distinct.product (by decide)

/-- What a transaction leaves of the row. -/
structure Keeps (instant : Time → ℤ) (task task' : Task) : Prop where
  ruleStored : task.RuleStored → task'.RuleStored
  mark : task.isSent = true → (task'.isSent = true ↔ task'.setting instant = task.setting instant)

theorem keeps_of_statement (ht : ∀ s, isBlank (trim s) = true → trim s = "") (hC : C.Exact instant)
    (hs : s.task.row.RuleStored) {tx : TxPoint trim} {t : Transaction.Store Task} {k' : Option (TxPoint trim)}
    (hK : Transaction.Knowledge (service C trim) s.task tx)
    (hm : (service C trim).program.move s.task tx e.tx = some (t, k')) : Keeps instant s.task.row t.row := by
  rcases (Transaction.moved hm).row hK with hrow | ⟨_, r, model, -, hb⟩
  · rw [hrow]
    exact ⟨id, fun hsent => iff_of_true hsent rfl⟩
  · obtain ⟨hstored, hmark⟩ := mark_of_commits ht hC hs hb
    exact ⟨fun _ => hstored, hmark⟩

/-- Nothing that was queued for the setting after a statement goes unmarked. -/
theorem marked_wrote {t : Transaction.Store Task} (hk : Keeps instant s.task.row t.row) {n : ℕ} (hle : n ≤ s.settings)
    (hmark : n = s.settings → s.task.row.isSent = true) :
    n ≤ (s.wrote instant t).settings ∧ (n = (s.wrote instant t).settings → t.row.isSent = true) := by
  rw [Store.wrote]
  dsimp only
  by_cases hset : t.row.setting instant = s.task.row.setting instant
  · rw [if_pos hset]
    exact ⟨hle, fun hn => (hk.mark (hmark hn)).mpr hset⟩
  · rw [if_neg hset]
    exact ⟨by omega, fun hn => absurd hn (by omega)⟩

/-- A commit after which there is something to queue marks a task that was not marked. -/
theorem marks_of_queue {tx : TxPoint trim} {t : Transaction.Store Task}
    (hK : Transaction.Knowledge (service C trim) s.task tx)
    (hm : (service C trim).program.move s.task tx e.tx = some (t, some (.committed (.notify q) model)))
    (hn : notifies q s.task.row = true) : s.task.row.isSent = false ∧ t.row.isSent = true ∧
      ∀ instant, t.row.setting instant = s.task.row.setting instant := by
  obtain ⟨-, -, hb⟩ := (Transaction.moved hm).commits hK
  rcases transaction_commits hb with ⟨hfalse, -⟩ | ⟨-, hsent, hdue, hrule⟩
  · rw [hn] at hfalse
    cases hfalse
  · exact ⟨not_isSent_of_notifies hn, hsent, fun instant => by rw [Task.setting, Task.setting, hdue, hrule]⟩

/-- What a process goes on to queue. -/
theorem pending_of_moved (h : Moved C instant s p e s' (some p')) (hO : Once s) (hP : Pending s p)
    (hA : Knows C s p) : Pending s' p' := by
  rintro q model due n rfl
  cases h with
  | idle hk => exact absurd ⟨q, model, due, rfl⟩ (hk _ rfl n)
  | statement htx _ hm hk hqueue =>
    obtain ⟨hn, rfl, rfl⟩ := hqueue q model due n rfl
    subst hk
    obtain ⟨hfalse, hsent, hset⟩ := marks_of_queue (hA _ htx) hm hn
    refine ⟨deliveries_nodup q, ?_, fun _ => hsent, fun d _ hx => ?_⟩
    · rw [Store.wrote, if_pos (hset instant)]
    · have hmarked := hO.marked _ hx rfl
      rw [hfalse] at hmarked
      cases hmarked
  | queued hp hk =>
    cases hk _ rfl
    obtain ⟨hnodup, hle, hmark, hnot⟩ := hP _ _ _ _ hp
    obtain ⟨hd, hdue⟩ := List.nodup_cons.mp hnodup
    refine ⟨hdue, hle, hmark, fun d' hd' hx => ?_⟩
    rcases List.mem_append.mp hx with hx | hx
    · exact hnot d' (List.mem_cons_of_mem _ hd') hx
    · cases List.mem_singleton.mp hx
      exact hd hd'

section

variable (ht : ∀ s, isBlank (trim s) = true → trim s = "") (hC : C.Exact instant)
include ht hC

theorem once_of_moved (h : Moved C instant s p e s' k) (hO : Once s) (hP : Pending s p)
    (hA : Knows C s p) : Once s' := by
  cases h with
  | idle => exact hO
  | statement htx _ hm _ _ =>
    have hk := keeps_of_statement ht hC hO.ruleStored (hA _ htx) hm
    have hmarked := fun x hx => marked_wrote hk (hO.le x hx) (hO.marked x hx)
    exact ⟨hk.ruleStored hO.ruleStored, hO.nodup, fun x hx => (hmarked x hx).1, fun x hx => (hmarked x hx).2⟩
  | queued hp _ =>
    obtain ⟨-, hle, hmark, hnot⟩ := hP _ _ _ _ hp
    refine ⟨hO.ruleStored, ?_, fun x hx => ?_, fun x hx => ?_⟩
    · refine List.nodup_append.mpr ⟨hO.nodup, List.nodup_singleton _, fun x hx y hy => ?_⟩
      rw [List.mem_singleton.mp hy]
      rintro rfl
      exact hnot _ List.mem_cons_self hx
    · rcases List.mem_append.mp hx with hx | hx
      · exact hO.le x hx
      · rw [List.mem_singleton.mp hx]
        exact hle
    · rcases List.mem_append.mp hx with hx | hx
      · exact hO.marked x hx
      · rw [List.mem_singleton.mp hx]
        exact hmark

/-- What another process has still to queue. -/
theorem pending_frame (h : Moved C instant s p e s' k) (hO : Once s) (hP : Pending s p')
    (hA : Knows C s p) (hD : OtherSetting p p') :
    Pending s' p' := by
  rintro q model due n rfl
  obtain ⟨hnodup, hle, hmark, hnot⟩ := hP _ _ _ _ rfl
  cases h with
  | idle => exact ⟨hnodup, hle, hmark, hnot⟩
  | statement htx _ hm _ _ =>
    obtain ⟨hle', hmark'⟩ := marked_wrote (keeps_of_statement ht hC hO.ruleStored (hA _ htx) hm) hle hmark
    exact ⟨hnodup, hle', hmark', hnot⟩
  | queued hp _ =>
    refine ⟨hnodup, hle, hmark, fun d' hd' hx => ?_⟩
    rcases List.mem_append.mp hx with hx | hx
    · exact hnot d' hd' hx
    · cases List.mem_singleton.mp hx
      exact hD _ _ ⟨_, _, _, hp⟩ ⟨_, _, _, rfl⟩ rfl

end

/-- The settings of two processes stay different: one that begins to queue has found the task unmarked. -/
theorem otherSetting_of_moved {r : Point trim} (h : Moved C instant s p e s' (some p')) (hD : OtherSetting p r)
    (hP : Pending s r) (hA : Knows C s p) :
    OtherSetting p' r := by
  rintro n n' ⟨q, model, due, rfl⟩ ⟨q', model', due', rfl⟩ rfl
  cases h with
  | idle hk => exact hk _ rfl n ⟨q, model, due, rfl⟩
  | statement htx _ hm hk hqueue =>
    obtain ⟨hn, rfl, rfl⟩ := hqueue q model due n rfl
    subst hk
    obtain ⟨hfalse, -, -⟩ := marks_of_queue (hA _ htx) hm hn
    rw [(hP _ _ _ _ rfl).2.2.1 rfl] at hfalse
    cases hfalse
  | queued hp hk =>
    cases hk _ rfl
    exact hD _ _ ⟨_, _, _, hp⟩ ⟨_, _, _, rfl⟩ rfl

theorem onceOutline (ht : ∀ s, isBlank (trim s) = true → trim s = "") (hC : C.Exact instant) :
    ApartOutline ((program C instant trim).restrict fun _ _ _ => True) (fun s => Transaction.Inv s.task ∧ Once s)
      (fun s p => Knows C s p ∧ Pending s p)
      (fun p p' => (∀ tx tx', p.tx = some tx → p'.tx = some tx' → Transaction.Distinct tx tx') ∧ OtherSetting p p') :=
  txOutline.strengthen
    (fun _ _ h n n' hn hn' => (h n' n hn' hn).symm)
    (fun s p _ _ hp => by
      rintro q model due n rfl
      cases hp)
    (fun s p _ _ _ hp _ _ => by
      rintro n n' ⟨q, model, due, rfl⟩
      cases hp)
    (fun s p e s' k _ hO hA hP _ hm =>
      ⟨once_of_moved ht hC (moved hm) hO hP hA, fun p' hk => by
        subst hk
        exact pending_of_moved (moved hm) hO hP hA⟩)
    (fun s p e s' p' r _ _ hA _ _ hP _ hD _ hm => otherSetting_of_moved (moved hm) hD hP hA)
    (fun s p e s' k r _ hO hA _ _ hP _ hD _ hm => pending_frame ht hC (moved hm) hO hP hA hD)

/-! ### Along a run -/

variable {tr : List (Step Store (Point trim) Input)} {c c' : Config Store (Point trim)} {st : Step Store (Point trim) Input}

/-- The task before a step, and after it. -/
abbrev before (st : Step Store (Point trim) Input) : Task := st.pre.store.task.row
abbrev after (st : Step Store (Point trim) Input) : Task := st.post.store.task.row

/-- The step begins a new setting. -/
def changes (instant : Time → ℤ) (st : Step Store (Point trim) Input) : Bool :=
  (after st).setting instant != (before st).setting instant

theorem once_of_run (ht : ∀ s, isBlank (trim s) = true → trim s = "") (hC : C.Exact instant) (hr : task.RuleStored)
    (h : (program C instant trim).Run (start task) tr c) :
    Once c.store ∧ ∀ p ∈ c.procs, Knows C c.store p := by
  have hrun : ((program C instant trim).restrict fun _ _ _ => True).Run (start task) tr c :=
    h.restrict fun _ _ _ _ _ => trivial
  have hOnce : Once (start task : Config Store (Point trim)).store :=
    ⟨hr, List.nodup_nil, fun _ hx => absurd hx List.not_mem_nil, fun _ hx => absurd hx List.not_mem_nil⟩
  have hInv : Transaction.Inv (start task : Config Store (Point trim)).store.task := fun tx r hh => by cases hh
  obtain ⟨⟨⟨-, hO⟩, hA⟩, -⟩ := (onceOutline ht hC).run ⟨⟨hInv, hOnce⟩, fun p hp => by cases hp⟩
    (fun i j p p' _ hp => by cases hp) hrun
  exact ⟨hO, fun p hp => (hA p hp).1⟩

/-- From one store to the next the mark is taken back exactly if the setting changes, and
the settings are counted. -/
def Counts (instant : Time → ℤ) (s s' : Store) : Prop :=
  (s.task.row.isSent = true →
    (s'.task.row.isSent = false ↔ (s'.task.row.setting instant != s.task.row.setting instant) = true)) ∧
  s'.settings = s.settings + if s'.task.row.setting instant != s.task.row.setting instant then 1 else 0

theorem Counts.refl_of_eq (htask : s'.task = s.task) (hcount : s'.settings = s.settings) : Counts instant s s' := by
  have hno : (s.task.row.setting instant != s.task.row.setting instant) = false := bne_self_eq_false _
  rw [Counts, htask, hcount, hno]
  exact ⟨fun hsent => by simp [hsent], rfl⟩

theorem counts_of_moved (ht : ∀ s, isBlank (trim s) = true → trim s = "") (hC : C.Exact instant) (hO : Once s)
    (hA : Knows C s p) (h : Moved C instant s p e s' k) :
    Counts instant s s' := by
  cases h with
  | idle => exact .refl_of_eq rfl rfl
  | queued => exact .refl_of_eq rfl rfl
  | @statement tx t k' _ htx _ hm _ _ =>
    have hk := keeps_of_statement ht hC hO.ruleStored (hA _ htx) hm
    refine ⟨fun hsent => ?_, ?_⟩
    · show t.row.isSent = false ↔ (t.row.setting instant != s.task.row.setting instant) = true
      rw [bne_iff_ne, ← Bool.not_eq_true, hk.mark hsent]
    · show (if t.row.setting instant = s.task.row.setting instant then s.settings else s.settings + 1) =
        s.settings + if t.row.setting instant != s.task.row.setting instant then 1 else 0
      by_cases hset : t.row.setting instant = s.task.row.setting instant
      · simp [hset]
      · simp [hset]

theorem counts_of_step (ht : ∀ s, isBlank (trim s) = true → trim s = "") (hC : C.Exact instant) (hO : Once c.store)
    (hA : ∀ p ∈ c.procs, Knows C c.store p)
    {a : Act (Point trim) Input} (hs : (program C instant trim).step c a = some c') :
    Counts instant c.store c'.store := by
  rcases (program C instant trim).step_store hs with hstore | ⟨p, e, k, ⟨i, -, hp⟩, hm⟩
  · rw [hstore]
    exact .refl_of_eq rfl rfl
  · exact counts_of_moved ht hC hO (hA p (List.mem_of_getElem? hp)) (moved hm)

/-- **An assignee is notified at most once in a setting**, whatever runs of the action and
updates of the task there are: nothing is queued twice for one, the settings are counted by
the steps that change the due date or the rule, and these are the steps that take a mark back. -/
theorem due_notification_once (ht : ∀ s, isBlank (trim s) = true → trim s = "") (hC : C.Exact instant)
    (hr : task.RuleStored) (h : (program C instant trim).Run (start task) tr c) :
    c.store.sent.Nodup ∧ c.store.settings = tr.countP (changes instant) ∧
      ∀ st ∈ tr, (before st).isSent = true → ((after st).isSent = false ↔ changes instant st = true) := by
  refine ⟨(once_of_run ht hC hr h).1.nodup, ?_, fun st hst => ?_⟩
  · induction h with
    | nil => rfl
    | snoc a hr' hs ih =>
      obtain ⟨hO, hA⟩ := once_of_run ht hC hr hr'
      rw [(counts_of_step ht hC hO hA hs).2, ih, List.countP_append, List.countP_singleton]
      rfl
  · obtain ⟨tr₁, tr₂, -, h₁, hs, -⟩ := h.of_mem _ hst
    obtain ⟨hO, hA⟩ := once_of_run ht hC hr h₁
    exact (counts_of_step ht hC hO hA hs).1

/-! ### Two runs of the action, and three updates -/

namespace Sample

/-- Dates as whole milliseconds. -/
def carbon : Carbon where
  fromDateTime
    | .str s => (Iso8601Timestamp.parse s.toList).map fun m => (m.second * 1000).toNat
    | _ => none
  toIso8601String t := Iso8601Timestamp.normalForm (t / 1000)

theorem exact_carbon : carbon.Exact fun t => (t / 1000 : ℕ) where
  toIso8601String _ := rfl
  fromDateTime n t hn h := by
    obtain ⟨hlow, hhigh⟩ := (Iso8601Timestamp.inRange_iff n).mp hn
    have hparse : Iso8601Timestamp.parse (Iso8601Timestamp.normalForm n).toList =
        some ⟨Calendar.DateTime.ofSeconds n, 0⟩ := by
      rw [Iso8601Timestamp.normalForm, String.toList_ofList]
      exact Iso8601Timestamp.parse_dateAndTime Iso8601Timestamp.zeroOffset hlow hhigh
    have hsecond : (⟨Calendar.DateTime.ofSeconds n, 0⟩ : Iso8601Timestamp.Moment).second = n := by
      rw [Iso8601Timestamp.Moment.second, Calendar.DateTime.toSeconds_ofSeconds, sub_zero]
    have hread : carbon.fromDateTime (.str (Iso8601Timestamp.normalForm n)) = some (n * 1000).toNat := by
      show (Iso8601Timestamp.parse (Iso8601Timestamp.normalForm n).toList).map _ = _
      rw [hparse, Option.map_some, hsecond]
    have hpos := hn.1
    obtain rfl : (n * 1000).toNat = t := Option.some.inj (hread.symm.trans h)
    omega

def time (s : String) : Time := (carbon.fromDateTime (.str s)).getD 0

def draft : Task where
  title := .str "Draft"
  description := .null
  notified := .str "5 Minutes Before"
  notifySent := .int 0
  dueAt := some (time "2030-05-01T12:00:00Z")
  statusId := some 1
  version := 1
  deletedAt := none
  updatedAt := 0

def request (version : ℤ) (dueAt : String) (h : TaskUpdateRequest.accepts (fun _ => true) Php.trim
    (.array [("version", .int version), ("due_at", .str dueAt)]) = true) : Point Php.trim :=
  .update (.request (.update ⟨_, _, h⟩))

/-- The due date in another spelling. -/
def respelled : Point Php.trim := request 1 "2030-05-01T14:00:00.5+02:00" (by decide +kernel)

/-- Another due date. -/
def postponed : Point Php.trim := request 2 "2030-05-02T12:00:00Z" (by decide +kernel)

/-- At this time, for one assignee. -/
def input (now : String) (reply : Transaction.Reply) : Input :=
  ⟨⟨⟨time now, time now⟩, reply⟩, ⟨time now, some false, [7], List.nodup_singleton 7⟩, true⟩

def moves (i n : ℕ) (now : String) : List (Act (Point Php.trim) Input) :=
  List.replicate n (.move i (input now .done))

/-- The second run meets a deadlock, is tried again and finds the task marked, as does the
third, after the due date was written in another way; the fourth is for another date. -/
def acts : List (Act (Point Php.trim) Input) :=
  [.arrive (.execute (some false)), .arrive (.execute (some false))] ++ moves 0 4 "2030-05-01T11:56:00Z" ++
    moves 1 2 "2030-05-01T11:56:00Z" ++ [.move 1 (input "2030-05-01T11:56:00Z" .failed)] ++
    moves 0 4 "2030-05-01T11:56:01Z" ++ moves 1 4 "2030-05-01T11:57:00Z" ++
    [.arrive respelled] ++ moves 2 4 "2030-05-01T11:58:00Z" ++
    [.arrive (.execute (some false))] ++ moves 3 4 "2030-05-01T11:59:00Z" ++
    [.arrive postponed] ++ moves 4 4 "2030-05-01T12:30:00Z" ++
    [.arrive (.execute (some false))] ++ moves 5 8 "2030-05-02T11:56:00Z"

end Sample

/-- The assignee is notified once for either date. -/
theorem due_notification_once_twice : ∃ tr c,
    (program Sample.carbon (fun t => (t / 1000 : ℕ)) Php.trim).Run (start Sample.draft) tr c ∧
      c.store.sent = (via.map fun channel => ((7, channel), 0)) ++ via.map (fun channel => ((7, channel), 1)) ∧
      c.store.sent.Nodup ∧ tr.countP (changes fun t => (t / 1000 : ℕ)) = 1 := by
  obtain ⟨tr, c, h, hc⟩ := (program Sample.carbon (fun t => (t / 1000 : ℕ)) Php.trim).exists_run_of_replay
    Sample.acts (c := start Sample.draft)
    (q := fun _ c => c.store.settings == 1 &&
      c.store.sent == (via.map fun channel => ((7, channel), 0)) ++ via.map (fun channel => ((7, channel), 1)))
    (by decide +kernel)
  simp only [Bool.and_eq_true, beq_iff_eq] at hc
  obtain ⟨hnodup, hcount, -⟩ :=
    due_notification_once Php.trim_of_isBlank Sample.exact_carbon (.inr ⟨_, rfl⟩) h
  exact ⟨tr, c, h, hc.2, hnodup, hcount.symm.trans hc.1⟩

end SendTaskDueNotificationAction
end Daywright
