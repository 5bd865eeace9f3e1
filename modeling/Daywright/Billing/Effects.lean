/-
# What a step does to an operation

`Effect` says once what a step can do to an operation: a request records its
result under its claim, a recovery takes the operation over or, under its claim,
completes it or puts it off, and a resolution ends a review. Only a request's
transaction inserts one (`Inserted`). What every operation keeps follows from it:
the request it came from, the order of the statuses, and `WellFormed`.

Key definitions: `Effect`, `Inserted`, `WellFormed`.
Key theorems: `act_step`, `Effect.status`, `Effect.wellFormed`.
-/
import Daywright.Billing.Program
import Daywright.Fence

namespace Daywright
namespace Billing

open Interleave SubscriptionService RecoverSubscriptionOperation

/-! ### The effect of a step on an operation -/

/-- A recovery ends: it has verified the operation, puts it off, or gives up. -/
inductive Finished (now : Time) (o : SubscriptionOperation) : SubscriptionOperation → Prop
  | completed : Finished now o
      { o with
        status := .completed
        completedAt := some now
        attempts := o.attempts + 1
        lastAttemptAt := some now }
  | unknown : o.attempts + 1 < maxRecoveryAttempts → Finished now o
      { o with
        status := .unknown
        availableAt := some (now + minutes (backoffMinutes (o.attempts + 1)))
        attempts := o.attempts + 1
        lastAttemptAt := some now }
  | manualReview : Finished now o
      { o with status := .manualReview, attempts := o.attempts + 1, lastAttemptAt := some now }

/-- A review ends. -/
inductive Resolved (now : Time) (o : SubscriptionOperation) : SubscriptionOperation → Prop
  | completed : Resolved now o { o with status := .completed, completedAt := some now }
  | failed (reference : String) : Resolved now o
      { o with
        status := .failed
        failedAt := some now
        lastErrorClass := some "ManualResolution"
        lastErrorCode := some reference }

namespace Point

/-- The operation a request works on, under the token it created it with. -/
def original : Point → Option (ℕ × Option Uuid)
  | .callPaddle o _ _ | .await o | .record _ o => some (o.id, o.claimToken)
  | _ => none

/-- The operation a recovery works on, and the token it claimed it with. -/
def recovery : Point → Option (ℕ × Uuid)
  | .recover (.refresh o t) _ | .recover (.verifyAndCompleteOperation o t) _
  | .recover (.completeVerifiedOperation o t _) _ | .recover (.rescheduleAfterFailedRead o t) _ =>
    some (o.id, t)
  | _ => none

end Point

inductive Effect (p : Point) (e : Input) (o : SubscriptionOperation) : SubscriptionOperation → Prop
  | keep : Effect p e o o
  | recorded (result : ProviderResult) (operation : SubscriptionOperation) :
      p = .record result operation → claimed operation o = true →
      Effect p e o (record result e.now o)
  | claimed (operation : SubscriptionOperation) (rest : List SubscriptionOperation) :
      p = .recover (.claimForRecovery operation) rest → ready operation e.now o = true →
      Effect p e o (claim e.uuid e.now o)
  | finished (t : Uuid) {o' : SubscriptionOperation} : p.recovery = some (o.id, t) →
      o.unexpiredClaimOwnedBy t e.now = true → Finished e.now o o' → Effect p e o o'
  | resolved (q : ResolveSubscriptionOperation.Point) {o' : SubscriptionOperation} : p = .resolve q →
      o.status = .manualReview → Resolved e.now o o' → Effect p e o o'

/-- The operation a request inserts. -/
def Inserted (E : Env) (p : Point) (e : Input) (operations : List SubscriptionOperation)
    (o : SubscriptionOperation) : Prop :=
  ∃ r planId subscription seen, p = .insert r planId subscription seen ∧
    operations.any (sameKey E r) = false ∧
    o = processingOperation E r subscription (Table.nextId (operations.map (·.id))) e.operationUuid e.uuid e.now

variable {E : Env} {p q : Point} {e : Input} {o o' : SubscriptionOperation}
  {operations : List SubscriptionOperation} {db : Database} {s s' : Store} {k : Option Point}

theorem map_ok {ε α β : Type} {f : α → β} {x : Except ε α} {b : β} (h : x.map f = .ok b) :
    ∃ a, x = .ok a ∧ f a = b := by
  cases x with
  | error => cases h
  | ok a => exact ⟨a, rfl, by simpa [Except.map] using h⟩

theorem transitionTo_ok {target : SubscriptionOperationStatus}
    {attributes : SubscriptionOperation → SubscriptionOperation}
    (h : o.transitionTo target attributes = .ok o') :
    o.status.canTransitionTo target = true ∧ o' = attributes { o with status := target } := by
  unfold SubscriptionOperation.transitionTo at h
  split at h
  · rename_i ht
    cases h
    exact ⟨ht, rfl⟩
  · cases h

/-- A row that was locked is saved. -/
theorem save_step (hd : (operations.map (·.id)).Nodup) (ho : o ∈ operations) (hid : o'.id = o.id)
    (h : Effect p e o o') :
    Table.Step (Effect p e) (Inserted E p e operations) operations (o'.save operations) := by
  refine .updateWhere (fun _ => .keep) fun r hr hri => ?_
  cases List.inj_on_of_nodup_map hd hr ho ((beq_iff_eq.mp hri).trans hid)
  exact h

theorem lockLiveClaim_some {operation : SubscriptionOperation} {t : Uuid} {now : Time}
    (h : lockLiveClaim operation t now operations = some o) :
    o ∈ operations ∧ o.unexpiredClaimOwnedBy t now = true ∧ o.id = operation.id := by
  have := List.find?_some h
  simp only [Bool.and_eq_true, beq_iff_eq] at this
  exact ⟨List.mem_of_find?_eq_some h, this.1, this.2⟩

theorem fresh_some {operation : SubscriptionOperation} (h : fresh operation operations = some o) :
    o ∈ operations ∧ o.id = operation.id :=
  ⟨List.mem_of_find?_eq_some h, by simpa using List.find?_some h⟩

theorem Finished.id_eq {now : Time} (h : Finished now o o') : o'.id = o.id := by
  cases h <;> rfl

theorem Resolved.id_eq {now : Time} (h : Resolved now o o') : o'.id = o.id := by
  cases h <;> rfl

/-- A transaction of a recovery ends it, on an operation that is under its claim. -/
def Finishes (operation : SubscriptionOperation) (t : Uuid) (now : Time)
    (operations operations' : List SubscriptionOperation) : Prop :=
  ∃ o o', o ∈ operations ∧ o.unexpiredClaimOwnedBy t now = true ∧ o.id = operation.id ∧
    Finished now o o' ∧ operations' = o'.save operations

/-- A recovery that has its proof finds its claim gone, or ends: without the
subscription in a review, with it in the subscription and the operation at once. -/
theorem completeVerifiedOperation_cases {operation : SubscriptionOperation} {t : Uuid}
    {remote : PaddleSubscriptionSnapshot} {now : Time} {r : Committed}
    (h : completeVerifiedOperation E operation t remote now db = .ok r) :
    r.1 = db ∨ ∃ o ∈ db.operations, o.unexpiredClaimOwnedBy t now = true ∧ o.id = operation.id ∧
      ((∃ o', Finished now o o' ∧ o'.status ≠ .completed ∧
          r.1 = { db with operations := o'.save db.operations }) ∨
        ∃ o' subscription changed, Finished now o o' ∧ o'.status = .completed ∧
          localSubscription E o db = some subscription ∧
          localSubscriptionChanges E operation remote subscription = some changed ∧
          r.1 = { db with
            subscriptions := changed.save db.subscriptions
            operations := o'.save db.operations }) := by
  unfold completeVerifiedOperation at h
  split at h
  · cases h
    exact .inl rfl
  · rename_i o hl
    obtain ⟨ho, hu, hid⟩ := lockLiveClaim_some hl
    refine .inr ⟨o, ho, hu, hid, ?_⟩
    split at h
    · obtain ⟨o', ho', rfl⟩ := map_ok h
      obtain ⟨-, rfl⟩ := transitionTo_ok ho'
      exact .inl ⟨_, .manualReview, nofun, rfl⟩
    · rename_i subscription hs
      split at h
      · cases h
      · rename_i changed hc
        obtain ⟨o', ho', rfl⟩ := map_ok h
        obtain ⟨-, rfl⟩ := transitionTo_ok ho'
        exact .inr ⟨_, subscription, changed, .completed, rfl, hs, hc, rfl⟩

theorem completeVerifiedOperation_ok {operation : SubscriptionOperation} {t : Uuid}
    {remote : PaddleSubscriptionSnapshot} {now : Time} {r : Committed}
    (h : completeVerifiedOperation E operation t remote now db = .ok r) :
    r.1.operations = db.operations ∨ Finishes operation t now db.operations r.1.operations := by
  rcases completeVerifiedOperation_cases h with hr | ⟨o, ho, hu, hid, hr⟩
  · exact .inl (congrArg Database.operations hr)
  · rcases hr with ⟨o', hf, -, hr⟩ | ⟨o', _, _, hf, -, -, -, hr⟩
    · exact .inr ⟨o, o', ho, hu, hid, hf, congrArg Database.operations hr⟩
    · exact .inr ⟨o, o', ho, hu, hid, hf, congrArg Database.operations hr⟩

theorem rescheduleAfterFailedRead_cases {operation : SubscriptionOperation} {t : Uuid} {now : Time}
    {r : Committed} (h : rescheduleAfterFailedRead operation t now db = .ok r) :
    r.1 = db ∨ ∃ o ∈ db.operations, o.unexpiredClaimOwnedBy t now = true ∧ o.id = operation.id ∧
      ∃ o', Finished now o o' ∧ o'.status ≠ .completed ∧
        r.1 = { db with operations := o'.save db.operations } := by
  unfold rescheduleAfterFailedRead at h
  split at h
  · cases h
    exact .inl rfl
  · rename_i o hl
    obtain ⟨ho, hu, hid⟩ := lockLiveClaim_some hl
    refine .inr ⟨o, ho, hu, hid, ?_⟩
    dsimp only at h
    split at h
    · obtain ⟨o', ho', rfl⟩ := map_ok h
      obtain ⟨-, rfl⟩ := transitionTo_ok ho'
      exact ⟨_, .manualReview, nofun, rfl⟩
    · rename_i hlt
      obtain ⟨o', ho', rfl⟩ := map_ok h
      obtain ⟨-, rfl⟩ := transitionTo_ok ho'
      exact ⟨_, .unknown (Nat.not_le.mp hlt), nofun, rfl⟩

theorem rescheduleAfterFailedRead_ok {operation : SubscriptionOperation} {t : Uuid} {now : Time}
    {r : Committed} (h : rescheduleAfterFailedRead operation t now db = .ok r) :
    r.1.operations = db.operations ∨ Finishes operation t now db.operations r.1.operations := by
  rcases rescheduleAfterFailedRead_cases h with hr | ⟨o, ho, hu, hid, o', hf, -, hr⟩
  · exact .inl (congrArg Database.operations hr)
  · exact .inr ⟨o, o', ho, hu, hid, hf, congrArg Database.operations hr⟩

/-- A transaction of the command ends a review. -/
def Resolves (now : Time) (operations operations' : List SubscriptionOperation) : Prop :=
  ∃ o o', o ∈ operations ∧ o.status = .manualReview ∧ Resolved now o o' ∧ operations' = o'.save operations

/-- The command completes the operation and changes the subscription at once. -/
theorem finishCompleted_cases {operation : SubscriptionOperation} {remote : PaddleSubscriptionSnapshot}
    {now : Time} {db' : Database}
    (h : ResolveSubscriptionOperation.finishCompleted E operation remote now db = .ok db') :
    ∃ o ∈ db.operations, o.id = operation.id ∧ o.status = .manualReview ∧
      ∃ o' subscription changed, Resolved now o o' ∧ o'.status = .completed ∧
        localSubscription E o db = some subscription ∧
        localSubscriptionChanges E o remote subscription = some changed ∧
        db' = { db with
          subscriptions := changed.save db.subscriptions
          operations := o'.save db.operations } := by
  unfold ResolveSubscriptionOperation.finishCompleted at h
  split at h
  · cases h
  rename_i o ho
  split at h
  · cases h
  rename_i hs
  split at h
  · cases h
  rename_i subscription hl
  split at h
  · cases h
  rename_i changed hc
  obtain ⟨o', ho', rfl⟩ := map_ok h
  obtain ⟨-, rfl⟩ := transitionTo_ok ho'
  exact ⟨o, (fresh_some ho).1, (fresh_some ho).2, not_not.mp hs, _, subscription, changed, .completed,
    rfl, hl, hc, rfl⟩

theorem finishCompleted_ok {operation : SubscriptionOperation} {remote : PaddleSubscriptionSnapshot}
    {now : Time} {db' : Database}
    (h : ResolveSubscriptionOperation.finishCompleted E operation remote now db = .ok db') :
    Resolves now db.operations db'.operations := by
  obtain ⟨o, ho, -, hs, o', _, _, hr, -, -, -, rfl⟩ := finishCompleted_cases h
  exact ⟨o, o', ho, hs, hr, rfl⟩

theorem finishFailed_cases {operation : SubscriptionOperation} {reference : String}
    {now : Time} {db' : Database}
    (h : ResolveSubscriptionOperation.finishFailed operation reference now db = .ok db') :
    ∃ o ∈ db.operations, o.status = .manualReview ∧ ∃ o', Resolved now o o' ∧ o'.status ≠ .completed ∧
      db' = { db with operations := o'.save db.operations } := by
  unfold ResolveSubscriptionOperation.finishFailed at h
  split at h
  · cases h
  rename_i o ho
  split at h
  · cases h
  rename_i hs
  obtain ⟨o', ho', rfl⟩ := map_ok h
  obtain ⟨-, rfl⟩ := transitionTo_ok ho'
  exact ⟨o, (fresh_some ho).1, not_not.mp hs, _, .failed reference, nofun, rfl⟩

theorem finishFailed_ok {operation : SubscriptionOperation} {reference : String}
    {now : Time} {db' : Database}
    (h : ResolveSubscriptionOperation.finishFailed operation reference now db = .ok db') :
    Resolves now db.operations db'.operations := by
  obtain ⟨o, ho, hs, o', hr, -, rfl⟩ := finishFailed_cases h
  exact ⟨o, o', ho, hs, hr, rfl⟩

/-- The table in a step of a recovery. -/
theorem recover_step {stage : Stage} {rest : List SubscriptionOperation}
    (hd : (db.operations.map (·.id)).Nodup) (hp : p = .recover stage rest) :
    Table.Step (Effect p e) (Inserted E p e db.operations) db.operations
      (step E stage e.uuid e.now e.remote db).1.operations := by
  have keep : Table.Step (Effect p e) (Inserted E p e db.operations) db.operations db.operations :=
    .keep fun _ => .keep
  have finish {operation : SubscriptionOperation} {t : Uuid} {r : Committed}
      (hpr : p.recovery = some (operation.id, t))
      (h : r.1.operations = db.operations ∨ Finishes operation t e.now db.operations r.1.operations) :
      Table.Step (Effect p e) (Inserted E p e db.operations) db.operations r.1.operations := by
    rcases h with h | ⟨o, o', ho, hu, hid, hf, h⟩
    · rw [h]
      exact keep
    · rw [h]
      exact save_step hd ho hf.id_eq (.finished t (hid ▸ hpr) hu hf)
  cases stage with
  | claimForRecovery operation =>
    exact .updateWhere (fun _ => .keep) fun o _ hr => .claimed operation rest hp hr
  | refresh operation t => exact keep
  | verifyAndCompleteOperation operation t =>
    simp only [step]
    split
    · exact keep
    · split
      · exact keep
      · split <;> exact keep
  | completeVerifiedOperation operation t remote =>
    simp only [step]
    split
    · rename_i db' outcome hr
      exact finish (r := (db', outcome)) (by rw [hp]; rfl) (completeVerifiedOperation_ok hr)
    · exact keep
  | rescheduleAfterFailedRead operation t =>
    simp only [step]
    split
    · rename_i db' outcome hr
      exact finish (r := (db', outcome)) (by rw [hp]; rfl) (rescheduleAfterFailedRead_ok hr)
    · exact keep

/-- The table in a step of the command. -/
theorem resolve_step {q : ResolveSubscriptionOperation.Point}
    (hd : (db.operations.map (·.id)).Nodup) (hp : p = .resolve q) :
    Table.Step (Effect p e) (Inserted E p e db.operations) db.operations
      (ResolveSubscriptionOperation.step E q e.now e.remote db).1.operations := by
  have keep : Table.Step (Effect p e) (Inserted E p e db.operations) db.operations db.operations :=
    .keep fun _ => .keep
  have resolve {db' : Database} (h : Resolves e.now db.operations db'.operations) :
      Table.Step (Effect p e) (Inserted E p e db.operations) db.operations db'.operations := by
    obtain ⟨o, o', ho, hs, hr, h⟩ := h
    rw [h]
    exact save_step hd ho hr.id_eq (.resolved q hp hs hr)
  cases q with
  | command uuid resolution => exact keep
  | markCompleted operation =>
    simp only [ResolveSubscriptionOperation.step]
    split
    · exact keep
    · split <;> exact keep
  | finishCompleted operation remote =>
    simp only [ResolveSubscriptionOperation.step]
    split
    · rename_i db' hr
      exact resolve (finishCompleted_ok hr)
    · exact keep
  | finishFailed operation reference =>
    simp only [ResolveSubscriptionOperation.step]
    split
    · rename_i db' hr
      exact resolve (finishFailed_ok hr)
    · exact keep

theorem act_step {outcome : Outcome} (hd : (db.operations.map (·.id)).Nodup)
    (h : act E p db e = some outcome) :
    Table.Step (Effect p e) (Inserted E p e db.operations) db.operations outcome.db.operations := by
  have keep : Table.Step (Effect p e) (Inserted E p e db.operations) db.operations db.operations :=
    .keep fun _ => .keep
  cases p with
  | request r => cases h; exact keep
  | insert r planId subscription seen =>
    simp only [act, createProcessingOperation] at h
    split at h
    · rename_i x hx
      cases h
      exact keep
    · rename_i operation hx
      cases h
      split at hx <;> cases hx
      exact .insert _ ⟨r, planId, subscription, seen, rfl, eq_false_of_ne_true ‹_›, rfl⟩
  | returnExisting r operation => cases h; exact keep
  | callPaddle operation subscription planId => cases h; exact keep
  | await operation => cases h; exact keep
  | record result operation =>
    have recorded : Table.Step (Effect (.record result operation) e)
        (Inserted E (.record result operation) e db.operations) db.operations
        (Table.updateWhere (claimed operation) (record result e.now) db.operations) :=
      .updateWhere (fun _ => .keep) fun o _ hc => .recorded result operation rfl hc
    cases h
    simp only [recordStep]
    split
    · exact recorded
    · exact keep
    · exact recorded
  | respond response => cases h
  | recoverOperations limit => cases h; exact keep
  | recover stage rest => cases h; exact recover_step hd rfl
  | resolve q => cases h; exact resolve_step hd rfl
  | other users subscriptions => cases h; exact keep

/-! ### What an effect keeps -/

/-- What a request writes once and for all. -/
def identity (o : SubscriptionOperation) :
    ℕ × ℕ × SubscriptionOperationType × Option String × String × String :=
  (o.id, o.userId, o.type, o.targetPlan, o.idempotencyKeyHash, o.requestFingerprint)

theorem Effect.identity_eq (h : Effect p e o o') : identity o' = identity o := by
  cases h with
  | keep => rfl
  | recorded result => cases result <;> rfl
  | claimed => rfl
  | finished t _ _ hf => cases hf <;> rfl
  | resolved q _ _ hr => cases hr <;> rfl

theorem Effect.id_eq (h : Effect p e o o') : o'.id = o.id := congrArg (·.1) h.identity_eq

theorem Effect.userId_eq (h : Effect p e o o') : o'.userId = o.userId := congrArg (·.2.1) h.identity_eq

theorem Effect.hash_eq (h : Effect p e o o') : o'.idempotencyKeyHash = o.idempotencyKeyHash :=
  congrArg (·.2.2.2.2.1) h.identity_eq

theorem Effect.sameKey_eq (h : Effect p e o o') (r : SubscriptionRequest) :
    sameKey E r o' = sameKey E r o := by
  simp only [sameKey, h.userId_eq, h.hash_eq]

theorem unexpired_iff {t : Uuid} {now : Time} : o.unexpiredClaimOwnedBy t now = true ↔
    o.status = .processing ∧ o.claimToken = some t ∧ ∃ x, o.claimExpiresAt = some x ∧ now < x := by
  simp [SubscriptionOperation.unexpiredClaimOwnedBy, Option.any_eq_true, and_assoc]

theorem ready_iff {now : Time} : o.readyForRecoveryAt now = true ↔
    (o.status = .unknown ∧ ∀ x, o.availableAt = some x → x ≤ now) ∨
      (o.status = .processing ∧ ∃ x, o.claimExpiresAt = some x ∧ x ≤ now) := by
  cases h : o.availableAt <;>
    simp [SubscriptionOperation.readyForRecoveryAt, SubscriptionOperation.processingWithExpiredClaimAt,
      Option.any_eq_true, h]

theorem claimed_iff {operation : SubscriptionOperation} : claimed operation o = true ↔
    o.id = operation.id ∧ o.claimToken = operation.claimToken ∧ o.status = .processing := by
  simp [claimed, and_assoc]

/-- The statuses an operation goes through, step by step. -/
theorem Effect.status (h : Effect p e o o') :
    o'.status = o.status ∨ o.status.canTransitionTo o'.status = true := by
  cases h with
  | keep => exact .inl rfl
  | recorded result _ _ hc =>
    refine .inr ?_
    rw [(claimed_iff.mp hc).2.2]
    cases result <;> rfl
  | claimed _ _ _ hr =>
    simp only [ready, Bool.and_eq_true] at hr
    rcases ready_iff.mp hr.2 with h | h
    · exact .inr (by rw [h.1]; rfl)
    · exact .inl h.1.symm
  | finished t _ hu hf =>
    refine .inr ?_
    rw [(unexpired_iff.mp hu).1]
    cases hf <;> rfl
  | resolved q _ hs hr =>
    refine .inr ?_
    rw [hs]
    cases hr <;> rfl

/-- Completed and Failed are never left. -/
theorem Effect.terminal (h : Effect p e o o') (ht : o.status.isTerminal = true) : o' = o := by
  have hn : o.status ≠ .processing ∧ o.status ≠ .unknown ∧ o.status ≠ .manualReview := by
    refine ⟨?_, ?_, ?_⟩ <;> intro hs <;> rw [hs] at ht <;> cases ht
  cases h with
  | keep => rfl
  | recorded _ _ _ hc => exact absurd (claimed_iff.mp hc).2.2 hn.1
  | claimed _ _ _ hr =>
    simp only [ready, Bool.and_eq_true] at hr
    rcases ready_iff.mp hr.2 with h | h
    · exact absurd h.1 hn.2.1
    · exact absurd h.1 hn.1
  | finished t _ hu => exact absurd (unexpired_iff.mp hu).1 hn.1
  | resolved q _ hs => exact absurd hs hn.2.2

theorem active_eq : o.active = o.status.isNonTerminal := by
  unfold SubscriptionOperation.active
  cases o.status <;> rfl

/-- Nothing opens an operation again. -/
theorem Effect.active (h : Effect p e o o') (ha : o'.active = true) : o.active = true := by
  by_contra hn
  have ht : o.status.isTerminal = true := by
    simpa [active_eq, SubscriptionOperationStatus.isNonTerminal] using hn
  rw [h.terminal ht] at ha
  exact hn ha

/-- The claim on an operation is a register under its token. -/
def register (o : SubscriptionOperation) : Fence.Register Uuid ℕ := ⟨o.claimToken, o.id⟩

theorem Effect.change {issued : List Uuid} (h : Effect p e o o')
    (hf : p.drawsUuid = true → e.uuid ∉ issued) : Fence.Change issued (register o) (register o') := by
  cases h with
  | keep => exact .keep _
  | recorded result => cases result <;> exact .keep _
  | claimed operation rest hp => exact .grant _ _ (hf (by rw [hp]; rfl))
  | finished t _ _ hf => cases hf <;> exact .keep _
  | resolved q _ _ hr => cases hr <;> exact .keep _

theorem Effect.token (h : Effect p e o o') :
    o'.claimToken = o.claimToken ∨ (p.drawsUuid = true ∧ o'.claimToken = some e.uuid) := by
  cases h with
  | keep => exact .inl rfl
  | recorded result => cases result <;> exact .inl rfl
  | claimed operation rest hp => exact .inr ⟨by rw [hp]; rfl, rfl⟩
  | finished t _ _ hf => cases hf <;> exact .inl rfl
  | resolved q _ _ hr => cases hr <;> exact .inl rfl

theorem Inserted.id_not_mem (h : Inserted E p e operations o) : o.id ∉ operations.map (·.id) := by
  obtain ⟨r, planId, subscription, seen, -, -, rfl⟩ := h
  exact Table.nextId_not_mem _

theorem Inserted.key_not_mem (h : Inserted E p e operations o) :
    (o.userId, o.idempotencyKeyHash) ∉ operations.map fun o => (o.userId, o.idempotencyKeyHash) := by
  obtain ⟨r, planId, subscription, seen, -, ha, rfl⟩ := h
  intro hm
  obtain ⟨o, ho, he⟩ := List.mem_map.mp hm
  simp only [processingOperation, Prod.mk.injEq] at he
  exact List.any_eq_false.mp ha o ho (by simp [sameKey, he.1, he.2])

/-! ### Well-formed operations -/

/-- What holds of an operation at any time. -/
structure WellFormed (E : Env) (o : SubscriptionOperation) : Prop where
  attempts : o.status = .processing ∨ o.status = .unknown → o.attempts < 5
  expires : o.status = .processing → ∃ x, o.claimExpiresAt = some x
  notPending : o.status ≠ .pending
  /-- It records the request that created it. -/
  requested : ∃ r planId, planIdOf E r = .ok planId ∧ identity o =
    (o.id, r.userId, r.type, some r.plan, keyHash E r, fingerprint E r)

theorem Effect.wellFormed (h : Effect p e o o') (hw : WellFormed E o) : WellFormed E o' where
  requested := by
    obtain ⟨r, planId, hp, hr⟩ := hw.requested
    exact ⟨r, planId, hp, by rw [h.identity_eq, h.id_eq, hr]⟩
  notPending := by
    rcases h.status with hs | hs
    · exact hs ▸ hw.notPending
    · intro hp
      rw [hp] at hs
      cases ho : o.status <;> simp [ho, SubscriptionOperationStatus.canTransitionTo] at hs
  expires hs := by
    cases h with
    | keep => exact hw.expires hs
    | recorded result => cases result <;> cases hs
    | claimed => exact ⟨_, rfl⟩
    | finished t _ _ hf => cases hf <;> cases hs
    | resolved q _ _ hr => cases hr <;> cases hs
  attempts hs := by
    cases h with
    | keep => exact hw.attempts hs
    | recorded result _ _ hc =>
      have := hw.attempts (.inl (claimed_iff.mp hc).2.2)
      cases result <;> exact this
    | claimed _ _ _ hr =>
      simp only [ready, Bool.and_eq_true] at hr
      exact hw.attempts ((ready_iff.mp hr.2).symm.imp And.left And.left)
    | finished t _ _ hf =>
      cases hf with
      | unknown hlt => exact hlt
      | _ => rcases hs with hs | hs <;> cases hs
    | resolved q _ _ hr => cases hr <;> rcases hs with hs | hs <;> cases hs

end Billing
end Daywright
