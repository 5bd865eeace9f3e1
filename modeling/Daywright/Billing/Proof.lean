/-
# A subscription changes only on proof

A recovery and the command both read Paddle before their transaction, go by a
copy of the operation that they have read before, and change the subscription of
whoever the locked row names. What the proof is about never changes once the
operation is inserted (`terms`), so the copy and the row agree on it (`Checked`):
whenever one of the two completes an operation, the owner's subscription takes
the values a snapshot proves, in the same transaction, and nothing else of these
two changes a subscription.

Key definitions: `Proves`, `Demanded`, `Settled`, `SubscriptionEffect`.
Key theorem: `subscription_effect`.
-/
import Daywright.Billing.OneMutation

namespace Daywright
namespace Billing

open Interleave Php SubscriptionService RecoverSubscriptionOperation

variable {E : Env} {p q : Point} {e : Input} {o o' copy : SubscriptionOperation}
  {operations : List SubscriptionOperation} {db : Database} {s s' : Store} {k : Option Point}
  {snapshot : PaddleSubscriptionSnapshot} {subscription changed : Subscription}

/-! ### What proves an operation, and what it demands -/

/-- The snapshot proves that Paddle has done what the operation asks for. -/
def Proves (E : Env) (o : SubscriptionOperation) (snapshot : PaddleSubscriptionSnapshot) : Prop :=
  o.paddleSubscriptionId = some snapshot.subscriptionId ∧
  match o.type with
  | .swap => snapshot.planId = toText (E.plan (o.targetPlan.getD "")) ∧ snapshot.status = "active"
  | .cancel => snapshot.status = "deleted" ∧
      ∃ date, snapshot.cancellationEffectiveDate = some date ∧ isBlank date = false

/-- The subscription as the operation demands it. -/
def Demanded (E : Env) (o : SubscriptionOperation) (snapshot : PaddleSubscriptionSnapshot)
    (subscription changed : Subscription) : Prop :=
  match o.type with
  | .swap => changed = { subscription with
      paddlePlan := toInt (E.plan (o.targetPlan.getD ""))
      paddleStatus := "active"
      endsAt := none }
  | .cancel => ∃ date t, snapshot.cancellationEffectiveDate = some date ∧ E.asDateTime date = some t ∧
      changed = { subscription with paddleStatus := "deleted", endsAt := some t }

/-- What of an operation its proof and its owner depend on. -/
def terms (o : SubscriptionOperation) : ℕ × SubscriptionOperationType × Option String × Option String :=
  (o.userId, o.type, o.targetPlan, o.paddleSubscriptionId)

theorem proves_of_ok (h : provesOperationSucceeded E o snapshot = .ok ()) (hb : o.blankPaddleId = false) :
    Proves E o snapshot := by
  obtain ⟨id, hid⟩ : ∃ id, o.paddleSubscriptionId = some id := by
    cases hp : o.paddleSubscriptionId with
    | none => simp [SubscriptionOperation.blankPaddleId, hp] at hb
    | some id => exact ⟨id, rfl⟩
  simp only [provesOperationSucceeded, VerifySubscriptionOperation.execute, hid, Option.getD_some] at h
  split at h
  · cases h
  · rename_i hs
    refine ⟨hid.trans (congrArg some (not_not.mp hs).symm), ?_⟩
    cases ht : o.type with
    | swap =>
      simp only [ht, targetPlanId, VerifySubscriptionOperation.verifySwap] at h
      split at h
      · rename_i hsw
        simpa [PaddleSubscriptionSnapshot.provesSwapSucceeded] using hsw
      · cases h
    | cancel =>
      simp only [ht, VerifySubscriptionOperation.verifyCancel] at h
      split at h
      · rename_i hc
        simpa [PaddleSubscriptionSnapshot.provesCancelSucceeded, Option.any_eq_true] using hc
      · cases h

theorem Proves.of_terms (h : Proves E copy snapshot) (ht : terms o = terms copy) : Proves E o snapshot := by
  simp only [terms, Prod.mk.injEq] at ht
  obtain ⟨-, htype, htarget, hid⟩ := ht
  simpa only [Proves, htype, htarget, hid] using h

theorem changes_of_terms (ht : terms o = terms copy) :
    localSubscriptionChanges E o snapshot subscription = localSubscriptionChanges E copy snapshot subscription := by
  simp only [terms, Prod.mk.injEq] at ht
  obtain ⟨-, htype, htarget, -⟩ := ht
  simp only [localSubscriptionChanges, htype, htarget]

/-- On proof, the changes are those that the operation demands. -/
theorem demanded_of_changes (hp : Proves E o snapshot)
    (h : localSubscriptionChanges E o snapshot subscription = some changed) :
    Demanded E o snapshot subscription changed := by
  unfold localSubscriptionChanges at h
  unfold Demanded
  cases ht : o.type with
  | swap =>
    rw [ht] at h
    exact (Option.some.inj h).symm
  | cancel =>
    obtain ⟨-, hp⟩ := hp
    rw [ht] at h hp
    obtain ⟨-, date, hdate, -⟩ := hp
    rw [hdate] at h
    obtain ⟨t, hread, rfl⟩ := Option.map_eq_some_iff.mp h
    exact ⟨date, t, hdate, hread, rfl⟩

theorem localSubscription_some (h : localSubscription E o db = some subscription) :
    o.userId ∈ db.users ∧ subscription ∈ db.subscriptions ∧
      o.paddleSubscriptionId.any (E.sameNumber subscription.paddleId) = true ∧
      HasSubscription.billedTo o.userId subscription = true := by
  unfold localSubscription at h
  split at h
  · rename_i hu
    have hf := List.find?_some h
    simp only [Bool.and_eq_true] at hf
    exact ⟨List.contains_iff_mem.mp hu, List.mem_of_find?_eq_some h, hf.1, hf.2⟩
  · cases h

theorem changes_id (h : localSubscriptionChanges E o snapshot subscription = some changed) :
    changed.id = subscription.id := by
  unfold localSubscriptionChanges at h
  split at h
  · cases h
    rfl
  · split at h
    · cases h
      rfl
    · obtain ⟨t, -, rfl⟩ := Option.map_eq_some_iff.mp h
      rfl

/-! ### An operation and a subscription settled together -/

/-- A transaction settles operation `o` on the snapshot's proof: the subscription of
its owner that has its Paddle id takes the values it demands, the operation becomes
Completed, and no other row of the two tables changes. -/
structure Settled (E : Env) (snapshot : PaddleSubscriptionSnapshot) (db db' : Database)
    (o o' : SubscriptionOperation) (subscription changed : Subscription) : Prop where
  operation_mem : o ∈ db.operations
  subscription_mem : subscription ∈ db.subscriptions
  paddleId : o.paddleSubscriptionId.any (E.sameNumber subscription.paddleId) = true
  owner : o.userId ∈ db.users ∧ HasSubscription.billedTo o.userId subscription = true
  proof : Proves E o snapshot
  demanded : Demanded E o snapshot subscription changed
  open_ : o.status ≠ .completed
  completed : o'.id = o.id ∧ o'.status = .completed
  operations : db'.operations = db.operations.map fun r => if r = o then o' else r
  subscriptions : db'.subscriptions = db.subscriptions.map fun r => if r = subscription then changed else r

/-- The operation a process has read is a copy of its row, as far as its terms go. -/
def Copy (copy : SubscriptionOperation) (operations : List SubscriptionOperation) : Prop :=
  ∃ o ∈ operations, o.id = copy.id ∧ terms o = terms copy

theorem Copy.terms_eq (h : Copy copy operations) (hd : (operations.map (·.id)).Nodup) (ho : o ∈ operations)
    (hid : o.id = copy.id) : terms o = terms copy := by
  obtain ⟨r, hr, hrid, ht⟩ := h
  rw [List.inj_on_of_nodup_map hd ho hr (hid.trans hrid.symm)]
  exact ht

theorem Settled.of_changes (hd : (db.operations.map (·.id)).Nodup) (hds : (db.subscriptions.map (·.id)).Nodup)
    (hp : Proves E o snapshot) (ho : o ∈ db.operations) (hopen : o.status ≠ .completed)
    (ho' : o'.id = o.id ∧ o'.status = .completed) (hl : localSubscription E o db = some subscription)
    (hc : localSubscriptionChanges E o snapshot subscription = some changed) :
    Settled E snapshot db
      { db with subscriptions := changed.save db.subscriptions, operations := o'.save db.operations }
      o o' subscription changed := by
  obtain ⟨hu, hm, hid, hb⟩ := localSubscription_some hl
  exact {
    operation_mem := ho
    subscription_mem := hm
    paddleId := hid
    owner := ⟨hu, hb⟩
    proof := hp
    demanded := demanded_of_changes hp hc
    open_ := hopen
    completed := ho'
    operations := Table.updateWhere_of_key hd ho ho'.1
    subscriptions := Table.updateWhere_of_key hds hm (changes_id hc) }

/-! ### What a process goes by -/

namespace Point

/-- The operation a recovery or the command goes by, from where it has read its row. -/
def reading : Point → Option SubscriptionOperation
  | .recover (.verifyAndCompleteOperation o _) _ | .recover (.completeVerifiedOperation o _ _) _
  | .resolve (.markCompleted o) | .resolve (.finishCompleted o _) => some o
  | _ => none

/-- The operation it is about to complete, and its proof. -/
def proof : Point → Option (SubscriptionOperation × PaddleSubscriptionSnapshot)
  | .recover (.completeVerifiedOperation o _ remote) _ | .resolve (.finishCompleted o remote) => some (o, remote)
  | _ => none

/-- A recovery, or the command. -/
def settles : Point → Bool
  | .recover _ _ | .resolve _ => true
  | _ => false

theorem reading_of_proof (h : p.proof = some (o, snapshot)) : p.reading = some o := by
  cases p with
  | recover stage rest =>
    cases stage <;> cases h
    rfl
  | resolve q =>
    cases q <;> cases h
    rfl
  | _ => cases h

end Point

/-- What a process has checked of the operation it goes by. -/
structure Checked (E : Env) (s : Store) (p : Point) : Prop where
  copy : ∀ o, p.reading = some o → Copy o s.db.operations
  readable : ∀ o, p = .resolve (.markCompleted o) → o.blankPaddleId = false
  proof : ∀ o snapshot, p.proof = some (o, snapshot) → Proves E o snapshot

/-- How a process comes by the operation it goes by: it has just read its row, or it
keeps it and has read its proof from Paddle. -/
inductive Came (E : Env) (s : Store) (p : Point) (e : Input) (q : Point) (o : SubscriptionOperation) : Prop
  | read : o ∈ s.db.operations → q.proof = none →
      (∀ o', q = .resolve (.markCompleted o') → o'.blankPaddleId = false) → Came E s p e q o
  | proved (snapshot : PaddleSubscriptionSnapshot) : p.reading = some o → q.proof = some (o, snapshot) →
      e.remote = some snapshot → (o.blankPaddleId = false ∨ p = .resolve (.markCompleted o)) →
      provesOperationSucceeded E o snapshot = .ok () → Came E s p e q o

theorem came_of_recover {stage stage' : Stage} {rest : List SubscriptionOperation}
    (h : (step E stage e.uuid e.now e.remote s.db).2 = some stage')
    (hq : (Point.recover stage' rest).reading = some o) :
    Came E s (.recover stage rest) e (.recover stage' rest) o := by
  cases stage with
  | claimForRecovery operation =>
    simp only [step] at h
    split at h <;> cases h
    cases hq
  | refresh operation t =>
    obtain ⟨r, hr, rfl⟩ := Option.map_eq_some_iff.mp h
    cases hq
    exact .read (fresh_some hr).1 rfl fun _ he => by cases he
  | verifyAndCompleteOperation operation t =>
    simp only [step] at h
    split at h
    · cases h
      cases hq
    · rename_i hb
      split at h
      · cases h
        cases hq
      · rename_i remote hremote
        split at h <;> cases h <;> cases hq
        exact .proved remote rfl rfl hremote (.inl (eq_false_of_ne_true hb)) (by assumption)
  | completeVerifiedOperation operation t remote =>
    simp only [step] at h
    split at h <;> cases h
  | rescheduleAfterFailedRead operation t =>
    simp only [step] at h
    split at h <;> cases h

theorem came_of_resolve {point point' : ResolveSubscriptionOperation.Point}
    (h : (ResolveSubscriptionOperation.step E point e.now e.remote s.db).2 = some point')
    (hq : (Point.resolve point').reading = some o) :
    Came E s (.resolve point) e (.resolve point') o := by
  cases point with
  | command operationUuid resolution =>
    obtain ⟨r, hr, hpr⟩ := Option.bind_eq_some_iff.mp h
    unfold ResolveSubscriptionOperation.prepare at hpr
    split at hpr
    · cases hpr
    split at hpr
    · rw [Option.ite_none_left_eq_some] at hpr
      obtain ⟨hn, he⟩ := hpr
      cases he
      cases hq
      refine .read (List.mem_of_find?_eq_some hr) rfl fun o' ho' => ?_
      cases ho'
      simp only [Bool.or_eq_true, not_or] at hn
      exact eq_false_of_ne_true hn.2
    · split at hpr <;> cases hpr
      cases hq
  | markCompleted operation =>
    simp only [ResolveSubscriptionOperation.step] at h
    split at h
    · cases h
    · rename_i remote hremote
      split at h <;> cases h
      cases hq
      exact .proved remote rfl rfl hremote (.inr rfl) (by assumption)
  | finishCompleted operation remote =>
    simp only [ResolveSubscriptionOperation.step] at h
    split at h <;> cases h
  | finishFailed operation reference =>
    simp only [ResolveSubscriptionOperation.step] at h
    split at h <;> cases h

theorem recoverNext_reading (h : recoverNext operations = some q) : q.reading = none := by
  cases operations with
  | nil => cases h
  | cons operation rest => cases h; rfl

theorem requestStep_reading {r : SubscriptionRequest} {now : Time} : (requestStep E r db now).reading = none := by
  unfold requestStep
  split
  · rfl
  · split <;> rfl

theorem came (h : (program E).move s p e = some (s', some q)) (hq : q.reading = some o) : Came E s p e q o := by
  obtain ⟨outcome, hact, -, -, hk, -⟩ := moved h
  cases p with
  | recover stage rest =>
    cases hact
    dsimp only at hk
    split at hk
    · rename_i stage' hst
      cases hk
      exact came_of_recover hst hq
    · simp [recoverNext_reading hk.symm] at hq
  | resolve point =>
    cases hact
    obtain ⟨point', hpt, rfl⟩ := Option.map_eq_some_iff.mp hk.symm
    exact came_of_resolve hpt hq
  | recoverOperations limit =>
    cases hact
    simp [recoverNext_reading hk.symm] at hq
  | request r =>
    cases hact
    rw [Option.some.inj hk, requestStep_reading] at hq
    cases hq
  | insert r planId subscription seen =>
    simp only [act] at hact
    split at hact <;> cases hact <;> cases hk <;> cases hq
  | record result operation =>
    cases hact
    simp only [recordStep] at hk
    split at hk
    · cases hk
      cases hq
    all_goals
      split at hk <;> cases hk
      cases hq
  | respond response => cases hact
  | other users subscriptions => cases hact; cases hk
  | returnExisting | callPaddle | await =>
    cases hact
    cases hk
    cases hq

/-! ### The outline -/

theorem Effect.terms_eq (h : Effect p e o o') : terms o' = terms o := by
  cases h with
  | keep => rfl
  | recorded result => cases result <;> rfl
  | claimed => rfl
  | finished t _ _ hf => cases hf <;> rfl
  | resolved q _ _ hr => cases hr <;> rfl

theorem Copy.step {New : SubscriptionOperation → Prop} {operations' : List SubscriptionOperation}
    (h : Copy copy operations) (hs : Table.Step (Effect p e) New operations operations') :
    Copy copy operations' := by
  obtain ⟨o, ho, hid, ht⟩ := h
  obtain ⟨o', ho', he⟩ := hs.next (fun _ => .keep) ho
  exact ⟨o', ho', he.id_eq.trans hid, he.terms_eq.trans ht⟩

theorem Checked.of_idle (h : p.reading = none) : Checked E s p where
  copy o hp := by simp [h] at hp
  readable o hp := by subst hp; cases h
  proof o snapshot hp := by simp [Point.reading_of_proof hp] at h

theorem Checked.next (hA : Checked E s p) (hstep : Table.Step (Effect p e) (Inserted E p e s.db.operations)
    s.db.operations s'.db.operations) (h : (program E).move s p e = some (s', some q)) : Checked E s' q := by
  cases hq : q.reading with
  | none => exact .of_idle hq
  | some o =>
    cases came h hq with
    | read ho hproof hreadable =>
      refine ⟨fun o' ho' => ?_, hreadable, fun o' snapshot hp => by simp [hproof] at hp⟩
      cases hq.symm.trans ho'
      exact Copy.step ⟨o, ho, rfl, rfl⟩ hstep
    | proved snapshot hp hproof _ hb hok =>
      refine ⟨fun o' ho' => ?_, fun o' ho' => ?_, fun o' snapshot' hp' => ?_⟩
      · cases hq.symm.trans ho'
        exact (hA.copy o hp).step hstep
      · subst ho'
        cases hproof
      · cases hproof.symm.trans hp'
        refine proves_of_ok hok (hb.elim id fun hm => ?_)
        exact hA.readable o hm

theorem reading_of_entry (h : (program E).entry p = true) : p.reading = none := by
  cases p with
  | resolve q => cases q <;> first | rfl | cases h
  | recover => cases h
  | _ => rfl

theorem proofOutline : Outline (program E) (fun _ _ _ => True)
    (fun s => (s.db.operations.map (·.id)).Nodup) (Checked E) where
  entry s p _ hp := .of_idle (reading_of_entry hp)
  move s p e s' k hI hA _ h := by
    obtain ⟨outcome, hmv⟩ := moved h
    have hstep := hmv.db ▸ act_step hI hmv.outcome
    refine ⟨hstep.nodup (fun _ _ => Effect.id_eq) (fun _ => Inserted.id_not_mem) hI, fun q hq => ?_⟩
    exact hA.next hstep (hq ▸ h)
  frame s p e s' k q hI _ _ h hq := by
    obtain ⟨outcome, hmv⟩ := moved h
    have hstep := hmv.db ▸ act_step hI hmv.outcome
    exact ⟨fun o ho => (hq.copy o ho).step hstep, hq.readable, hq.proof⟩

/-! ### What a step does to the subscriptions -/

/-- No operation has been completed. -/
def NoneCompleted (operations operations' : List SubscriptionOperation) : Prop :=
  ∀ o ∈ operations', o.status = .completed → o ∈ operations

theorem NoneCompleted.refl : NoneCompleted operations operations := fun _ ho _ => ho

theorem NoneCompleted.updateWhere {f : SubscriptionOperation → Bool}
    {g : SubscriptionOperation → SubscriptionOperation} (hg : ∀ o, (g o).status ≠ .completed) :
    NoneCompleted operations (Table.updateWhere f g operations) := by
  intro o ho hs
  obtain ⟨r, hr, he⟩ := Table.mem_updateWhere.mp ho
  split at he <;> subst he
  · exact absurd hs (hg r)
  · exact hr

theorem NoneCompleted.save (h : o.status ≠ .completed) : NoneCompleted operations (o.save operations) :=
  .updateWhere fun _ => h

/-- What a recovery or the command does to the two tables in one step, at a point where
it goes by `p.proof`. -/
inductive Settlement (E : Env) (p : Point) (db db' : Database) : Prop
  | none : db'.subscriptions = db.subscriptions → NoneCompleted db.operations db'.operations →
      Settlement E p db db'
  | settled (copy : SubscriptionOperation) (snapshot : PaddleSubscriptionSnapshot)
      (o o' : SubscriptionOperation) (subscription changed : Subscription) :
      p.proof = some (copy, snapshot) → o.id = copy.id →
      Settled E snapshot db db' o o' subscription changed → Settlement E p db db'

theorem Settlement.refl : Settlement E p db db := .none rfl .refl

theorem recover_settlement {stage : Stage} {rest : List SubscriptionOperation}
    (hd : (s.db.operations.map (·.id)).Nodup) (hds : (s.db.subscriptions.map (·.id)).Nodup)
    (hA : Checked E s (.recover stage rest)) :
    Settlement E (.recover stage rest) s.db (step E stage e.uuid e.now e.remote s.db).1 := by
  cases stage with
  | claimForRecovery operation => exact .none rfl (.updateWhere fun _ => by simp [claim])
  | refresh operation t => exact .refl
  | verifyAndCompleteOperation operation t =>
    simp only [step]
    split
    · exact .refl
    · split
      · exact .refl
      · split <;> exact .refl
  | completeVerifiedOperation operation t remote =>
    simp only [step]
    split
    · rename_i db' outcome hr
      rcases completeVerifiedOperation_cases hr with h | ⟨o, ho, hu, hid, h⟩
      · cases h
        exact .refl
      · rcases h with ⟨o', -, hs, h⟩ | ⟨o', subscription, changed, hf, hs, hl, hc, h⟩
        · cases h
          exact .none rfl (.save hs)
        · cases h
          have hterms := (hA.copy operation rfl).terms_eq hd ho hid
          refine .settled operation remote o o' subscription changed rfl hid ?_
          refine .of_changes hd hds ((hA.proof operation remote rfl).of_terms hterms) ho ?_
            ⟨hf.id_eq, hs⟩ hl ((changes_of_terms hterms).trans hc)
          simp [(unexpired_iff.mp hu).1]
    · exact .refl
  | rescheduleAfterFailedRead operation t =>
    simp only [step]
    split
    · rename_i db' outcome hr
      rcases rescheduleAfterFailedRead_cases hr with h | ⟨o, -, -, -, o', -, hs, h⟩
      · cases h
        exact .refl
      · cases h
        exact .none rfl (.save hs)
    · exact .refl

theorem resolve_settlement {point : ResolveSubscriptionOperation.Point}
    (hd : (s.db.operations.map (·.id)).Nodup) (hds : (s.db.subscriptions.map (·.id)).Nodup)
    (hA : Checked E s (.resolve point)) :
    Settlement E (.resolve point) s.db
      (ResolveSubscriptionOperation.step E point e.now e.remote s.db).1 := by
  cases point with
  | command operationUuid resolution => exact .refl
  | markCompleted operation =>
    simp only [ResolveSubscriptionOperation.step]
    split
    · exact .refl
    · split <;> exact .refl
  | finishCompleted operation remote =>
    simp only [ResolveSubscriptionOperation.step]
    split
    · rename_i db' hr
      obtain ⟨o, ho, hid, hopen, o', subscription, changed, hf, hs, hl, hc, rfl⟩ := finishCompleted_cases hr
      have hterms := (hA.copy operation rfl).terms_eq hd ho hid
      refine .settled operation remote o o' subscription changed rfl hid ?_
      refine .of_changes hd hds ((hA.proof operation remote rfl).of_terms hterms) ho ?_ ⟨hf.id_eq, hs⟩ hl hc
      simp [hopen]
    · exact .refl
  | finishFailed operation reference =>
    simp only [ResolveSubscriptionOperation.step]
    split
    · rename_i db' hr
      obtain ⟨o, -, -, o', -, hs, rfl⟩ := finishFailed_cases hr
      exact .none rfl (.save hs)
    · exact .refl

/-- Requests do not write subscriptions. -/
theorem request_subscriptions {outcome : Outcome} (h : act E p db e = some outcome)
    (hp : p.settles = false) : outcome.db.subscriptions = db.subscriptions ∨
      ∃ users subscriptions, p = .other users subscriptions := by
  cases p with
  | insert r planId subscription seen =>
    simp only [act] at h
    split at h <;> cases h <;> exact .inl rfl
  | record result operation =>
    cases h
    simp only [recordStep]
    split <;> exact .inl rfl
  | respond => cases h
  | other users subscriptions => exact .inr ⟨users, subscriptions, rfl⟩
  | recover | resolve => cases hp
  | request | returnExisting | callPaddle | await | recoverOperations =>
    cases h
    exact .inl rfl

/-- What a step after the steps `tr` does to the subscriptions. -/
inductive SubscriptionEffect (E : Env) (tr : List (Step Store Point Input)) (st : Step Store Point Input) : Prop
  /-- Nothing; no operation is completed by a recovery or by the command. -/
  | kept : st.post.store.db.subscriptions = st.pre.store.db.subscriptions →
      (∀ p, st.mover = some p → p.settles = true →
        NoneCompleted st.pre.store.db.operations st.post.store.db.operations) → SubscriptionEffect E tr st
  /-- A recovery or the command settles the operation it is about to complete, on a
  snapshot read before. -/
  | settled (p : Point) (copy : SubscriptionOperation) (snapshot : PaddleSubscriptionSnapshot)
      (o o' : SubscriptionOperation) (subscription changed : Subscription) : st.mover = some p →
      p.proof = some (copy, snapshot) → o.id = copy.id →
      (∃ st₀ ∈ tr, ∃ p₀ e₀, st₀.Fires p₀ e₀ ∧ e₀.remote = some snapshot) →
      Settled E snapshot st.pre.store.db st.post.store.db o o' subscription changed → SubscriptionEffect E tr st
  /-- They are written by other code. -/
  | other (users : List ℕ) (subscriptions : List Subscription) : st.mover = some (.other users subscriptions) →
      SubscriptionEffect E tr st

theorem proof_read {c₀ c : Config Store Point} {tr : List (Step Store Point Input)} (h₀ : c₀.procs = [])
    (h : (program E).Run c₀ tr c) (hp : p ∈ c.procs) (hproof : p.proof = some (o, snapshot)) :
    ∃ st₀ ∈ tr, ∃ p₀ e₀, st₀.Fires p₀ e₀ ∧ e₀.remote = some snapshot := by
  rcases h.origin (program E) hp with hp | hp | ⟨st₀, hst, p₀, e₀, s₀, hf, hm⟩
  · simp [h₀] at hp
  · have hp' := reading_of_entry hp
    simp [Point.reading_of_proof hproof] at hp'
  · cases came hm (Point.reading_of_proof hproof) with
    | read _ hn => simp [hn] at hproof
    | proved snapshot' _ hproof' hremote =>
      cases hproof.symm.trans hproof'
      exact ⟨st₀, hst, p₀, e₀, hf, hremote⟩

/-- **Subscriptions change on proof**: from any database, whatever the interleaving, a
step of a recovery or of the command that changes a subscription or completes an
operation does both, to the subscription of the operation's owner with its Paddle id,
on a snapshot that proves it and to the values it demands. -/
theorem subscription_effect {c₀ c c' : Config Store Point} {tr : List (Step Store Point Input)}
    {a : Act Point Input} (h₀ : c₀.procs = []) (hids : (c₀.store.db.operations.map (·.id)).Nodup)
    (h : (program E).Run c₀ tr c) (hs : (program E).step c a = some c')
    (hd : (c.store.db.subscriptions.map (·.id)).Nodup) : SubscriptionEffect E tr ⟨c, a, c'⟩ := by
  have hHolds := proofOutline.run ⟨hids, by simp [h₀]⟩ h fun _ _ _ _ _ => trivial
  rcases (program E).step_cases hs with ⟨p, rfl, -, rfl⟩ | ⟨i, rfl, rfl⟩ | ⟨i, e, p, s, k, rfl, hp, hm, hs', -⟩
  · exact .kept rfl fun q hq => by cases hq
  · exact .kept rfl fun q hq => by cases hq
  have hmover : (⟨c, .move i e, c'⟩ : Step Store Point Input).mover = some p := hp
  have hA := hHolds.2 p (List.mem_of_getElem? hp)
  obtain ⟨outcome, hmv⟩ := moved hm
  have hdb : c'.store.db = outcome.db := hs' ▸ hmv.db
  cases hset : p.settles with
  | false =>
    rcases request_subscriptions hmv.outcome hset with hk | ⟨users, subscriptions, rfl⟩
    · refine .kept (hdb ▸ hk) fun p' hp' hset' => ?_
      cases hmover.symm.trans hp'
      simp [hset] at hset'
    · exact .other users subscriptions hmover
  | true =>
    have hsettle : Settlement E p c.store.db outcome.db := by
      cases p with
      | recover stage rest =>
        cases hmv.outcome
        exact recover_settlement hHolds.1 hd hA
      | resolve point =>
        cases hmv.outcome
        exact resolve_settlement hHolds.1 hd hA
      | _ => cases hset
    cases hsettle with
    | none hk hn => exact .kept (hdb ▸ hk) fun _ _ _ => hdb ▸ hn
    | settled copy snapshot o o' subscription changed hproof hid hst =>
      exact .settled p copy snapshot o o' subscription changed hmover hproof hid
        (proof_read h₀ h (List.mem_of_getElem? hp) hproof) (hdb ▸ hst)

namespace Sample

/-- The scheduler recovers the operation whose answer was lost; Paddle has the new plan. -/
def recovery : List (Act Point Input) :=
  lost ++ [.arrive (.recoverOperations 10), .move 1 (input 100000 "" .success none),
    .move 1 (input 100000 "second" .success none), .move 1 (input 100000 "" .success none),
    .move 1 (input 100000 "" .success (some ⟨"5501", "202", "active", none⟩))]

/-- It completes the operation. -/
def complete : Act Point Input := .move 1 (input 101000 "" .success none)

def changesPlan (c : Config Store Point) : Bool :=
  ((program env).step c complete).any fun c' =>
    c.store.db.subscriptions.map (·.paddlePlan) == [101] &&
      c'.store.db.subscriptions.map (·.paddlePlan) == [202] && decide (c.store.db.subscriptions.map (·.id)).Nodup

end Sample

/-- The recovery of the lost answer: the step that completes the operation changes the plan. -/
theorem subscription_effect_recovery : ∃ tr c c', (program Sample.env).Run Sample.begin tr c ∧
    (program Sample.env).step c Sample.complete = some c' ∧
    c.store.db.subscriptions.map (·.paddlePlan) = [101] ∧
    c'.store.db.subscriptions.map (·.paddlePlan) = [202] ∧
    SubscriptionEffect Sample.env tr ⟨c, Sample.complete, c'⟩ := by
  obtain ⟨tr, c, h, hc⟩ := (program Sample.env).exists_run_of_replay Sample.recovery (c := Sample.begin)
    (q := fun _ c => Sample.changesPlan c) (by decide)
  unfold Sample.changesPlan at hc
  obtain ⟨c', hs, hc⟩ := (Option.any_eq_true _ _).mp hc
  simp only [Bool.and_eq_true, beq_iff_eq, decide_eq_true_eq] at hc
  obtain ⟨⟨hbefore, hafter⟩, hd⟩ := hc
  have hids : (Sample.begin.store.db.operations.map (·.id)).Nodup := List.nodup_nil
  exact ⟨tr, c, c', h, hs, hbefore, hafter, subscription_effect rfl hids h hs hd⟩

end Billing
end Daywright
