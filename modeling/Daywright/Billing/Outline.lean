/-
# What holds in every run

The invariant of the store (`Inv`): at most one open operation for each user, and
at most one call of Paddle for each operation. A process knows that the tokens it
works with were drawn and that nothing stands in the way of its request
(`Knowledge`); `Next` says once where a process can go on. Two requests are apart
if they are not about to call Paddle for one operation.

Key definitions: `Inv`, `Knowledge`, `Next`.
Key theorems: `next_of_move`, `outline`, `holds_of_run`.
-/
import Daywright.Billing.Effects

namespace Daywright
namespace Billing

open Interleave SubscriptionService RecoverSubscriptionOperation

variable {E : Env} {p q : Point} {e : Input} {o o' : SubscriptionOperation}
  {operations : List SubscriptionOperation} {db : Database} {s s' : Store} {k : Option Point}

/-! ### Invariant and knowledge -/

/-- The invariant of the store. -/
structure Inv (E : Env) (s : Store) : Prop where
  ids : (s.db.operations.map (·.id)).Nodup
  keys : (s.db.operations.map fun o => (o.userId, o.idempotencyKeyHash)).Nodup
  oneActive : ∀ o ∈ s.db.operations, ∀ o' ∈ s.db.operations, o.userId = o'.userId →
    o.active = true → o'.active = true → o = o'
  rows : ∀ o ∈ s.db.operations, WellFormed E o
  issued : ∀ o ∈ s.db.operations, ∃ t, o.claimToken = some t ∧ t ∈ s.issued
  /-- Paddle was called for operations, under their user and key, once for each. -/
  mutations : ∀ m ∈ s.mutations, ∃ o ∈ s.db.operations, o.id = m.operationId ∧ o.userId = m.userId ∧
    o.idempotencyKeyHash = m.idempotencyKeyHash
  once : (s.mutations.map (·.operationId)).Nodup

/-- The operation a process has in hand is one of the table. -/
def Known (operation : SubscriptionOperation) (operations : List SubscriptionOperation) : Prop :=
  ∃ o ∈ operations, o.id = operation.id ∧ o.userId = operation.userId ∧
    o.idempotencyKeyHash = operation.idempotencyKeyHash

/-- What a request knows about to insert: as long as nobody has inserted for the user,
there is no operation under its key and none that is open. -/
structure Cleared (E : Env) (r : SubscriptionRequest) (seen : ℕ) (operations : List SubscriptionOperation) :
    Prop where
  seen_le : seen ≤ operationCount r.userId operations
  unused : operationCount r.userId operations = seen → ∀ o ∈ operations, sameKey E r o = false
  idle : operationCount r.userId operations = seen → ∀ o ∈ operations, o.userId = r.userId → o.active = false

/-- What a process knows. -/
structure Knowledge (E : Env) (s : Store) (p : Point) : Prop where
  /-- The tokens it works with were drawn. -/
  original : ∀ id t, p.original = some (id, t) → ∃ t', t = some t' ∧ t' ∈ s.issued
  recovery : ∀ id t, p.recovery = some (id, t) → t ∈ s.issued
  /-- Its request can be carried out, and nothing stands in its way. -/
  insert : ∀ r planId subscription seen, p = .insert r planId subscription seen →
    planIdOf E r = .ok planId ∧ Cleared E r seen s.db.operations
  existing : ∀ r operation, p = .returnExisting r operation → Known operation s.db.operations
  /-- Paddle was not called for the operation it is about to call it for. -/
  call : ∀ operation subscription planId, p = .callPaddle operation subscription planId →
    Known operation s.db.operations ∧ operation.id ∉ s.mutations.map (·.operationId)

/-- No two processes are about to call Paddle for one operation. -/
def OnePerOperation (p q : Point) : Prop :=
  ∀ o subscription planId o' subscription' planId', p = .callPaddle o subscription planId →
    q = .callPaddle o' subscription' planId' → o.id ≠ o'.id

/-- A point at which a process has no operation in hand. -/
def Point.plain : Point → Bool
  | .request _ | .respond _ | .recoverOperations _ | .resolve _ | .other _ _ => true
  | .recover (.claimForRecovery _) _ => true
  | _ => false

theorem Point.idle_of_plain (h : p.plain = true) : p.original = none ∧ p.recovery = none := by
  cases p with
  | recover stage rest => cases stage <;> first | exact ⟨rfl, rfl⟩ | cases h
  | _ => first | exact ⟨rfl, rfl⟩ | cases h

theorem Knowledge.of_plain (h : p.plain = true) : Knowledge E s p where
  original id t hp := by simp [(Point.idle_of_plain h).1] at hp
  recovery id t hp := by simp [(Point.idle_of_plain h).2] at hp
  insert _ _ _ _ hp := by subst hp; cases h
  existing _ _ hp := by subst hp; cases h
  call _ _ _ hp := by subst hp; cases h

/-! ### The lookup of a request -/

theorem findExistingOperation_ok {r : SubscriptionRequest} {found : Option SubscriptionOperation}
    (h : findExistingOperation E r operations = .ok found) :
    operations.find? (sameKey E r) = found ∧
      ∀ o, found = some o → o.requestFingerprint = fingerprint E r := by
  unfold findExistingOperation at h
  split at h
  · rename_i hf
    cases h
    exact ⟨hf, fun o ho => by cases ho⟩
  · rename_i existing hf
    split at h
    · cases h
    · rename_i hp
      cases h
      exact ⟨hf, fun o ho => by cases ho; exact not_not.mp hp⟩

/-- What a lookup that succeeds has found. -/
theorem lookUp_ok {r : SubscriptionRequest} {now : Time} {found : Found}
    (h : lookUp E r db now = .ok found) :
    (∃ o, found = .existing o ∧ db.operations.find? (sameKey E r) = some o ∧
      o.requestFingerprint = fingerprint E r) ∨
    (∃ subscription, found = .nothing subscription ∧ db.operations.find? (sameKey E r) = none ∧
      activeConflict r db.operations = false) := by
  simp only [lookUp, bind, Except.bind, pure, Except.pure, throw, throwThe, MonadExceptOf.throw] at h
  split at h
  · cases h
  split at h
  · cases h
  rename_i found₁ hf
  obtain ⟨hfind, hfp⟩ := findExistingOperation_ok hf
  split at h
  · rename_i o
    cases h
    exact .inl ⟨o, rfl, hfind, hfp o rfl⟩
  split at h
  · cases h
  dsimp only at h
  split at h
  · cases h
  · rename_i hc
    cases h
    exact .inr ⟨_, rfl, hfind, eq_false_of_ne_true hc⟩

/-- The request is about to insert only if the lookup has found nothing. -/
theorem requestStep_insert {r r' : SubscriptionRequest} {planId : Option ℤ} {now : Time}
    {subscription : Option Subscription} {seen : ℕ}
    (h : requestStep E r db now = .insert r' planId subscription seen) :
    r' = r ∧ planIdOf E r = .ok planId ∧ Cleared E r seen db.operations := by
  unfold requestStep at h
  split at h
  · cases h
  rename_i hp
  split at h
  · cases h
  · cases h
  · rename_i subscription' hl
    cases h
    rcases lookUp_ok hl with ⟨o, he, -⟩ | ⟨_, -, hf, ha⟩
    · cases he
    refine ⟨rfl, hp, Nat.le_refl _, fun _ o ho => ?_, fun _ o ho hu => ?_⟩
    · exact eq_false_of_ne_true (List.find?_eq_none.mp hf o ho)
    · have := List.any_eq_false.mp ha o ho
      simpa [hu] using this

theorem requestStep_existing {r r' : SubscriptionRequest} {now : Time}
    (h : requestStep E r db now = .returnExisting r' o) :
    r' = r ∧ db.operations.find? (sameKey E r) = some o ∧ o.requestFingerprint = fingerprint E r := by
  unfold requestStep at h
  split at h
  · cases h
  split at h
  · cases h
  · rename_i o' hl
    cases h
    rcases lookUp_ok hl with ⟨o, he, hf, hfp⟩ | ⟨_, he, -⟩
    · cases he
      exact ⟨rfl, hf, hfp⟩
    · cases he
  · cases h

/-! ### Steps -/

theorem Known.step {New : SubscriptionOperation → Prop} {operation : SubscriptionOperation}
    {operations' : List SubscriptionOperation} (h : Known operation operations)
    (hs : Table.Step (Effect p e) New operations operations') : Known operation operations' := by
  obtain ⟨o, ho, hid, hu, hh⟩ := h
  obtain ⟨o', ho', he⟩ := hs.next (fun _ => .keep) ho
  exact ⟨o', ho', he.id_eq.trans hid, he.userId_eq.trans hu, he.hash_eq.trans hh⟩

/-- Whoever inserts for the user makes what the request has seen out of date. -/
theorem Cleared.step {New : SubscriptionOperation → Prop} {r : SubscriptionRequest} {seen : ℕ}
    {operations' : List SubscriptionOperation} (h : Cleared E r seen operations)
    (hs : Table.Step (Effect p e) New operations operations') : Cleared E r seen operations' := by
  cases hs with
  | change f hf =>
    have hc : operationCount r.userId (operations.map f) = operationCount r.userId operations := by
      unfold operationCount
      rw [List.countP_map]
      refine List.countP_congr fun o ho => ?_
      simp only [Function.comp_apply, (hf o ho).userId_eq]
    refine ⟨hc ▸ h.seen_le, fun he o' ho' => ?_, fun he o' ho' hu => ?_⟩
    · obtain ⟨o, ho, rfl⟩ := List.mem_map.mp ho'
      rw [(hf o ho).sameKey_eq]
      exact h.unused (hc ▸ he) o ho
    · obtain ⟨o, ho, rfl⟩ := List.mem_map.mp ho'
      have := h.idle (hc ▸ he) o ho ((hf o ho).userId_eq ▸ hu)
      exact eq_false_of_ne_true fun ha => absurd ((hf o ho).active ha) (by simp [this])
  | insert o₀ _ =>
    have hle := h.seen_le
    have hc : operationCount r.userId (operations ++ [o₀]) =
        operationCount r.userId operations + if o₀.userId == r.userId then 1 else 0 := by
      simp [operationCount, List.countP_append, List.countP_singleton]
    have other : operationCount r.userId (operations ++ [o₀]) = seen →
        o₀.userId ≠ r.userId ∧ operationCount r.userId operations = seen := by
      intro he
      rw [hc] at he
      split at he
      · omega
      · rename_i hu
        exact ⟨fun h => hu (beq_iff_eq.mpr h), he⟩
    refine ⟨hc ▸ Nat.le_trans hle (Nat.le_add_right _ _), fun he o ho => ?_, fun he o ho hu => ?_⟩
    · obtain ⟨hne, he⟩ := other he
      rcases List.mem_append.mp ho with ho | ho
      · exact h.unused he o ho
      · rw [List.mem_singleton.mp ho]
        simp [sameKey, hne]
    · obtain ⟨hne, he⟩ := other he
      rcases List.mem_append.mp ho with ho | ho
      · exact h.idle he o ho hu
      · exact absurd (List.mem_singleton.mp ho ▸ hu) hne

theorem act_call {outcome : Outcome} (h : act E p db e = some outcome) :
    outcome.call = none ∨ ∃ o subscription planId m, p = .callPaddle o subscription planId ∧
      outcome.call = some m ∧ m.operationId = o.id ∧ m.userId = o.userId ∧
      m.idempotencyKeyHash = o.idempotencyKeyHash ∧ outcome.db = db := by
  cases p with
  | callPaddle o subscription planId =>
    cases h
    exact .inr ⟨o, subscription, planId, _, rfl, rfl, rfl, rfl, rfl, rfl⟩
  | insert r planId subscription seen =>
    simp only [act] at h
    split at h <;> cases h <;> exact .inl rfl
  | record result o =>
    cases h
    simp only [recordStep]
    split <;> exact .inl rfl
  | respond => cases h
  | request | returnExisting | await | recoverOperations | recover | resolve | other =>
    cases h
    exact .inl rfl

theorem move_step (hI : Inv E s) (h : (program E).move s p e = some (s', k)) :
    Table.Step (Effect p e) (Inserted E p e s.db.operations) s.db.operations s'.db.operations := by
  obtain ⟨outcome, hmv⟩ := moved h
  rw [hmv.db]
  exact act_step hI.ids hmv.outcome

theorem issued_mono (h : (program E).move s p e = some (s', k)) {t : Uuid} (ht : t ∈ s.issued) :
    t ∈ s'.issued := by
  obtain ⟨_, hmv⟩ := moved h
  rw [hmv.issued]
  exact Fence.mem_drawn ht

theorem uuid_issued (h : (program E).move s p e = some (s', k)) (hp : p.drawsUuid = true) :
    e.uuid ∈ s'.issued := by
  obtain ⟨_, hmv⟩ := moved h
  rw [hmv.issued]
  exact Fence.mem_drawn_self hp

/-- The operation inserted: nothing of the user is open, and its request can be carried out. -/
theorem Inserted.cleared (hA : Knowledge E s p) (h : (program E).move s p e = some (s', k))
    (hn : Inserted E p e s.db.operations o) :
    (∀ o' ∈ s.db.operations, o'.userId = o.userId → o'.active = false) ∧ WellFormed E o ∧
      o.claimToken = some e.uuid ∧ p.drawsUuid = true := by
  obtain ⟨r, planId, subscription, seen, rfl, -, rfl⟩ := hn
  obtain ⟨hp, hc⟩ := hA.insert r planId subscription seen rfl
  have hseen : operationCount r.userId s.db.operations = seen := by
    obtain ⟨_, hmv⟩ := moved h
    simpa [Point.locked] using hmv.locked
  refine ⟨fun o' ho' hu => hc.idle hseen o' ho' hu, ?_, rfl, rfl⟩
  exact ⟨fun _ => Nat.zero_lt_succ 4, fun _ => ⟨_, rfl⟩, by simp [processingOperation], r, planId, hp, rfl⟩

theorem Inv.move (hI : Inv E s) (hA : Knowledge E s p) (h : (program E).move s p e = some (s', k)) :
    Inv E s' := by
  have hs := move_step hI h
  obtain ⟨outcome, hmv⟩ := moved h
  have ids : (s'.db.operations.map (·.id)).Nodup :=
    hs.nodup (fun _ _ => Effect.id_eq) (fun _ => Inserted.id_not_mem) hI.ids
  refine ⟨ids, ?_, ?_, ?_, ?_, ?_, ?_⟩
  · exact hs.nodup (fun _ _ he => by rw [he.userId_eq, he.hash_eq]) (fun _ => Inserted.key_not_mem) hI.keys
  · intro o ho o' ho' hu ha ha'
    refine List.inj_on_of_nodup_map ids ho ho' ?_
    rcases hs.origin (fun _ => .keep) ho with ⟨o₁, ho₁, he⟩ | hn <;>
      rcases hs.origin (fun _ => .keep) ho' with ⟨o₁', ho₁', he'⟩ | hn'
    · have hu₁ : o₁.userId = o₁'.userId := by rw [← he.userId_eq, hu, he'.userId_eq]
      have hsame : o₁ = o₁' := hI.oneActive o₁ ho₁ o₁' ho₁' hu₁ (he.active ha) (he'.active ha')
      calc o.id = o₁.id := he.id_eq
        _ = o₁'.id := by rw [hsame]
        _ = o'.id := he'.id_eq.symm
    · have hidle : o₁.active = false := (hn'.cleared hA h).1 o₁ ho₁ (he.userId_eq.symm.trans hu)
      rw [he.active ha] at hidle
      cases hidle
    · have hidle : o₁'.active = false := (hn.cleared hA h).1 o₁' ho₁' (he'.userId_eq.symm.trans hu.symm)
      rw [he'.active ha'] at hidle
      cases hidle
    · obtain ⟨r, _, _, _, hp, -, rfl⟩ := hn
      obtain ⟨r', _, _, _, hp', -, rfl⟩ := hn'
      rfl
  · intro o ho
    rcases hs.origin (fun _ => .keep) ho with ⟨o₁, ho₁, he⟩ | hn
    · exact he.wellFormed (hI.rows o₁ ho₁)
    · exact (hn.cleared hA h).2.1
  · intro o ho
    rcases hs.origin (fun _ => .keep) ho with ⟨o₁, ho₁, he⟩ | hn
    · rcases he.token with ht | ⟨hp, ht⟩
      · obtain ⟨t, ht₁, hi⟩ := hI.issued o₁ ho₁
        exact ⟨t, ht.trans ht₁, issued_mono h hi⟩
      · exact ⟨_, ht, uuid_issued h hp⟩
    · obtain ⟨-, -, ht, hp⟩ := hn.cleared hA h
      exact ⟨_, ht, uuid_issued h hp⟩
  · intro m hmem
    have old : ∀ m ∈ s.mutations, ∃ o ∈ s'.db.operations, o.id = m.operationId ∧ o.userId = m.userId ∧
        o.idempotencyKeyHash = m.idempotencyKeyHash := by
      intro m hmem
      obtain ⟨o, ho, hid, hu, hh⟩ := hI.mutations m hmem
      obtain ⟨o', ho', he⟩ := hs.next (fun _ => .keep) ho
      exact ⟨o', ho', he.id_eq.trans hid, he.userId_eq.trans hu, he.hash_eq.trans hh⟩
    rw [hmv.mutations] at hmem
    rcases act_call hmv.outcome with hc | ⟨o, subscription, planId, m', rfl, hc, hid, hu, hh, -⟩
    · rw [hc] at hmem
      exact old m hmem
    · rw [hc] at hmem
      rcases List.mem_cons.mp hmem with rfl | hmem
      · obtain ⟨o', ho', hid', hu', hh'⟩ := (hA.call o subscription planId rfl).1.step hs
        exact ⟨o', ho', hid'.trans hid.symm, hu'.trans hu.symm, hh'.trans hh.symm⟩
      · exact old m hmem
  · rw [hmv.mutations]
    rcases act_call hmv.outcome with hc | ⟨o, subscription, planId, m', rfl, hc, hid, -⟩
    · rw [hc]
      exact hI.once
    · rw [hc]
      refine List.nodup_cons.mpr ⟨fun hmem => (hA.call o subscription planId rfl).2 ?_, hI.once⟩
      rw [← hid]
      exact hmem

/-- The step of another process leaves what a process knows true. -/
theorem Knowledge.frame (hI : Inv E s) (hA : Knowledge E s q) (hd : OnePerOperation p q)
    (h : (program E).move s p e = some (s', k)) : Knowledge E s' q where
  original id t hq := by
    obtain ⟨t', rfl, hi⟩ := hA.original id t hq
    exact ⟨t', rfl, issued_mono h hi⟩
  recovery id t hq := issued_mono h (hA.recovery id t hq)
  insert r planId subscription seen hq := by
    obtain ⟨hp, hc⟩ := hA.insert r planId subscription seen hq
    exact ⟨hp, hc.step (move_step hI h)⟩
  existing r operation hq := (hA.existing r operation hq).step (move_step hI h)
  call operation subscription planId hq := by
    obtain ⟨hk, hn⟩ := hA.call operation subscription planId hq
    refine ⟨hk.step (move_step hI h), ?_⟩
    obtain ⟨outcome, hmv⟩ := moved h
    rw [hmv.mutations]
    rcases act_call hmv.outcome with hc | ⟨o, subscription', planId', m, hp, hc, hid, -⟩
    · rw [hc]
      exact hn
    · rw [hc]
      intro hmem
      rcases List.mem_cons.mp hmem with he | hmem
      · exact hd o subscription' planId' operation subscription planId hp hq (hid.symm.trans he.symm)
      · exact hn hmem

/-- A request goes on with the operation it has in hand. -/
theorem Knowledge.goOn_original {operation : SubscriptionOperation} (hA : Knowledge E s p)
    (h : (program E).move s p e = some (s', k)) (hp : p.original = some (operation.id, operation.claimToken))
    (hq : q = .await operation ∨ ∃ result, q = .record result operation) : Knowledge E s' q := by
  have hq' : q.original = some (operation.id, operation.claimToken) ∧ q.recovery = none := by
    rcases hq with rfl | ⟨result, rfl⟩ <;> exact ⟨rfl, rfl⟩
  refine ⟨fun id t hid => ?_, fun id t hid => ?_, ?_, ?_, ?_⟩
  · obtain ⟨t', ht, hi⟩ := hA.original _ _ (hp.trans (hq'.1.symm.trans hid))
    exact ⟨t', ht, issued_mono h hi⟩
  · simp [hq'.2] at hid
  · rintro r planId subscription seen rfl
    rcases hq with hq | ⟨_, hq⟩ <;> cases hq
  · rintro r o rfl
    rcases hq with hq | ⟨_, hq⟩ <;> cases hq
  · rintro o subscription planId rfl
    rcases hq with hq | ⟨_, hq⟩ <;> cases hq

/-- A recovery goes on with the token it has drawn. -/
theorem Knowledge.of_recovery {stage : Stage} {rest : List SubscriptionOperation}
    (h : ∀ id t, (Point.recover stage rest).recovery = some (id, t) → t ∈ s.issued) :
    Knowledge E s (.recover stage rest) where
  original _ _ hp := by cases hp
  recovery := h
  insert _ _ _ _ hp := by cases hp
  existing _ _ hp := by cases hp
  call _ _ _ hp := by cases hp

theorem Knowledge.of_existing {r : SubscriptionRequest} (h : Known o s.db.operations) :
    Knowledge E s (.returnExisting r o) where
  original _ _ hp := by cases hp
  recovery _ _ hp := by cases hp
  insert _ _ _ _ hp := by cases hp
  existing _ _ hp := by cases hp; exact h
  call _ _ _ hp := by cases hp

theorem Knowledge.of_insert {r : SubscriptionRequest} {planId : Option ℤ}
    {subscription : Option Subscription} {seen : ℕ} (hp : planIdOf E r = .ok planId)
    (hc : Cleared E r seen s.db.operations) : Knowledge E s (.insert r planId subscription seen) where
  original _ _ hp := by cases hp
  recovery _ _ hp := by cases hp
  insert _ _ _ _ he := by cases he; exact ⟨hp, hc⟩
  existing _ _ hp := by cases hp
  call _ _ _ hp := by cases hp

theorem Knowledge.of_call {subscription : Option Subscription} {planId : Option ℤ} {t : Uuid}
    (ht : o.claimToken = some t) (hi : t ∈ s.issued) (hk : Known o s.db.operations)
    (hn : o.id ∉ s.mutations.map (·.operationId)) : Knowledge E s (.callPaddle o subscription planId) where
  original _ _ hp := by cases hp; exact ⟨t, ht, hi⟩
  recovery _ _ hp := by cases hp
  insert _ _ _ _ hp := by cases hp
  existing _ _ hp := by cases hp
  call _ _ _ hp := by cases hp; exact ⟨hk, hn⟩

/-! ### Where a process goes on -/

theorem recoverNext_plain (h : recoverNext operations = some q) : q.plain = true := by
  cases operations with
  | nil => cases h
  | cons o rest => cases h; rfl

/-- The token of the next stage is the one of this stage, or drawn in it. -/
theorem stage_next {stage stage' : Stage} {uuid : Uuid} {now : Time} {rest : List SubscriptionOperation}
    {remote : Option PaddleSubscriptionSnapshot} {id : ℕ} {t : Uuid}
    (h : (step E stage uuid now remote db).2 = some stage')
    (ht : (Point.recover stage' rest).recovery = some (id, t)) :
    (∃ operation, stage = .claimForRecovery operation ∧ t = uuid) ∨
      ∃ id', (Point.recover stage rest).recovery = some (id', t) := by
  cases stage with
  | claimForRecovery operation =>
    simp only [step] at h
    split at h <;> cases h
    cases ht
    exact .inl ⟨operation, rfl, rfl⟩
  | refresh operation t' =>
    obtain ⟨o, -, rfl⟩ := Option.map_eq_some_iff.mp h
    cases ht
    exact .inr ⟨operation.id, rfl⟩
  | verifyAndCompleteOperation operation t' =>
    simp only [step] at h
    split at h
    · cases h
      cases ht
      exact .inr ⟨_, rfl⟩
    · split at h
      · cases h
        cases ht
        exact .inr ⟨_, rfl⟩
      · split at h <;> cases h <;> cases ht <;> exact .inr ⟨_, rfl⟩
  | completeVerifiedOperation operation t' remote' =>
    simp only [step] at h
    split at h <;> cases h
  | rescheduleAfterFailedRead operation t' =>
    simp only [step] at h
    split at h <;> cases h

/-- Where a process goes on after a move that leaves `s'`. -/
inductive Next (E : Env) (p : Point) (e : Input) (s s' : Store) : Point → Prop
  | plain {q : Point} : q.plain = true → Next E p e s s' q
  | existing (r : SubscriptionRequest) {o : SubscriptionOperation} :
      o ∈ s'.db.operations → Next E p e s s' (.returnExisting r o)
  | insert {r : SubscriptionRequest} {planId : Option ℤ} {subscription : Option Subscription} {seen : ℕ} :
      planIdOf E r = .ok planId → Cleared E r seen s'.db.operations →
      Next E p e s s' (.insert r planId subscription seen)
  /-- It has just inserted the operation. -/
  | call {o : SubscriptionOperation} {subscription : Option Subscription} {planId : Option ℤ} :
      o ∈ s'.db.operations → o.id ∉ s.db.operations.map (·.id) → s'.mutations = s.mutations →
      o.claimToken = some e.uuid → p.drawsUuid = true → Next E p e s s' (.callPaddle o subscription planId)
  /-- It keeps the operation it has in hand, and has called Paddle for it. -/
  | goOn {o : SubscriptionOperation} {q : Point} : p.original = some (o.id, o.claimToken) →
      (q = .await o ∨ ∃ result, q = .record result o) → Next E p e s s' q
  /-- It keeps the token it recovers under, or has just drawn it. -/
  | recover {stage : Stage} {rest : List SubscriptionOperation} :
      (∀ id t, (Point.recover stage rest).recovery = some (id, t) →
        (p.drawsUuid = true ∧ t = e.uuid) ∨ ∃ id', p.recovery = some (id', t)) →
      Next E p e s s' (.recover stage rest)

theorem next_of_request {r : SubscriptionRequest} (hdb : s'.db = s.db) :
    Next E p e s s' (requestStep E r s.db e.now) := by
  cases hr : requestStep E r s.db e.now with
  | respond response => exact .plain rfl
  | returnExisting r' o =>
    obtain ⟨-, hf, -⟩ := requestStep_existing hr
    exact .existing r' (hdb ▸ List.mem_of_find?_eq_some hf)
  | insert r' planId subscription seen =>
    obtain ⟨rfl, hp, hc⟩ := requestStep_insert hr
    exact .insert hp (hdb ▸ hc)
  | _ =>
    unfold requestStep at hr
    split at hr <;> (try split at hr) <;> cases hr

theorem next_of_move (h : (program E).move s p e = some (s', some q)) : Next E p e s s' q := by
  obtain ⟨outcome, hact, hdb, hm, hk, -⟩ := moved h
  cases p with
  | request r =>
    cases hact
    have hq : q = requestStep E r s.db e.now := Option.some.inj hk
    rw [hq]
    exact next_of_request hdb
  | insert r planId subscription seen =>
    simp only [act, createProcessingOperation] at hact
    split at hact
    · cases hact
      cases hk
      exact .plain rfl
    · rename_i o ho
      split at ho <;> cases ho
      cases hact
      cases hk
      refine .call ?_ (Table.nextId_not_mem _) hm rfl rfl
      rw [hdb]
      exact List.mem_append_right _ (List.mem_singleton_self _)
  | returnExisting r o =>
    cases hact
    cases hk
    exact .plain rfl
  | callPaddle o subscription planId =>
    cases hact
    cases hk
    exact .goOn rfl (.inl rfl)
  | await o =>
    cases hact
    cases hk
    exact .goOn rfl (.inr ⟨_, rfl⟩)
  | record result o =>
    cases hact
    have again (x : ProviderError) (hk : some q = if result = .success then
        some (.record (.uncertain x) o) else none) : Next E (.record result o) e s s' q := by
      split at hk <;> cases hk
      exact .goOn rfl (.inr ⟨_, rfl⟩)
    simp only [recordStep] at hk
    split at hk
    · cases hk
      exact .plain rfl
    · exact again _ hk
    · exact again _ hk
  | respond response => cases hact
  | recoverOperations limit =>
    cases hact
    exact .plain (recoverNext_plain hk.symm)
  | recover stage rest =>
    cases hact
    dsimp only at hk
    split at hk
    · rename_i stage' hst
      cases hk
      refine .recover fun id t ht => ?_
      rcases stage_next hst ht with ⟨operation, rfl, rfl⟩ | hr
      · exact .inl ⟨rfl, rfl⟩
      · exact .inr hr
    · exact .plain (recoverNext_plain hk.symm)
  | resolve point =>
    cases hact
    obtain ⟨point', -, rfl⟩ := Option.map_eq_some_iff.mp hk.symm
    exact .plain rfl
  | other users subscriptions =>
    cases hact
    cases hk

/-! ### The outline -/

/-- Paddle was called for operations of the table only. -/
theorem Inv.not_called (hI : Inv E s) {id : ℕ} (h : id ∉ s.db.operations.map (·.id)) :
    id ∉ s.mutations.map (·.operationId) := by
  intro hmem
  obtain ⟨m, hm, rfl⟩ := List.mem_map.mp hmem
  obtain ⟨o, ho, hid, -⟩ := hI.mutations m hm
  exact h (hid ▸ List.mem_map_of_mem ho)

theorem Knowledge.next (hI : Inv E s) (hA : Knowledge E s p)
    (h : (program E).move s p e = some (s', some q)) : Knowledge E s' q := by
  cases next_of_move h with
  | plain hp => exact .of_plain hp
  | existing r ho => exact .of_existing ⟨_, ho, rfl, rfl, rfl⟩
  | insert hp hc => exact .of_insert hp hc
  | call ho hnew hm ht hd =>
    exact .of_call ht (uuid_issued h hd) ⟨_, ho, rfl, rfl, rfl⟩ (hm ▸ hI.not_called hnew)
  | goOn hp hq => exact hA.goOn_original h hp hq
  | recover ht =>
    refine .of_recovery fun id t hid => ?_
    rcases ht id t hid with ⟨hd, rfl⟩ | ⟨id', hr⟩
    · exact uuid_issued h hd
    · exact issued_mono h (hA.recovery id' t hr)

/-- A request has an operation in hand that it has just inserted, or had before it
called Paddle. -/
theorem original_next {id : ℕ} {t : Option Uuid} (h : (program E).move s p e = some (s', some q))
    (hq : q.original = some (id, t)) : id ∉ s.db.operations.map (·.id) ∨
      (p.original = some (id, t) ∧ ∀ o subscription planId, q ≠ .callPaddle o subscription planId) := by
  cases next_of_move h with
  | plain hp => simp [(Point.idle_of_plain hp).1] at hq
  | existing | insert | recover => cases hq
  | call ho hnew =>
    cases hq
    exact .inl hnew
  | goOn hp hgo =>
    rcases hgo with rfl | ⟨result, rfl⟩
    · exact .inr ⟨hp.trans hq, fun _ _ _ hn => by cases hn⟩
    · exact .inr ⟨hp.trans hq, fun _ _ _ hn => by cases hn⟩

theorem plain_of_entry (h : (program E).entry p = true) : p.plain = true := by
  cases p with
  | resolve q => rfl
  | recover stage rest => cases h
  | _ => first | rfl | cases h

theorem outline : ApartOutline (program E) (Inv E) (Knowledge E) OnePerOperation where
  symm p q h o _ _ o' _ _ hq hp := (h o' _ _ o _ _ hp hq).symm
  entry s p _ hp := .of_plain (plain_of_entry hp)
  arrive s p q _ hp _ o _ _ o' _ _ hc := by
    subst hc
    cases plain_of_entry hp
  move s p e s' k hI hA h := ⟨hI.move hA h, fun q hq => hA.next hI (hq ▸ h)⟩
  goOn s p e s' p' q _ _ hAq _ h o _ _ o' _ _ hp hq hid := by
    subst hp
    obtain ⟨r, hr, hid', -⟩ := (hAq.call o' _ _ hq).1
    rcases original_next h rfl with hn | ⟨-, hn⟩
    · rw [hid, ← hid'] at hn
      exact hn (List.mem_map_of_mem hr)
    · exact hn _ _ _ rfl
  frame s p e s' k q hI _ hAq hd h := hAq.frame hI hd h

variable {users : List ℕ} {subscriptions : List Subscription} {tr : List (Step Store Point Input)}
  {c : Config Store Point}

theorem start_holds : Holds (Inv E) (Knowledge E) (start users subscriptions) := by
  refine ⟨⟨List.nodup_nil, List.nodup_nil, ?_, ?_, ?_, ?_, List.nodup_nil⟩, ?_⟩ <;> simp [start]

theorem start_apart : Apart OnePerOperation (start users subscriptions).procs := by
  intro i j p q _ hp
  cases hp

theorem holds_of_run (h : (program E).Run (start users subscriptions) tr c) :
    Holds (Inv E) (Knowledge E) c ∧ Apart OnePerOperation c.procs :=
  outline.run start_holds start_apart h

end Billing
end Daywright
