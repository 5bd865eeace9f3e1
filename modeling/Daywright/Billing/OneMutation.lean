/-
# One billing mutation at a time

In every run a user has at most one open operation, and Paddle is called at most
once for an operation, so at most once for a user and an idempotency key; only a
request calls it. A request that comes again gets the operation it created, and
one that reuses a key for something else is turned away (`one_mutation`).

The digest is a parameter: two texts are told apart if their digests do not
collide (`NoCollision`).

Key definitions: `NoCollision`, `Replay`.
Key theorem: `one_mutation`.
-/
import Daywright.Billing.Outline

namespace Daywright
namespace Billing

open Interleave SubscriptionService RecoverSubscriptionOperation

variable {E : Env} {p : Point} {e : Input} {o o' : SubscriptionOperation} {r r' : SubscriptionRequest}
  {s s' : Store} {k : Option Point} {users : List ℕ} {subscriptions : List Subscription}
  {tr : List (Step Store Point Input)} {c c' : Config Store Point} {a : Act Point Input}

/-! ### Calls of Paddle -/

theorem mutations_per_key (hI : Inv E s) (userId : ℕ) (hash : String) :
    s.mutations.countP (fun m => m.userId == userId && m.idempotencyKeyHash == hash) ≤ 1 := by
  refine Table.countP_le_one hI.once fun m hm m' hm' hp hp' => ?_
  simp only [Bool.and_eq_true, beq_iff_eq] at hp hp'
  obtain ⟨o, ho, hid, hu, hh⟩ := hI.mutations m hm
  obtain ⟨o', ho', hid', hu', hh'⟩ := hI.mutations m' hm'
  have hkey : (o.userId, o.idempotencyKeyHash) = (o'.userId, o'.idempotencyKeyHash) := by
    rw [hu, hh, hu', hh', hp.1, hp.2, hp'.1, hp'.2]
  have hsame : o = o' := List.inj_on_of_nodup_map hI.keys ho ho' hkey
  rw [← hid, ← hid', hsame]

/-- Only a request calls Paddle, for the operation it has in hand. -/
theorem mutations_step (h : (program E).step c a = some c') : c'.store.mutations = c.store.mutations ∨
    ∃ o subscription planId e m, (⟨c, a, c'⟩ : Step Store Point Input).Fires (.callPaddle o subscription planId) e ∧
      c'.store.mutations = m :: c.store.mutations ∧ m.operationId = o.id := by
  rcases (program E).step_store h with hs | ⟨p, e, k, hf, hm⟩
  · exact .inl (by rw [hs])
  · obtain ⟨outcome, hmv⟩ := moved hm
    rcases act_call hmv.outcome with hc | ⟨o, subscription, planId, m, rfl, hc, hid, -⟩
    · exact .inl (by rw [hmv.mutations, hc]; rfl)
    · exact .inr ⟨o, subscription, planId, e, m, hf, by rw [hmv.mutations, hc]; rfl, hid⟩

/-! ### Requests that come again -/

/-- The digest tells two texts apart. -/
def NoCollision (E : Env) (a b : String) : Prop := E.sha256 a = E.sha256 b → a = b

theorem fingerprintText_inj {userId : ℕ} {t t' : SubscriptionOperationType} {plan plan' : String}
    (h : fingerprintText userId t plan = fingerprintText userId t' plan') : t = t' ∧ plan = plan' := by
  have hl := congrArg String.toList h
  simp only [fingerprintText, String.toList_append, List.append_assoc, List.append_cancel_left_eq] at hl
  cases t <;> cases t' <;> simp [SubscriptionOperationType.value] at hl
  · exact ⟨rfl, String.toList_inj.mp hl⟩
  · exact ⟨rfl, String.toList_inj.mp hl⟩

theorem planIdOf_congr (ht : r.type = r'.type) (hp : r.plan = r'.plan) : planIdOf E r = planIdOf E r' := by
  unfold planIdOf
  rw [ht, hp]

theorem find_sameKey (hI : Inv E s) (ho : o ∈ s.db.operations) (hk : sameKey E r o = true) :
    s.db.operations.find? (sameKey E r) = some o := by
  refine Table.find?_of_key hI.keys (fun o' _ hk' => ?_) ho hk
  simp only [sameKey, Bool.and_eq_true, beq_iff_eq] at hk hk'
  rw [hk.1, hk.2, hk'.1, hk'.2]

theorem move_request : (program E).move s (.request r) e = some (s, some (requestStep E r s.db e.now)) := by
  simp [program, Point.locked, Point.drawsUuid, act, Outcome.goOn]

/-- The same request again. -/
theorem requestStep_same (hI : Inv E s) (hu : r.userId ∈ s.db.users) (ho : o ∈ s.db.operations)
    (hk : sameKey E r o = true) (ht : o.type = r.type) (hp : o.targetPlan = some r.plan) (now : Time) :
    requestStep E r s.db now = .returnExisting r o := by
  obtain ⟨r₀, planId, hplan, hid⟩ := (hI.rows o ho).requested
  simp only [identity, Prod.mk.injEq, true_and] at hid
  obtain ⟨hu₀, ht₀, hp₀, -, hf₀⟩ := hid
  have htype : r.type = r₀.type := ht.symm.trans ht₀
  have hplan' : r.plan = r₀.plan := Option.some.inj (hp.symm.trans hp₀)
  have huser : o.userId = r.userId := by
    simp only [sameKey, Bool.and_eq_true, beq_iff_eq] at hk
    exact hk.1
  have hfp : o.requestFingerprint = fingerprint E r := by
    rw [hf₀, fingerprint, fingerprint, ← huser, hu₀, htype, hplan']
  have hl : lookUp E r s.db now = .ok (.existing o) := by
    simp [lookUp, findExistingOperation, find_sameKey hI ho hk, hfp, hu, bind, Except.bind, pure, Except.pure]
  simp [requestStep, planIdOf_congr htype hplan', hplan, hl]

/-- The key again, for something else. -/
theorem requestStep_other (hI : Inv E s) (hu : r.userId ∈ s.db.users) (ho : o ∈ s.db.operations)
    (hk : sameKey E r o = true) (hne : o.type ≠ r.type ∨ o.targetPlan ≠ some r.plan)
    (hc : NoCollision E (fingerprintText o.userId o.type (o.targetPlan.getD ""))
      (fingerprintText r.userId r.type r.plan)) (now : Time) :
    ∃ x, requestStep E r s.db now = .respond (.throws x) ∧
      (∀ planId, planIdOf E r = .ok planId → x = .idempotencyMismatch) := by
  obtain ⟨r₀, planId, -, hid⟩ := (hI.rows o ho).requested
  simp only [identity, Prod.mk.injEq, true_and] at hid
  obtain ⟨hu₀, ht₀, hp₀, -, hf₀⟩ := hid
  have huser : o.userId = r.userId := by
    simp only [sameKey, Bool.and_eq_true, beq_iff_eq] at hk
    exact hk.1
  have hfp : o.requestFingerprint ≠ fingerprint E r := by
    intro he
    rw [hf₀, fingerprint, fingerprint] at he
    rw [huser, ht₀, hp₀, Option.getD_some] at hc
    rw [← hu₀, huser] at he
    obtain ⟨ht, hp⟩ := fingerprintText_inj (hc he)
    rcases hne with hne | hne
    · exact hne (ht₀.trans ht)
    · exact hne (hp₀.trans (congrArg some hp))
  unfold requestStep
  split
  · rename_i x hx
    refine ⟨x, rfl, fun planId hp => ?_⟩
    rw [hx] at hp
    cases hp
  · have hl : lookUp E r s.db now = .error .idempotencyMismatch := by
      simp [lookUp, findExistingOperation, find_sameKey hI ho hk, hfp, hu, bind, Except.bind]
    rw [hl]
    exact ⟨_, rfl, fun _ _ => rfl⟩

/-- A request under a key its user has used: it changes nothing, and gets the operation
or is turned away. -/
structure Replay (E : Env) (s : Store) (r : SubscriptionRequest) (o : SubscriptionOperation) (e : Input) :
    Prop where
  same : o.type = r.type → o.targetPlan = some r.plan →
    (program E).move s (.request r) e = some (s, some (.returnExisting r o))
  other : o.type ≠ r.type ∨ o.targetPlan ≠ some r.plan →
    NoCollision E (fingerprintText o.userId o.type (o.targetPlan.getD "")) (fingerprintText r.userId r.type r.plan) →
    ∃ x, (program E).move s (.request r) e = some (s, some (.respond (.throws x))) ∧
      ∀ planId, planIdOf E r = .ok planId → x = .idempotencyMismatch

theorem replay (hI : Inv E s) (hu : r.userId ∈ s.db.users) (ho : o ∈ s.db.operations)
    (hk : sameKey E r o = true) : Replay E s r o e where
  same ht hp := by rw [move_request, requestStep_same hI hu ho hk ht hp]
  other hne hc := by
    obtain ⟨x, hx, hm⟩ := requestStep_other hI hu ho hk hne hc e.now
    exact ⟨x, by rw [move_request, hx], hm⟩

theorem fresh_known {operations : List SubscriptionOperation} (h : Known o operations) :
    ∃ o', fresh o operations = some o' ∧ o' ∈ operations ∧ o'.id = o.id := by
  obtain ⟨o₁, ho₁, hid, -⟩ := h
  cases hf : fresh o operations with
  | none => exact absurd (beq_iff_eq.mpr hid) (List.find?_eq_none.mp hf o₁ ho₁)
  | some o' => exact ⟨o', rfl, fresh_some hf⟩

/-- **One billing mutation at a time**: in every run a user has at most one open
operation, Paddle is called once at most for an operation and for a user's key,
only by requests, and a key used again leads to its operation or to a rejection. -/
theorem one_mutation (h : (program E).Run (start users subscriptions) tr c) :
    (∀ o ∈ c.store.db.operations, ∀ o' ∈ c.store.db.operations, o.userId = o'.userId →
      o.status.isNonTerminal = true → o'.status.isNonTerminal = true → o = o') ∧
    (∀ id, c.store.mutations.countP (·.operationId == id) ≤ 1) ∧
    (∀ userId key, c.store.mutations.countP
      (fun m => m.userId == userId && m.idempotencyKeyHash == E.sha256 key) ≤ 1) ∧
    (∀ a c', (program E).step c a = some c' → c'.store.mutations = c.store.mutations ∨
      ∃ o subscription planId e m, (⟨c, a, c'⟩ : Step Store Point Input).Fires (.callPaddle o subscription planId) e ∧
        c'.store.mutations = m :: c.store.mutations ∧ m.operationId = o.id) ∧
    (∀ r, r.userId ∈ c.store.db.users → ∀ o ∈ c.store.db.operations, sameKey E r o = true →
      ∀ e, Replay E c.store r o e) ∧
    (∀ r o e, .returnExisting r o ∈ c.procs → ∃ o' ∈ c.store.db.operations, o'.id = o.id ∧
      (program E).move c.store (.returnExisting r o) e =
        some (c.store, some (.respond (.result (some o') (getMessageForStatus o.status r.type r.plan))))) := by
  obtain ⟨⟨hI, hA⟩, -⟩ := holds_of_run h
  refine ⟨fun o ho o' ho' hu ha ha' => ?_, fun id => ?_, fun userId key => mutations_per_key hI userId _,
    fun _ _ hs => mutations_step hs, fun r hu o ho hk e => replay hI hu ho hk, fun r o e hp => ?_⟩
  · exact hI.oneActive o ho o' ho' hu (active_eq.trans ha) (active_eq.trans ha')
  · refine Table.countP_le_one hI.once fun m _ m' _ hm hm' => ?_
    exact (beq_iff_eq.mp hm).trans (beq_iff_eq.mp hm').symm
  · obtain ⟨o', hf, ho', hid⟩ := fresh_known ((hA _ hp).existing r o rfl)
    refine ⟨o', ho', hid, ?_⟩
    simp [program, Point.locked, Point.drawsUuid, act, Outcome.goOn, returnExistingOperation, hf]

/-! ### A swap whose answer is lost -/

namespace Sample

/-- Two plans, and the digests of the texts below. -/
def env : Env where
  plan p := if p = "monthly" then .str "101" else if p = "yearly" then .str "202" else .null
  subscriptionName := "DayWright"
  sha256 s :=
    if s = "key-1" then "be2974546978e3739e6d6da85c4be9f334ce32df2b9fd4b6ff1b55c0d57e9d44"
    else if s = "7:swap:yearly" then "1f180fd5a19754c08a8995b65c2632c58e6bb0a9c46fc34f513d3fbf9b121b51"
    else s
  onTrial s now := s.trialEndsAt.any (now < ·)
  paused s := s.paddleStatus == "paused"
  onPausedGracePeriod s now := s.pausedFrom.any (now < ·)
  recurring s _ := s.endsAt.isNone
  sameNumber n s := some n == Php.numeric (.str s)
  asDateTime s := if s = "2026-02-01" then some 1769904000000 else none

def subscription : Subscription := ⟨3, HasSubscription.userMorphClass, 7, "DayWright", 5501, "active", 101, none, none, none⟩

def begin : Config Store Point := start [7] [subscription]

def request : SubscriptionRequest := ⟨7, .swap, "yearly", "key-1"⟩

def input (now : Time) (uuid : Uuid) (result : ProviderResult) (remote : Option PaddleSubscriptionSnapshot) :
    Input :=
  ⟨now, uuid, "op-1", result, .done, remote, []⟩

/-- The request calls Paddle, and does not learn what became of it. -/
def lost : List (Act Point Input) :=
  [.arrive (.request request), .move 0 (input 1000 "" .success none),
    .move 0 (input 1000 "first" .success none), .move 0 (input 1000 "" .success none),
    .move 0 (input 9000 "" (.uncertain ⟨"ConnectionException", "0"⟩) none),
    .move 0 (input 9000 "" .success none)]

end Sample

/-- The request comes again while its operation is open: it gets the operation, and
Paddle has been called once. -/
theorem one_mutation_lost : ∃ tr c o, (program Sample.env).Run Sample.begin tr c ∧
    o ∈ c.store.db.operations ∧ o.status = .unknown ∧
    c.store.mutations.countP (·.operationId == o.id) ≤ 1 ∧
    ∀ e, (program Sample.env).move c.store (.request Sample.request) e =
      some (c.store, some (.returnExisting Sample.request o)) := by
  obtain ⟨tr, c, h, hc⟩ := (program Sample.env).exists_run_of_replay Sample.lost (c := Sample.begin)
    (q := fun _ c => c.store.db.users.contains 7 && c.store.db.operations.any fun o =>
      o.status == .unknown && sameKey Sample.env Sample.request o && o.type == .swap &&
        o.targetPlan == some "yearly")
    (by decide)
  simp only [Bool.and_eq_true, List.any_eq_true, beq_iff_eq, List.contains_iff_mem] at hc
  obtain ⟨hu, o, ho, ⟨⟨hs, hk⟩, ht⟩, hp⟩ := hc
  obtain ⟨-, hone, -, -, hreplay, -⟩ := one_mutation h
  exact ⟨tr, c, o, h, ho, hs, hone o.id, fun e => (hreplay Sample.request hu o ho hk e).same ht hp⟩

end Billing
end Daywright
