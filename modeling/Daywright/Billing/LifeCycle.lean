/-
# The life cycle of an operation

In every run an operation goes from status to status as the table of transitions
allows and stays where it has ended; an open operation that is not under review
can be claimed by the scheduler from some time on; and once a recovery has taken
an operation over, the result of the request and of earlier recoveries change
nothing any more (`life_cycle`).

Key definitions: `Reclaims`, `Superseded`.
Key theorem: `life_cycle`.
-/
import Daywright.Billing.OneMutation

namespace Daywright
namespace Billing

open Interleave SubscriptionService RecoverSubscriptionOperation

variable {E : Env} {p q : Point} {e : Input} {o o' : SubscriptionOperation} {s s' : Store} {k : Option Point}
  {users : List ℕ} {subscriptions : List Subscription} {tr : List (Step Store Point Input)}
  {c c' : Config Store Point} {a : Act Point Input} {id : ℕ} {t : Uuid}

/-! ### Statuses -/

theorem status_step (hI : Inv E c.store) (h : (program E).step c a = some c')
    (ho : o ∈ c.store.db.operations) : ∃ o' ∈ c'.store.db.operations, o'.id = o.id ∧
      (o'.status = o.status ∨ o.status.canTransitionTo o'.status = true) ∧
      (o.status.isTerminal = true → o' = o) := by
  rcases (program E).step_store h with hs | ⟨p, e, k, -, hm⟩
  · exact ⟨o, hs ▸ ho, rfl, .inl rfl, fun _ => rfl⟩
  · obtain ⟨o', ho', he⟩ := (move_step hI hm).next (fun _ => .keep) ho
    exact ⟨o', ho', he.id_eq, he.status, he.terminal⟩

/-! ### The scheduler finds what is open -/

theorem claimable_from (h : WellFormed E o) (hn : o.status.isNonTerminal = true)
    (hr : o.status ≠ .manualReview) : ∃ T, ∀ now, T ≤ now → o.claimableAt now maxRecoveryAttempts = true := by
  have claimable {now : Time} (ha : o.attempts < 5) (hready : o.readyForRecoveryAt now = true) :
      o.claimableAt now maxRecoveryAttempts = true := by
    simp [SubscriptionOperation.claimableAt, maxRecoveryAttempts, ha, hready]
  cases hs : o.status with
  | unknown =>
    refine ⟨o.availableAt.getD 0, fun now hT => claimable (h.attempts (.inr hs)) (ready_iff.mpr (.inl ⟨hs, ?_⟩))⟩
    intro x hx
    rwa [hx] at hT
  | processing =>
    obtain ⟨x, hx⟩ := h.expires hs
    exact ⟨x, fun now hT => claimable (h.attempts (.inl hs)) (ready_iff.mpr (.inr ⟨hs, x, hx, hT⟩))⟩
  | pending => exact absurd hs h.notPending
  | manualReview => exact absurd hs hr
  | completed => rw [hs] at hn; cases hn
  | failed => rw [hs] at hn; cases hn

/-! ### Results that come too late -/

/-- The step is a recovery taking the operation over. -/
def Reclaims (st : Step Store Point Input) (id : ℕ) : Prop :=
  ∃ operation rest e, st.Fires (.recover (.claimForRecovery operation) rest) e ∧ operation.id = id ∧
    ∃ o ∈ st.pre.store.db.operations, o.id = id ∧ o.readyForRecoveryAt e.now = true

/-- The process works on the operation for its request, or as a recovery that had
drawn its token before the step. -/
def Superseded (st : Step Store Point Input) (p : Point) (id : ℕ) : Prop :=
  (∃ t, p.original = some (id, t)) ∨ ∃ t, p.recovery = some (id, t) ∧ t ∈ st.pre.store.issued

/-- The operation is not under the token. -/
def Lost (s : Store) (id : ℕ) (t : Uuid) : Prop := ∀ o ∈ s.db.operations, o.id = id → o.claimToken ≠ some t

theorem Lost.move (hI : Inv E s) (hA : Knowledge E s p) (h : (program E).move s p e = some (s', k))
    (hl : Lost s id t) (ht : t ∈ s.issued) : Lost s' id t := by
  obtain ⟨_, hmv⟩ := moved h
  intro o ho hid
  rcases (move_step hI h).origin (fun _ => .keep) ho with ⟨o₁, ho₁, he⟩ | hn
  · exact (he.change hmv.fresh).lost ht (hl o₁ ho₁ (he.id_eq.symm.trans hid))
  · obtain ⟨-, -, htok, hp⟩ := hn.cleared hA h
    rw [htok]
    rintro he
    exact hmv.fresh hp (Option.some.inj he ▸ ht)

/-- A token once lost does not come back. -/
theorem Lost.run (h₀ : (program E).Run (start users subscriptions) tr c) {tr' : List (Step Store Point Input)}
    (h : (program E).Run c tr' c') (hl : Lost c.store id t) (ht : t ∈ c.store.issued) :
    Lost c'.store id t ∧ t ∈ c'.store.issued := by
  induction h with
  | nil => exact ⟨hl, ht⟩
  | @snoc tr' c₁ c₂ a hr hs ih =>
    obtain ⟨⟨hI, hA⟩, -⟩ := holds_of_run (h₀.append _ hr)
    rcases (program E).step_store hs with hst | ⟨p, e, k, ⟨i, -, hp⟩, hm⟩
    · exact hst ▸ ih
    · exact ⟨Lost.move hI (hA p (List.mem_of_getElem? hp)) hm ih.1 ih.2, issued_mono hm ih.2⟩

/-- Taking an operation over loses every token drawn before. -/
theorem lost_of_reclaims {st : Step Store Point Input} (hI : Inv E st.pre.store)
    (hs : (program E).step st.pre st.act = some st.post) (h : Reclaims st id) (ht : t ∈ st.pre.store.issued) :
    Lost st.post.store id t := by
  obtain ⟨operation, rest, e, ⟨i, hact, hp⟩, rfl, o₀, ho₀, hid₀, hready⟩ := h
  rw [hact] at hs
  obtain ⟨k, hm⟩ := (program E).move_of_step hp hs
  obtain ⟨outcome, hmv⟩ := moved hm
  cases hmv.outcome
  intro o ho hid he
  rw [hmv.db] at ho
  obtain ⟨o₁, ho₁, rfl⟩ := Table.mem_updateWhere.mp ho
  have hid₁ : o₁.id = operation.id := by
    split at hid <;> exact hid
  cases List.inj_on_of_nodup_map hI.ids ho₁ ho₀ (hid₁.trans hid₀.symm)
  have hr : ready operation e.now o₀ = true := by simp [ready, hid₀, hready]
  rw [if_pos hr] at he
  exact hmv.fresh rfl (Option.some.inj he ▸ ht)

/-- The request an operation came from drew its token before it was first seen. -/
theorem original_issued (h₀ : (program E).Run (start users subscriptions) tr c)
    {tr' : List (Step Store Point Input)} (h : (program E).Run c tr' c')
    (hid : ∃ o ∈ c.store.db.operations, o.id = id) :
    (∃ o ∈ c'.store.db.operations, o.id = id) ∧
      ∀ q ∈ c'.procs, ∀ t, q.original = some (id, some t) → t ∈ c.store.issued := by
  induction h with
  | nil =>
    refine ⟨hid, fun q hq t hqt => ?_⟩
    obtain ⟨t', ht, hi⟩ := ((holds_of_run h₀).1.2 q hq).original _ _ hqt
    exact Option.some.inj ht ▸ hi
  | @snoc tr' c₁ c₂ a hr hs ih =>
    obtain ⟨⟨hI, hA⟩, -⟩ := holds_of_run (h₀.append _ hr)
    obtain ⟨⟨o, ho, rfl⟩, ih⟩ := ih
    refine ⟨?_, ?_⟩
    · obtain ⟨o', ho', hid', -⟩ := status_step hI hs ho
      exact ⟨o', ho', hid'⟩
    rcases (program E).step_cases hs with ⟨p, rfl, hp, rfl⟩ | ⟨i, rfl, rfl⟩ | ⟨i, e, p, s, k, rfl, hp, hm, rfl, hk⟩
    · intro q hq t hqt
      rcases List.mem_append.mp hq with hq | hq
      · exact ih q hq t hqt
      · rw [List.mem_singleton.mp hq] at hqt
        simp [(Point.idle_of_plain (plain_of_entry hp)).1] at hqt
    · exact fun q hq t hqt => ih q (List.mem_of_mem_eraseIdx hq) t hqt
    · intro q hq t hqt
      rcases hk q hq with hq | rfl
      · exact ih q hq t hqt
      · rcases original_next hm hqt with hnew | hold
        · exact absurd (List.mem_map_of_mem ho) hnew
        · exact ih p (List.mem_of_getElem? hp) t hold.1

/-- A process whose token the operation has lost does not change it. -/
theorem Effect.eq_of_lost (h : Effect p e o o') (hl : o.claimToken ≠ some t)
    (hp : p.original = some (o.id, some t) ∨ p.recovery = some (o.id, t)) : o' = o := by
  cases h with
  | keep => rfl
  | recorded result operation hpe hc =>
    subst hpe
    rcases hp with hp | hp
    · have htok : operation.claimToken = some t := congrArg Prod.snd (Option.some.inj hp)
      exact absurd ((claimed_iff.mp hc).2.1.trans htok) hl
    · cases hp
  | claimed operation rest hpe => subst hpe; rcases hp with hp | hp <;> cases hp
  | finished t' hpe hu =>
    rcases hp with hp | hp
    · cases p <;> first | cases hp | cases hpe
    · rw [hp] at hpe
      cases hpe
      exact absurd (unexpired_iff.mp hu).2.1 hl
  | resolved q hpe => subst hpe; rcases hp with hp | hp <;> cases hp

theorem fenced (h : (program E).Run (start users subscriptions) tr c) {st : Step Store Point Input}
    (hst : st ∈ tr) (hr : Reclaims st id) (hp : p ∈ c.procs) (hs : Superseded st p id)
    (hm : (program E).move c.store p e = some (s', k)) (ho : o ∈ c.store.db.operations) (hid : o.id = id) :
    o ∈ s'.db.operations := by
  obtain ⟨tr₁, tr₂, -, h₁, hstep, h₂⟩ := h.of_mem _ hst
  have hpre := holds_of_run h₁
  have hrow : ∃ o ∈ st.pre.store.db.operations, o.id = id := by
    obtain ⟨_, _, _, _, _, o₀, ho₀, hid₀, -⟩ := hr
    exact ⟨o₀, ho₀, hid₀⟩
  have hrun : (program E).Run st.pre ([⟨st.pre, st.act, st.post⟩] ++ tr₂) c :=
    ((program E).run_single hstep).append _ h₂
  have hc := holds_of_run h
  -- The token of the process was drawn before the operation was taken over.
  obtain ⟨t, ht, hpt⟩ : ∃ t, t ∈ st.pre.store.issued ∧
      (p.original = some (id, some t) ∨ p.recovery = some (id, t)) := by
    rcases hs with ⟨t, hs⟩ | ⟨t, hs, ht⟩
    · obtain ⟨t', rfl, -⟩ := (hc.1.2 p hp).original _ _ hs
      exact ⟨t', (original_issued h₁ hrun hrow).2 p hp t' hs, .inl hs⟩
    · exact ⟨t, ht, .inr hs⟩
  have hlost := lost_of_reclaims hpre.1.1 hstep hr ht
  have hpost : (program E).Run (start users subscriptions) (tr₁ ++ [⟨st.pre, st.act, st.post⟩]) st.post :=
    .snoc st.act h₁ hstep
  have hissued : t ∈ st.post.store.issued := by
    rcases (program E).step_store hstep with he | ⟨p', e', k', -, hm'⟩
    · exact he ▸ ht
    · exact issued_mono hm' ht
  have hl := (Lost.run hpost h₂ hlost hissued).1
  obtain ⟨o', ho', he⟩ := (move_step hc.1.1 hm).next (fun _ => .keep) ho
  rw [he.eq_of_lost (hl o ho hid) (hid ▸ hpt)] at ho'
  exact ho'

/-- **The life cycle of an operation**: in every run operations go on as the table of
transitions allows and stay where they ended; what is open and not under review
has attempts left, expires if it is being processed, and can be claimed from some
time on; and once taken over, an operation is closed to all that had it before. -/
theorem life_cycle (h : (program E).Run (start users subscriptions) tr c) :
    (∀ a c', (program E).step c a = some c' → ∀ o ∈ c.store.db.operations,
      ∃ o' ∈ c'.store.db.operations, o'.id = o.id ∧
        (o'.status = o.status ∨ o.status.canTransitionTo o'.status = true) ∧
        (o.status.isTerminal = true → o' = o)) ∧
    (∀ o ∈ c.store.db.operations, (o.status = .processing ∨ o.status = .unknown →
        o.attempts < maxRecoveryAttempts) ∧
      (o.status = .processing → ∃ x, o.claimExpiresAt = some x) ∧
      (o.status.isNonTerminal = true → o.status ≠ .manualReview →
        ∃ T, ∀ now, T ≤ now → o.claimableAt now maxRecoveryAttempts = true)) ∧
    (∀ st ∈ tr, ∀ id, Reclaims st id → ∀ p ∈ c.procs, Superseded st p id →
      ∀ e s' k, (program E).move c.store p e = some (s', k) →
        ∀ o ∈ c.store.db.operations, o.id = id → o ∈ s'.db.operations) := by
  obtain ⟨⟨hI, -⟩, -⟩ := holds_of_run h
  refine ⟨fun _ _ hs _ ho => status_step hI hs ho, fun o ho => ?_, ?_⟩
  · have hw := hI.rows o ho
    exact ⟨hw.attempts, hw.expires, claimable_from hw⟩
  · intro st hst id hr p hp hs e s' k hm o ho hid
    exact fenced h hst hr hp hs hm ho hid

/-! ### A success that comes after the lease -/

namespace Sample

/-- Paddle answers after the lease of five minutes, when a recovery has taken the
operation over. -/
def lateSuccess : List (Act Point Input) :=
  [.arrive (.request request), .move 0 (input 1000 "" .success none),
    .move 0 (input 1000 "first" .success none), .move 0 (input 1000 "" .success none),
    .arrive (.recoverOperations 10), .move 1 (input 361000 "" .success none),
    .move 1 (input 361000 "second" .success none), .move 0 (input 362000 "" .success none)]

def takesOver (id : ℕ) (st : Step Store Point Input) : Bool :=
  match st.act, st.mover with
  | .move _ e, some (.recover (.claimForRecovery operation) _) =>
    operation.id == id && st.pre.store.db.operations.any fun o => o.id == id && o.readyForRecoveryAt e.now
  | _, _ => false

theorem reclaims_of_takesOver {st : Step Store Point Input} (h : takesOver id st = true) : Reclaims st id := by
  unfold takesOver at h
  split at h
  · rename_i i e operation rest ha hp
    obtain ⟨e', j, hj, hp'⟩ := Step.fires_of_mover hp
    obtain ⟨rfl, rfl⟩ : i = j ∧ e = e' := by simpa using ha.symm.trans hj
    simp only [Bool.and_eq_true, List.any_eq_true, beq_iff_eq] at h
    obtain ⟨hid, o, ho, ho', hr⟩ := h
    exact ⟨operation, rest, e, ⟨i, hj, hp'⟩, hid, o, ho, ho', hr⟩
  · cases h

/-- A request about to record that Paddle has done what it asked. -/
def succeeds (id : ℕ) : Point → Bool
  | .record .success operation => operation.id == id
  | _ => false

end Sample

/-- The recovery has the operation; the success that arrives now leaves it as it is. -/
theorem life_cycle_lateSuccess : ∃ tr c, (program Sample.env).Run Sample.begin tr c ∧
    ∃ o ∈ c.store.db.operations, o.status = .processing ∧ o.attempts < RecoverSubscriptionOperation.maxRecoveryAttempts ∧
      ∃ operation, Point.record .success operation ∈ c.procs ∧ operation.id = o.id ∧
        ∀ e s' k, (program Sample.env).move c.store (.record .success operation) e = some (s', k) →
          o ∈ s'.db.operations := by
  obtain ⟨tr, c, h, hc⟩ := (program Sample.env).exists_run_of_replay Sample.lateSuccess (c := Sample.begin)
    (q := fun tr c => tr.any (Sample.takesOver 1) && c.procs.any (Sample.succeeds 1) &&
      c.store.db.operations.any fun o => o.id == 1 && o.status == .processing)
    (by decide)
  simp only [Bool.and_eq_true, List.any_eq_true, beq_iff_eq] at hc
  obtain ⟨⟨⟨st, hst, hr⟩, p, hp, hs⟩, o, ho, hid, hstatus⟩ := hc
  obtain ⟨-, hrows, hfenced⟩ := life_cycle h
  refine ⟨tr, c, h, o, ho, hstatus, (hrows o ho).1 (.inl hstatus), ?_⟩
  unfold Sample.succeeds at hs
  split at hs
  · rename_i operation
    have hop : operation.id = 1 := by simpa using hs
    refine ⟨operation, hp, hop.trans hid.symm, fun e s' k hm => ?_⟩
    exact hfenced st hst 1 (Sample.reclaims_of_takesOver hr) _ hp
      (.inl ⟨_, congrArg (fun i => some (i, operation.claimToken)) hop⟩) e s' k hm o ho hid
  · cases hs

end Billing
end Daywright
