/-
# What every step of the inbox preserves

`Effect` says once what a step can do to a row: nothing, claim it, complete it,
give it back or close it, each under its own condition; besides, `accept` inserts
rows. From it follow the invariant of the table (`Inv`), and what a worker knows
of the row it has claimed (`Knowledge`): under its token the row is as the worker
read it, and until its claim expires the row is under its token. Workers are
apart by their tokens.

Key definitions: `Effect`, `WebhookInbox.WellFormed`, `Inv`, `Knowledge`.
Key theorems: `act_step`, `outline`, `holds_of_run`.
-/
import Daywright.Inbox.Service
import Daywright.Fence

namespace Daywright
namespace Inbox

open Interleave ZoomWebhookInboxService

/-! ### The effect of a step on a row -/

inductive Effect (p : Point) (e : Input) (r : WebhookInbox) : WebhookInbox → Prop
  | keep : Effect p e r r
  | claimed : p = .process r.id → r.claimableAt e.now maxAttempts = true →
      Effect p e r (claim e.uuid e.now r)
  | completed (claimToken : Uuid) (claimed : WebhookInbox) :
      p = .completeActiveClaim r.id claimToken claimed →
      r.unexpiredClaimOwnedBy claimToken e.now = true → Effect p e r (complete e.now r)
  | gaveBack (claimToken : Uuid) (attempts : ℕ) (exception : Failure) (retry : Option Time) :
      p = .recordProcessingFailure r.id claimToken attempts exception →
      r.unexpiredClaimOwnedBy claimToken e.now = true → retryAt attempts e.now = some retry →
      Effect p e r (giveBack attempts retry e.now exception r)
  | closed (limit : ℕ) : p = .dispatchRecoverable limit → exhausted e.now r = true →
      Effect p e r (close e.now r)

/-- The row `accept` inserts. -/
def Inserted (p : Point) (e : Input) (rows : List WebhookInbox) (r : WebhookInbox) : Prop :=
  ∃ d, p = .accept d ∧ rows.find? (sameEvent d) = none ∧ r = newInbox (Table.nextId (rows.map (·.id))) d e.now

variable {p q : Point} {e : Input} {r r' : WebhookInbox} {rows : List WebhookInbox} {s s' : Store}
  {k : Option Point}

theorem effect_complete {id : ℕ} {claimToken : Uuid} {claimed : WebhookInbox}
    (hp : p = .completeActiveClaim id claimToken claimed) :
    Table.Step (Effect p e) (Inserted p e rows) rows (completeActiveClaim id claimToken e.now rows) := by
  refine .updateWhere (fun _ => .keep) fun r _ hr => ?_
  simp only [owned, Bool.and_eq_true, beq_iff_eq] at hr
  exact .completed claimToken claimed (hr.1 ▸ hp) hr.2

theorem act_step : Table.Step (Effect p e) (Inserted p e rows) rows (act p rows e).rows := by
  have keep : Table.Step (Effect p e) (Inserted p e rows) rows rows := .keep fun _ => .keep
  cases p with
  | accept d =>
    simp only [act, createOrFirst]
    split
    · exact keep
    · rename_i hd
      exact .insert _ ⟨d, rfl, hd, rfl⟩
  | checkRecoverable id created =>
    simp only [act]
    split <;> exact keep
  | dispatchProcessingJob ids =>
    cases ids with
    | nil => exact keep
    | cons id ids =>
      simp only [act]
      split <;> exact keep
  | process id =>
    have h : Table.Step (Effect (.process id) e) (Inserted (.process id) e rows) rows
        (claimForProcessing id e.uuid e.now rows).1 := by
      refine .updateWhere (fun _ => .keep) fun r _ hr => ?_
      simp only [claimable, Bool.and_eq_true, beq_iff_eq] at hr
      exact .claimed (by rw [hr.1]) hr.2
    simp only [act]
    split <;> exact h
  | readClaimed id claimToken claimedAt => exact keep
  | execute id claimToken claimed =>
    simp only [act]
    split <;> exact keep
  | completeActiveClaim id claimToken claimed =>
    simp only [act]
    split
    · exact effect_complete rfl
    · exact keep
    · exact effect_complete rfl
  | recordProcessingFailure id claimToken attempts exception =>
    simp only [act, recordProcessingFailure]
    cases hr : retryAt attempts e.now with
    | none => exact keep
    | some retry =>
      refine .updateWhere (fun _ => .keep) fun r _ ho => ?_
      simp only [owned, Bool.and_eq_true, beq_iff_eq] at ho
      exact .gaveBack claimToken attempts exception retry (by rw [ho.1]) ho.2 hr
  | dispatchRecoverable limit => exact .updateWhere (fun _ => .keep) fun r _ hr => .closed limit rfl hr
  | selectRecoverable now limit => exact keep

theorem move_step (h : program.move s p e = some (s', k)) :
    Table.Step (Effect p e) (Inserted p e s.rows) s.rows s'.rows := by
  rw [(moved h).rows]
  exact act_step

theorem Effect.id_eq (h : Effect p e r r') : r'.id = r.id := by cases h <;> rfl

theorem Effect.event_eq (h : Effect p e r r') : (r'.provider, r'.eventKey) = (r.provider, r.eventKey) := by
  cases h <;> rfl

/-- A row is a register under its claim token. -/
def register (r : WebhookInbox) : Fence.Register Uuid WebhookInbox := ⟨r.claimToken, r⟩

theorem Effect.change {issued : List Uuid} (h : Effect p e r r')
    (hf : p.drawsUuid = true → e.uuid ∉ issued) : Fence.Change issued (register r) (register r') := by
  cases h with
  | keep => exact .keep _
  | claimed hp => exact .grant _ _ (hf (by rw [hp]; rfl))
  | completed => exact .release _ _
  | gaveBack => exact .release _ _
  | closed => exact .release _ _

theorem unexpired_iff {claimToken : Uuid} {at' : Time} :
    r.unexpiredClaimOwnedBy claimToken at' = true ↔
      r.state = .processing ∧ r.claimToken = some claimToken ∧
        ∃ x, r.claimExpiresAt = some x ∧ at' < x := by
  simp [WebhookInbox.unexpiredClaimOwnedBy, Option.any_eq_true, and_assoc]

theorem expired_iff {at' : Time} : r.processingWithExpiredClaimAt at' = true ↔
    r.state = .processing ∧ ∃ x, r.claimExpiresAt = some x ∧ x ≤ at' := by
  simp [WebhookInbox.processingWithExpiredClaimAt, Option.any_eq_true]

theorem claimable_iff {at' : Time} {n : ℕ} : r.claimableAt at' n = true ↔
    r.attempts < n ∧ ((r.state = .received ∧ ∀ x, r.availableAt = some x → x ≤ at') ∨
      r.processingWithExpiredClaimAt at' = true) := by
  cases h : r.availableAt <;> simp [WebhookInbox.claimableAt, h]

/-! ### The rows -/

end Inbox

/-- What holds of a row at any time. -/
structure WebhookInbox.WellFormed (r : WebhookInbox) : Prop where
  received : r.state = .received → r.attempts < 5
  processing : r.state = .processing → 1 ≤ r.attempts ∧ (∃ t, r.claimToken = some t) ∧
    ∃ x, r.claimExpiresAt = some x
  token : r.claimToken ≠ none → r.state = .processing
  bounded : r.attempts ≤ 5

namespace Inbox

open Interleave ZoomWebhookInboxService

variable {p q : Point} {e : Input} {r r' : WebhookInbox} {rows : List WebhookInbox} {s s' : Store}
  {k : Option Point}

theorem newInbox_wellFormed (id : ℕ) (d : Delivery) (now : Time) : (newInbox id d now).WellFormed := by
  constructor <;> simp [newInbox]

/-- A failure is recorded with the attempts of the row it is recorded on. -/
theorem Effect.wellFormed (h : Effect p e r r') (hw : r.WellFormed)
    (ha : ∀ t n x, p = .recordProcessingFailure r.id t n x → r.claimToken = some t → r.attempts = n) :
    r'.WellFormed := by
  cases h with
  | keep => exact hw
  | claimed hp hc =>
    have hlt : r.attempts + 1 ≤ 5 := (claimable_iff.mp hc).1
    constructor <;> simp [claim, hlt]
  | completed => constructor <;> simp [complete, WebhookInbox.unclaim, hw.bounded]
  | gaveBack t n x retry hp ho hr =>
    have hn := ha t n x hp (unexpired_iff.mp ho).2.1
    constructor
    · intro hs
      simp only [giveBack, shouldRetry, ite_eq_left_iff, decide_eq_true_eq, reduceCtorEq, imp_false,
        not_not] at hs
      exact hn ▸ hs
    · intro hs
      simp only [giveBack] at hs
      split at hs <;> cases hs
    · exact fun ht => absurd rfl ht
    · exact hw.bounded
  | closed => constructor <;> simp [close, WebhookInbox.unclaim, hw.bounded]

/-- Until its claim expires, only the holder of a row's token can change the row. -/
theorem Effect.eq_of_unexpired (h : Effect p e r r') (hw : r.WellFormed) {t : Uuid} {x : Time}
    (ht : r.claimToken = some t) (hx : r.claimExpiresAt = some x) (hnow : e.now < x)
    (hp : ∀ id cl, p ≠ .completeActiveClaim id t cl)
    (hp' : ∀ id n f, p ≠ .recordProcessingFailure id t n f) : r' = r := by
  have hs := hw.token (by simp [ht])
  have unexpired : r.processingWithExpiredClaimAt e.now ≠ true := by
    intro h
    obtain ⟨-, y, hy, hle⟩ := expired_iff.mp h
    rw [hx] at hy
    cases hy
    exact absurd hnow (Nat.not_lt.mpr hle)
  cases h with
  | keep => rfl
  | claimed _ hc =>
    rcases (claimable_iff.mp hc).2 with ⟨hr, -⟩ | h
    · rw [hs] at hr
      cases hr
    · exact absurd h unexpired
  | completed t' cl hpe ho =>
    have ht' : r.claimToken = some t' := (unexpired_iff.mp ho).2.1
    rw [ht] at ht'
    cases ht'
    exact absurd hpe (hp _ _)
  | gaveBack t' n f retry hpe ho =>
    have ht' : r.claimToken = some t' := (unexpired_iff.mp ho).2.1
    rw [ht] at ht'
    cases ht'
    exact absurd hpe (hp' _ _ _)
  | closed limit _ hx' =>
    simp only [exhausted, Bool.and_eq_true] at hx'
    exact absurd hx'.1 unexpired

theorem Inserted.id_not_mem (h : Inserted p e rows r) : r.id ∉ rows.map (·.id) := by
  obtain ⟨d, -, -, rfl⟩ := h
  exact Table.nextId_not_mem _

theorem Inserted.event_not_mem (h : Inserted p e rows r) :
    (r.provider, r.eventKey) ∉ rows.map fun r => (r.provider, r.eventKey) := by
  obtain ⟨d, -, hf, rfl⟩ := h
  intro hm
  obtain ⟨r, hr, he⟩ := List.mem_map.mp hm
  have hn := List.find?_eq_none.mp hf r hr
  simp only [newInbox, Prod.mk.injEq] at he
  exact hn (by simp [sameEvent, he.1, he.2])

/-! ### Invariant and knowledge -/

/-- The invariant of the store. -/
structure Inv (s : Store) : Prop where
  ids : (s.rows.map (·.id)).Nodup
  events : (s.rows.map fun r => (r.provider, r.eventKey)).Nodup
  rows : ∀ r ∈ s.rows, r.WellFormed
  issued : ∀ r ∈ s.rows, ∀ t, r.claimToken = some t → t ∈ s.issued

theorem Inv.eq_of_id (h : Inv s) (hr : r ∈ s.rows) (hr' : r' ∈ s.rows) (he : r.id = r'.id) : r = r' :=
  List.inj_on_of_nodup_map h.ids hr hr' he

namespace Point

/-- The row a worker has claimed, and the token it claimed it with. -/
def worker : Point → Option (ℕ × Uuid)
  | .readClaimed id t _ | .execute id t _ | .completeActiveClaim id t _ |
    .recordProcessingFailure id t _ _ => some (id, t)
  | _ => none

/-- The claim a worker counts on while it works, and when it expires. -/
def lease : Point → Option (ℕ × Uuid × Time)
  | .readClaimed id t claimedAt => some (id, t, claimedAt + minutes 5)
  | .execute id t claimed | .completeActiveClaim id t claimed =>
    claimed.claimExpiresAt.map fun x => (id, t, x)
  | _ => none

/-- What a worker takes the row to be, as long as the row is under its token. -/
def believes : Point → WebhookInbox → Prop
  | .readClaimed _ _ claimedAt, r => r.claimExpiresAt = some (claimedAt + minutes 5)
  | .execute _ _ claimed, r | .completeActiveClaim _ _ claimed, r => r = claimed
  | .recordProcessingFailure _ _ attempts _, r => r.attempts = attempts
  | _, _ => True

/-- `$claimed->attempts`. -/
def attempts : Point → Option ℕ
  | .execute _ _ claimed | .completeActiveClaim _ _ claimed => some claimed.attempts
  | .recordProcessingFailure _ _ attempts _ => some attempts
  | _ => none

theorem worker_of_lease {id : ℕ} {t : Uuid} {x : Time} (h : p.lease = some (id, t, x)) :
    p.worker = some (id, t) := by
  cases p with
  | readClaimed => cases h; rfl
  | execute | completeActiveClaim =>
    obtain ⟨y, -, he⟩ := Option.map_eq_some_iff.mp h
    cases he
    rfl
  | _ => cases h

theorem expires_of_lease {id : ℕ} {t : Uuid} {x : Time} (h : p.lease = some (id, t, x))
    (hr : p.believes r) : r.claimExpiresAt = some x := by
  cases p with
  | readClaimed => cases h; exact hr
  | execute | completeActiveClaim =>
    obtain ⟨y, hy, he⟩ := Option.map_eq_some_iff.mp h
    cases he
    cases hr
    exact hy
  | _ => cases h

end Point

/-- What a worker knows. -/
structure Knowledge (s : Store) (p : Point) : Prop where
  issued : ∀ id t, p.worker = some (id, t) → t ∈ s.issued
  knows : ∀ id t, p.worker = some (id, t) → ∀ r ∈ s.rows, r.id = id →
    Fence.Knows t p.believes (register r)
  holds : ∀ id t x, p.lease = some (id, t, x) → s.now < x →
    ∃ r ∈ s.rows, r.id = id ∧ r.claimToken = some t
  attempts : ∀ n, p.attempts = some n → 1 ≤ n ∧ n ≤ 5

theorem Knowledge.of_idle (hw : p.worker = none) (ha : p.attempts = none) : Knowledge s p where
  issued id t h := by simp [hw] at h
  knows id t h := by simp [hw] at h
  holds id t x h := by simp [Point.worker_of_lease h] at hw
  attempts n h := by simp [ha] at h

/-- No two processes work with one token. -/
def Distinct (p q : Point) : Prop :=
  ∀ id t id' t', p.worker = some (id, t) → q.worker = some (id', t') → t ≠ t'

/-! ### Along a run -/

/-- Under a token drawn before, a row is what it was. -/
theorem eq_of_token (h : program.move s p e = some (s', k)) (hr : r' ∈ s'.rows) {t : Uuid}
    (ht : r'.claimToken = some t) (hi : t ∈ s.issued) : r' ∈ s.rows := by
  rcases (move_step h).origin (fun _ => .keep) hr with ⟨r, hr, he⟩ | ⟨d, -, -, rfl⟩
  · have := (he.change (moved h).fresh).eq_of_tag hi (by simpa [register] using ht)
    simp only [register, Fence.Register.mk.injEq] at this
    rwa [this.2]
  · cases ht

theorem issued_mono (h : program.move s p e = some (s', k)) {t : Uuid} (ht : t ∈ s.issued) :
    t ∈ s'.issued := by
  rw [(moved h).issued]
  exact Fence.mem_drawn ht

theorem Inv.move (hI : Inv s) (hA : Knowledge s p) (h : program.move s p e = some (s', k)) : Inv s' where
  ids := (move_step h).nodup (fun _ _ => Effect.id_eq) (fun _ => Inserted.id_not_mem) hI.ids
  events := (move_step h).nodup (fun _ _ => Effect.event_eq) (fun _ => Inserted.event_not_mem) hI.events
  rows r' hr' := by
    rcases (move_step h).origin (fun _ => .keep) hr' with ⟨r, hr, he⟩ | ⟨d, -, -, rfl⟩
    · refine he.wellFormed (hI.rows r hr) fun t n x hp ht => ?_
      subst hp
      exact hA.knows _ _ rfl r hr rfl ht
    · exact newInbox_wellFormed _ _ _
  issued r' hr' t ht := by
    rcases (move_step h).origin (fun _ => .keep) hr' with ⟨r, hr, he⟩ | ⟨d, -, -, rfl⟩
    · cases he with
      | keep => exact issued_mono h (hI.issued _ hr t ht)
      | claimed hp =>
        cases ht
        rw [(moved h).issued, hp]
        exact List.mem_cons_self
      | _ => cases ht
    · cases ht

/-- The step of another worker leaves what a worker knows true. -/
theorem Knowledge.frame (hI : Inv s) (hA : Knowledge s q) (hd : Distinct p q)
    (h : program.move s p e = some (s', k)) : Knowledge s' q where
  issued id t hw := issued_mono h (hA.issued id t hw)
  knows id t hw r hr hid ht := hA.knows id t hw r (eq_of_token h hr ht (hA.issued id t hw)) hid ht
  attempts := hA.attempts
  holds id t x hl hx := by
    rw [(moved h).now] at hx
    have hw := Point.worker_of_lease hl
    obtain ⟨r, hr, hid, ht⟩ := hA.holds id t x hl (Nat.lt_of_le_of_lt (moved h).later hx)
    obtain ⟨r', hr', he⟩ := (move_step h).next (fun _ => .keep) hr
    have hxr := Point.expires_of_lease hl (hA.knows id t hw r hr hid ht)
    -- Only a process that works with `t` could change the row, and that is `q` itself.
    have notHolder (id' : ℕ) : p.worker ≠ some (id', t) := fun hp => hd id' t id t hp hw rfl
    have heq : r' = r := he.eq_of_unexpired (hI.rows r hr) ht hxr hx
      (fun id' cl hp => notHolder id' (by rw [hp]; rfl)) (fun id' n f hp => notHolder id' (by rw [hp]; rfl))
    rw [heq] at hr'
    exact ⟨r, hr', hid, ht⟩

/-- What a worker knows at the next point. -/
theorem Knowledge.goOn (hA : Knowledge s p) (h : program.move s p e = some (s', k))
    (hw : q.worker = p.worker) (hb : ∀ r, p.believes r → q.believes r) (ha : q.attempts = p.attempts)
    (hl : q.lease = none ∨ (q.lease = p.lease ∧ s'.rows = s.rows)) : Knowledge s' q where
  issued id t hq := by
    rw [hw] at hq
    exact issued_mono h (hA.issued id t hq)
  knows id t hq r hr hid ht := by
    rw [hw] at hq
    have hold : r ∈ s.rows := eq_of_token h hr ht (hA.issued id t hq)
    exact hb r (hA.knows id t hq r hold hid ht)
  attempts n hn := by
    rw [ha] at hn
    exact hA.attempts n hn
  holds id t x hq hx := by
    rw [(moved h).now] at hx
    rcases hl with hl | ⟨hl, hrows⟩
    · rw [hl] at hq
      cases hq
    · rw [hrows]
      rw [hl] at hq
      exact hA.holds id t x hq (Nat.lt_of_le_of_lt (moved h).later hx)

/-! ### Where a process goes on -/

inductive Next (p : Point) (rows : List WebhookInbox) (e : Input) : Point → Prop
  /-- It works on no row. -/
  | idle {q : Point} : q.worker = none → q.attempts = none → Next p rows e q
  /-- Its claim affected one row. -/
  | claimed (id : ℕ) : p = .process id → rows.countP (claimable id e.now) = 1 →
      Next p rows e (.readClaimed id e.uuid e.now)
  | read (id : ℕ) (t : Uuid) (claimedAt : Time) {claimed : WebhookInbox} : p = .readClaimed id t claimedAt →
      readClaimed id t rows = some claimed → Next p rows e (.execute id t claimed)
  | returned (id : ℕ) (t : Uuid) (claimed : WebhookInbox) : p = .execute id t claimed →
      HandlePersistedZoomWebhookAction.execute claimed e.answer = .returned →
      Next p rows e (.completeActiveClaim id t claimed)
  | failed (id : ℕ) (t : Uuid) (claimed : WebhookInbox) (x : Failure) :
      p = .execute id t claimed ∨ p = .completeActiveClaim id t claimed →
      Next p rows e (.recordProcessingFailure id t claimed.attempts x)

theorem next_of_act (h : (act p rows e).next = some q) : Next p rows e q := by
  cases p with
  | accept d =>
    cases h
    exact .idle rfl rfl
  | checkRecoverable id created =>
    simp only [act] at h
    split at h <;> cases h
    exact .idle rfl rfl
  | dispatchProcessingJob ids =>
    cases ids with
    | nil => cases h
    | cons id ids =>
      simp only [act] at h
      split at h <;> cases h <;> exact .idle rfl rfl
  | process id =>
    by_cases ha : rows.countP (claimable id e.now) = 1
    · simp only [act, claimForProcessing, ha, ne_eq, not_true_eq_false, ite_false, Option.some.injEq] at h
      rw [← h]
      exact .claimed id rfl ha
    · simp [act, claimForProcessing, ha] at h
  | readClaimed id t claimedAt =>
    obtain ⟨claimed, hr, rfl⟩ := Option.map_eq_some_iff.mp h
    exact .read id t claimedAt rfl hr
  | execute id t claimed =>
    simp only [act] at h
    split at h <;> cases h
    · exact .returned id t claimed rfl (by assumption)
    · exact .failed id t claimed _ (.inl rfl)
    · exact .failed id t claimed _ (.inl rfl)
  | completeActiveClaim id t claimed =>
    simp only [act] at h
    split at h <;> cases h <;> exact .failed id t claimed _ (.inr rfl)
  | recordProcessingFailure => cases h
  | dispatchRecoverable limit =>
    cases h
    exact .idle rfl rfl
  | selectRecoverable now limit =>
    cases h
    exact .idle rfl rfl

/-- A process goes on with its token, or with one drawn in the step. -/
theorem Next.worker (h : Next p rows e q) :
    q.worker = none ∨ q.worker = p.worker ∨ ∃ id, p = .process id ∧ q.worker = some (id, e.uuid) := by
  cases h with
  | idle hw => exact .inl hw
  | claimed id hp => exact .inr (.inr ⟨id, hp, rfl⟩)
  | read id t claimedAt hp => exact .inr (.inl (by rw [hp]; rfl))
  | returned id t claimed hp => exact .inr (.inl (by rw [hp]; rfl))
  | failed id t claimed x hp => exact .inr (.inl (by rcases hp with hp | hp <;> rw [hp] <;> rfl))

/-! ### The outline -/

theorem knowledge_claimed {id : ℕ} (hI : Inv s) (h : program.move s (.process id) e = some (s', k))
    (ha : s.rows.countP (claimable id e.now) = 1) : Knowledge s' (.readClaimed id e.uuid e.now) where
  issued id' t hw := by
    cases hw
    rw [(moved h).issued]
    exact List.mem_cons_self
  knows id' t hw r hr hid ht := by
    cases hw
    rcases (move_step h).origin (fun _ => .keep) hr with ⟨r₀, hr₀, he⟩ | ⟨d, hp, -⟩
    · cases he with
      | keep => exact absurd (hI.issued _ hr₀ _ ht) ((moved h).fresh rfl)
      | claimed => rfl
      | _ => cases ht
    · cases hp
  attempts n hn := by cases hn
  holds id' t x hl _ := by
    cases hl
    have hpos : 0 < s.rows.countP (claimable id e.now) := by omega
    obtain ⟨r, hr, hc⟩ := List.countP_pos_iff.mp hpos
    refine ⟨claim e.uuid e.now r, ?_, ?_, rfl⟩
    · rw [(moved h).rows]
      simp only [act]
      split <;> exact Table.mem_updateWhere.mpr ⟨r, hr, by rw [if_pos hc]⟩
    · simp only [claimable, Bool.and_eq_true, beq_iff_eq] at hc
      exact hc.1

theorem knowledge_read {id : ℕ} {t : Uuid} {claimedAt : Time} {claimed : WebhookInbox} (hI : Inv s)
    (hA : Knowledge s (.readClaimed id t claimedAt))
    (h : program.move s (.readClaimed id t claimedAt) e = some (s', k))
    (hr : readClaimed id t s.rows = some claimed) : Knowledge s' (.execute id t claimed) := by
  have hm := List.mem_of_find?_eq_some hr
  have hc := List.find?_some hr
  simp only [Bool.and_eq_true, beq_iff_eq] at hc
  have hrows : s'.rows = s.rows := (moved h).rows
  have hwf := hI.rows claimed hm
  refine ⟨fun id' t' hw => ?_, fun id' t' hw r hr hid _ => ?_, fun id' t' x hl _ => ?_, fun n hn => ?_⟩
  · cases hw
    exact issued_mono h (hA.issued _ _ rfl)
  · cases hw
    rw [hrows] at hr
    exact hI.eq_of_id hr hm (hid.trans hc.1.symm)
  · cases Point.worker_of_lease hl
    exact ⟨claimed, hrows ▸ hm, hc⟩
  · cases hn
    exact ⟨(hwf.processing (hwf.token (by simp [hc.2]))).1, hwf.bounded⟩

theorem Knowledge.next (hI : Inv s) (hA : Knowledge s p) (h : program.move s p e = some (s', some q)) :
    Knowledge s' q := by
  have hrows := (moved h).rows
  cases next_of_act (moved h).next.symm with
  | idle hw ha => exact .of_idle hw ha
  | claimed id hp ha =>
    subst hp
    exact knowledge_claimed hI h ha
  | read id t claimedAt hp hr =>
    subst hp
    exact knowledge_read hI hA h hr
  | returned id t claimed hp hret =>
    subst hp
    have hrows : s'.rows = s.rows := by simpa [act, hret] using hrows
    exact hA.goOn h rfl (fun _ hr => hr) rfl (.inr ⟨rfl, hrows⟩)
  | failed id t claimed x hp =>
    rcases hp with rfl | rfl
    · exact hA.goOn h rfl (fun _ hr => congrArg _ hr) rfl (.inl rfl)
    · exact hA.goOn h rfl (fun _ hr => congrArg _ hr) rfl (.inl rfl)

theorem idle_of_entry (h : program.entry p = true) : p.worker = none ∧ p.attempts = none := by
  cases p <;> first | exact ⟨rfl, rfl⟩ | cases h

theorem outline : ApartOutline program Inv Knowledge Distinct where
  symm _ _ h id t id' t' hp hq := (h id' t' id t hq hp).symm
  entry s p _ hp := .of_idle (idle_of_entry hp).1 (idle_of_entry hp).2
  arrive s p q _ hp _ id t id' t' hw := by simp [(idle_of_entry hp).1] at hw
  move s p e s' k hI hA h := ⟨hI.move hA h, fun q hq => hA.next hI (hq ▸ h)⟩
  goOn s p e s' p' q hI hA hAq hd h := by
    intro id t id' t' hp hq
    rcases (next_of_act (moved h).next.symm).worker with hw | hw | ⟨i, rfl, hw⟩
    · simp [hw] at hp
    · rw [hw] at hp
      exact hd id t id' t' hp hq
    · rw [hw] at hp
      cases hp
      rintro rfl
      exact (moved h).fresh rfl (hAq.issued id' _ hq)
  frame s p e s' k q hI _ hAq hd h := hAq.frame hI hd h

theorem start_holds : Holds Inv Knowledge start :=
  ⟨⟨List.nodup_nil, List.nodup_nil, by simp [start], by simp [start]⟩, by simp [start]⟩

theorem start_apart : Apart Distinct start.procs := by
  intro i j p q _ hp
  cases hp

variable {tr : List (Step Store Point Input)} {c : Config Store Point}

theorem holds_of_run (h : program.Run start tr c) : Holds Inv Knowledge c ∧ Apart Distinct c.procs :=
  outline.run start_holds start_apart h

end Inbox
end Daywright
