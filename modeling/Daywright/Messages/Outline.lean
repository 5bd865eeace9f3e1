/-
# What every run of the messages preserves

A claim token names one claim, and a batch is dispatched under one claim; a batch keeps its jobs, and no two
of them may reach the same user; a job's result stays, and the callbacks run once
every job has its result.

Key definitions: `Batch.WellFormed`, `Inv`, `Knowledge`, `Distinct`.
Key theorems: `outline`, `holds_of_run`.
-/
import Daywright.Messages.Effects

namespace Daywright

/-- No two jobs may reach the same user, and those that sent the message have
reached a user they may. -/
structure Batch.WellFormed (b : Batch) : Prop where
  apart : (b.jobs.map (·.job)).Pairwise fun j j' => ∀ u, ¬ (j.MayReach u ∧ j'.MayReach u)
  reached : ∀ q ∈ b.jobs, ∀ u, q.sentTo = some u → q.job.MayReach u

theorem JobResult.eq_of_sentTo {q : QueuedJob} {result : JobResult} {u : ℕ}
    (h : ({ q with result := some result } : QueuedJob).sentTo = some u) : result = .succeeded (some u) := by
  cases result with
  | succeeded sentTo =>
    obtain rfl : sentTo = some u := h
    rfl
  | failed => cases h

theorem Batch.WellFormed.unique {b : Batch} (h : b.WellFormed) {k k' u : ℕ} {q q' : QueuedJob}
    (hq : b.jobs[k]? = some q) (hq' : b.jobs[k']? = some q') (hu : q.job.MayReach u) (hu' : q'.job.MayReach u) :
    k = k' := by
  obtain ⟨hk, rfl⟩ := List.getElem?_eq_some_iff.mp hq
  obtain ⟨hk', rfl⟩ := List.getElem?_eq_some_iff.mp hq'
  have hp := List.pairwise_iff_getElem.mp h.apart
  rcases Nat.lt_trichotomy k k' with hlt | heq | hgt
  · exact absurd ⟨by simpa using hu, by simpa using hu'⟩ (hp k k' (by simpa using hk) (by simpa using hk') hlt u)
  · exact heq
  · exact absurd ⟨by simpa using hu', by simpa using hu⟩ (hp k' k (by simpa using hk') (by simpa using hk) hgt u)

namespace Messages

open Interleave DispatchProjectMessageAction

variable {s s' : Store} {p q : Point} {e : Input} {m m' : Message} {b b' : Batch} {k : Option Point}

theorem newBatch_wellFormed {id token : String} {projectId : ℕ} (hu : m.users.Nodup) :
    (newBatch id projectId token m).WellFormed := by
  constructor
  · simp only [newBatch, List.map_map, jobs]
    cases m.type with
    | mail =>
      simp only [List.map_map, List.pairwise_map]
      refine hu.imp fun hne u hr => hne ?_
      exact hr.1.trans hr.2.symm
    | sms => exact List.pairwise_singleton _ _
  · intro j hj u hr
    obtain ⟨job, -, rfl⟩ := List.mem_map.mp hj
    cases hr

/-! ### Batches persist -/

/-- `b'` is `b` later: the same jobs, those that have a result with that result. -/
structure Later (b b' : Batch) : Prop where
  id : b'.id = b.id
  messageId : b'.messageId = b.messageId
  claimToken : b'.claimToken = b.claimToken
  jobs : b'.jobs.map (·.job) = b.jobs.map (·.job)
  results : ∀ (k : ℕ) j, b.jobs[k]? = some j → ∀ r, j.result = some r →
    ∃ j', b'.jobs[k]? = some j' ∧ j'.result = some r

theorem Later.refl (b : Batch) : Later b b := ⟨rfl, rfl, rfl, rfl, fun _ j hj _ hr => ⟨j, hj, hr⟩⟩

theorem later_set {k : ℕ} {j j' : QueuedJob} (hj : b.jobs[k]? = some j) (hjob : j'.job = j.job)
    (hr : ∀ r, j.result = some r → j'.result = some r) : Later b { b with jobs := b.jobs.set k j' } := by
  refine ⟨rfl, rfl, rfl, ?_, fun i ji hi r hri => ?_⟩
  · obtain ⟨hk, rfl⟩ := List.getElem?_eq_some_iff.mp hj
    rw [List.map_set, hjob]
    refine List.ext_getElem (by simp) fun i h₁ h₂ => ?_
    rw [List.getElem_set]
    split
    · rename_i h
      simp [h]
    · rfl
  · by_cases hik : k = i
    · subst hik
      rw [hj] at hi
      cases hi
      obtain ⟨hk, -⟩ := List.getElem?_eq_some_iff.mp hj
      exact ⟨j', by simp [hk], hr r hri⟩
    · exact ⟨ji, by rwa [List.getElem?_set_ne hik], hri⟩

theorem BatchEffect.later (h : BatchEffect p b b') : Later b b' := by
  cases h with
  | keep => exact .refl b
  | attempted hj => exact later_set hj rfl fun _ hr => hr
  | recorded _ hj hn => exact later_set hj rfl fun _ hr => by rw [hn] at hr; cases hr

theorem Later.job (h : Later b b') {k : ℕ} {j : QueuedJob} (hj : b.jobs[k]? = some j) :
    ∃ j', b'.jobs[k]? = some j' ∧ j'.job = j.job := by
  have hk : (b'.jobs.map (·.job))[k]? = some j.job := by rw [h.jobs, List.getElem?_map, hj]; rfl
  rw [List.getElem?_map] at hk
  obtain ⟨j', hj', he⟩ := Option.map_eq_some_iff.mp hk
  exact ⟨j', hj', he⟩

theorem Later.job' (h : Later b b') {k : ℕ} {j' : QueuedJob} (hj : b'.jobs[k]? = some j') :
    ∃ j, b.jobs[k]? = some j ∧ j.job = j'.job := by
  have hk : (b.jobs.map (·.job))[k]? = some j'.job := by rw [← h.jobs, List.getElem?_map, hj]; rfl
  rw [List.getElem?_map] at hk
  obtain ⟨j, hj, he⟩ := Option.map_eq_some_iff.mp hk
  exact ⟨j, hj, he⟩

theorem allRan_iff : b.allJobsHaveRanExactlyOnce = true ↔ ∀ j ∈ b.jobs, ∃ r, j.result = some r := by
  simp [Batch.allJobsHaveRanExactlyOnce, Option.isSome_iff_exists]

theorem Later.allRan (h : Later b b') (hr : b.allJobsHaveRanExactlyOnce = true) :
    b'.allJobsHaveRanExactlyOnce = true := by
  refine allRan_iff.mpr fun j' hj' => ?_
  obtain ⟨k, hk⟩ := List.mem_iff_getElem?.mp hj'
  obtain ⟨j, hj, -⟩ := h.job' hk
  obtain ⟨r, hr⟩ := allRan_iff.mp hr j (List.mem_of_getElem? hj)
  obtain ⟨j'', hj'', hr'⟩ := h.results k j hj r hr
  rw [hk] at hj''
  cases hj''
  exact ⟨r, hr'⟩

theorem BatchEffect.wellFormed (h : BatchEffect p b b') (hw : b.WellFormed)
    (hp : ∀ k u, p.delivery = some (b.id, k, u) → ∀ j, b.jobs[k]? = some j → j.job.MayReach u) :
    b'.WellFormed := by
  refine ⟨by rw [h.later.jobs]; exact hw.apart, ?_⟩
  cases h with
  | keep => exact hw.reached
  | attempted hj =>
    intro j hj' u hu
    rcases List.mem_or_eq_of_mem_set hj' with h | rfl
    · exact hw.reached j h u hu
    · exact hw.reached _ (List.mem_of_getElem? hj) u hu
  | recorded hpe hj =>
    intro j hj' u hu
    rcases List.mem_or_eq_of_mem_set hj' with h | rfl
    · exact hw.reached j h u hu
    · have hreach := hp _ u (by rw [hpe, JobResult.eq_of_sentTo hu]; rfl) _ hj
      exact hreach

/-! ### The outline -/

structure Inv (s : Store) : Prop where
  ids : (s.rows.map (·.id)).Nodup
  pos : 0 < s.nextId
  known : ∀ m ∈ s.rows, 0 < m.id ∧ m.id < s.nextId
  users : ∀ m ∈ s.rows, m.users.Nodup
  batchIds : (s.batches.map (·.id)).Nodup
  batches : ∀ b ∈ s.batches, b.id ∈ s.issued ∧ b.claimToken ∈ s.issued ∧ b.messageId < s.nextId ∧ b.WellFormed

theorem Inv.eq_of_id (h : Inv s) (hm : m ∈ s.rows) (hm' : m' ∈ s.rows) (hid : m.id = m'.id) : m = m' :=
  List.inj_on_of_nodup_map h.ids hm hm' hid

theorem Inv.lt_of_batch (h : Inv s) (hb : b ∈ s.batches) : b.messageId < s.nextId := (h.batches b hb).2.2.1

theorem Inv.eq_of_batchId (h : Inv s) (hb : b ∈ s.batches) (hb' : b' ∈ s.batches) (hid : b.id = b'.id) : b = b' :=
  List.inj_on_of_nodup_map h.batchIds hb hb' hid

/-- The token was drawn as a token, for a message that was there. -/
def Drawn (s : Store) (id : ℕ) (t : String) : Prop :=
  t ∈ s.issued ∧ id < s.nextId ∧ ∀ b ∈ s.batches, b.id ≠ t

/-- All jobs of the message's batch have run. -/
def Ran (s : Store) (batchId : String) (id : ℕ) : Prop :=
  ∃ b ∈ s.batches, b.id = batchId ∧ b.messageId = id ∧ b.allJobsHaveRanExactlyOnce = true

/-- The job may send its message to the user. -/
def MayDeliver (s : Store) (batchId : String) (k u : ℕ) : Prop :=
  ∃ b ∈ s.batches, b.id = batchId ∧ ∃ j, b.jobs[k]? = some j ∧ j.job.MayReach u

/-- What a process knows. -/
structure Knowledge (s : Store) (p : Point) : Prop where
  token : ∀ id t, p.token = some (id, t) → Drawn s id t
  /-- Nothing has been dispatched under its claim. -/
  claim : ∀ id t, p.claim = some (id, t) → ∀ b ∈ s.batches, b.claimToken ≠ t
  /-- Under its claim only its batch has been dispatched. -/
  started : ∀ id t batchId caller, p = .markBatchStarted id t batchId caller →
    (∃ b ∈ s.batches, b.id = batchId ∧ b.messageId = id) ∧ ∀ b ∈ s.batches, b.claimToken = t → b.id = batchId
  callback : ∀ batchId id, p.callback = some (batchId, id) → Ran s batchId id
  delivery : ∀ batchId k u, p.delivery = some (batchId, k, u) → MayDeliver s batchId k u
  users : ∀ projectId m t caller, p = .dispatchBatch projectId m t caller → m.users.Nodup

/-- Two processes hold different tokens. -/
def Distinct (p q : Point) : Prop :=
  ∀ id t id' t', p.token = some (id, t) → q.token = some (id', t') → t ≠ t'

theorem Distinct.symm (h : Distinct p q) : Distinct q p := fun _ _ _ _ hq hp => (h _ _ _ _ hp hq).symm

theorem Point.Idle.distinct (h : p.Idle) : Distinct p q := fun _ _ _ _ hp => by
  rw [h.token] at hp
  cases hp

theorem Point.claim_of_token_none (h : p.token = none) : p.claim = none := by
  cases hc : p.claim with
  | none => rfl
  | some x => rw [Point.token_of_claim hc] at h; cases h

theorem Knowledge.lt_of_callback {s : Store} {p : Point} (hI : Inv s) (h : Knowledge s p) {batchId : String} {id : ℕ}
    (hp : p.callback = some (batchId, id)) : id < s.nextId := by
  obtain ⟨b, hb, -, rfl, -⟩ := h.callback _ _ hp
  exact hI.lt_of_batch hb

/-- A process without a claim. -/
theorem knowledge_of_unclaimed (ht : p.token = none)
    (hc : ∀ batchId id, p.callback = some (batchId, id) → Ran s batchId id)
    (hd : ∀ batchId k u, p.delivery = some (batchId, k, u) → MayDeliver s batchId k u) : Knowledge s p where
  token _ _ h := by rw [ht] at h; cases h
  claim _ _ h := by rw [Point.claim_of_token_none ht] at h; cases h
  started _ _ _ _ h := by rw [h] at ht; cases ht
  callback := hc
  delivery := hd
  users _ _ _ _ h := by rw [h] at ht; cases ht

theorem Point.callback_of_token {x : ℕ × String} (h : p.token = some x) : p.callback = none ∧ p.delivery = none := by
  cases p with
  | findClaimedMessage | dispatchBatch | markBatchStarted | releaseClaim => exact ⟨rfl, rfl⟩
  | _ => cases h

/-- A process with a claim token, up to its batch. -/
theorem knowledge_of_claimed {id : ℕ} {t : String} (ht : p.token = some (id, t)) (hd : Drawn s id t)
    (hc : p.claim ≠ none → ∀ b ∈ s.batches, b.claimToken ≠ t)
    (hu : ∀ projectId m t caller, p = .dispatchBatch projectId m t caller → m.users.Nodup)
    (hs : ∀ id t batchId caller, p ≠ .markBatchStarted id t batchId caller) : Knowledge s p where
  token _ _ h := by
    rw [ht] at h
    cases h
    exact hd
  claim _ _ h := by
    have h' := Point.token_of_claim h
    rw [ht] at h'
    cases h'
    exact hc (by simp [h])
  started _ _ _ _ h := absurd h (hs _ _ _ _)
  callback _ _ h := by rw [(Point.callback_of_token ht).1] at h; cases h
  delivery _ _ _ h := by rw [(Point.callback_of_token ht).2] at h; cases h
  users := hu

theorem Point.Idle.knowledge (h : p.Idle) : Knowledge s p :=
  knowledge_of_unclaimed h.token (fun _ _ hc => by rw [h.callback] at hc; cases hc)
    fun _ _ _ hd => by rw [h.delivery] at hd; cases hd

theorem entry_idle (h : program.entry p = true) : p.Idle := by
  cases p with
  | send | handle | execute | work | delete => exact ⟨rfl, rfl, rfl⟩
  | _ => cases h

/-- What a move is. -/
structure Moved (s : Store) (p : Point) (e : Input) (s' : Store) (k : Option Point) : Prop where
  rows : s'.rows = (act s p e).1.rows
  nextId : s'.nextId = (act s p e).1.nextId
  batches : s'.batches = (act s p e).1.batches
  issued : s'.issued = (p.draws e).toList ++ s.issued
  next : k = (act s p e).2
  fresh : ∀ x, p.draws e = some x → x ∉ s.issued

theorem moved (h : program.move s p e = some (s', k)) : Moved s p e s' k := by
  simp only [program, Option.ite_none_left_eq_some, Option.some.injEq, Prod.mk.injEq] at h
  obtain ⟨hg, rfl, rfl⟩ := h
  refine ⟨rfl, rfl, rfl, rfl, rfl, fun x hx hm => hg ?_⟩
  simp [hx, hm]

namespace Moved

theorem issued_mono (h : Moved s p e s' k) {x : String} (hx : x ∈ s.issued) : x ∈ s'.issued := by
  rw [h.issued]
  exact List.mem_append_right _ hx

theorem drawn (h : Moved s p e s' k) {x : String} (hx : p.draws e = some x) : x ∈ s'.issued := by
  rw [h.issued, hx]
  exact List.mem_append_left _ (List.mem_singleton_self x)

theorem nextId_mono (h : Moved s p e s' k) : s.nextId ≤ s'.nextId := by
  rw [h.nextId]
  exact act_nextId

theorem goesOn (h : Moved s p e s' k) (hk : k = some q) : Next s p e (act s p e).1 q :=
  next_of_act (Prod.ext rfl (h.next.symm.trans hk))

theorem batches_step (h : Moved s p e s' k) (hI : Inv s) :
    Table.Step (BatchEffect p) (Dispatched p e) s.batches s'.batches := by
  rw [h.batches]
  exact act_batches hI.batchIds

/-- A batch is still there after a step. -/
theorem later (h : Moved s p e s' k) (hI : Inv s) (hb : b ∈ s.batches) : ∃ b' ∈ s'.batches, Later b b' := by
  obtain ⟨b', hb', he⟩ := (h.batches_step hI).next (fun _ => .keep) hb
  exact ⟨b', hb', he.later⟩

/-- A batch was there before, or has just been dispatched. -/
theorem origin_batch (h : Moved s p e s' k) (hI : Inv s) (hb : b' ∈ s'.batches) :
    (∃ b ∈ s.batches, BatchEffect p b b') ∨ Dispatched p e b' :=
  (h.batches_step hI).origin (fun _ => .keep) hb

/-- A message was there before, or has just been created. -/
theorem origin (h : Moved s p e s' k) (hI : Inv s) (hm : m' ∈ s'.rows) :
    (∃ m ∈ s.rows, Effect p e m m') ∨ Created s s' m' := by
  by_cases hd : ∀ id, p ≠ .delete id
  · rw [h.rows] at hm
    refine ((act_rows hI.ids hd).origin (fun _ => .keep) hm).imp_right fun hc => ?_
    exact ⟨h.nextId.trans hc.1, hc.2⟩
  · push Not at hd
    obtain ⟨id, rfl⟩ := hd
    rw [h.rows] at hm
    exact .inl ⟨m', delete_rows m' hm, .keep⟩

/-- A message whose id was given out before was there before. -/
theorem origin_of_lt (h : Moved s p e s' k) (hI : Inv s) (hm : m' ∈ s'.rows) (hlt : m'.id < s.nextId) :
    ∃ m ∈ s.rows, Effect p e m m' := by
  rcases h.origin hI hm with hold | ⟨-, _, _, _, rfl⟩
  · exact hold
  · exact absurd hlt (Nat.lt_irrefl _)

theorem ids (h : Moved s p e s' k) (hI : Inv s) : (s'.rows.map (·.id)).Nodup := by
  rw [h.rows]
  by_cases hd : ∀ id, p ≠ .delete id
  · refine (act_rows hI.ids hd).nodup (fun _ _ he => he.id_eq) (fun m hc hm => ?_) hI.ids
    obtain ⟨-, _, _, _, rfl⟩ := hc
    obtain ⟨m', hm', hid⟩ := List.mem_map.mp hm
    exact absurd (hI.known m' hm').2 (by rw [hid]; exact Nat.lt_irrefl _)
  · push Not at hd
    obtain ⟨id, rfl⟩ := hd
    rcases s.after_cases { s with rows := s.rows.filter (·.id != id) } e.answer with ha | ⟨-, ha⟩
    · rw [act, ha]
      exact hI.ids
    · rw [act, ha]
      exact (List.filter_sublist.map _).nodup hI.ids

theorem inv (h : Moved s p e s' k) (hI : Inv s) (hK : Knowledge s p) : Inv s' where
  ids := h.ids hI
  pos := hI.pos.trans_le h.nextId_mono
  known m hm := by
    rcases h.origin hI hm with ⟨m₀, hm₀, he⟩ | ⟨hn, _, _, _, rfl⟩
    · rw [he.id_eq]
      exact ⟨(hI.known m₀ hm₀).1, (hI.known m₀ hm₀).2.trans_le h.nextId_mono⟩
    · rw [hn]
      exact ⟨hI.pos, Nat.lt_succ_self _⟩
  users m hm := by
    rcases h.origin hI hm with ⟨m₀, hm₀, he⟩ | ⟨-, _, _, _, rfl⟩
    · rw [he.users_eq]
      exact hI.users m₀ hm₀
    · exact List.nodup_dedup _
  batchIds := by
    refine (h.batches_step hI).nodup (fun _ _ he => he.later.id) (fun b hd hb => ?_) hI.batchIds
    obtain ⟨_, _, _, _, rfl, rfl⟩ := hd
    obtain ⟨b', hb', hid⟩ := List.mem_map.mp hb
    have hid : b'.id = e.uuid := hid
    exact h.fresh _ rfl (by rw [← hid]; exact (hI.batches b' hb').1)
  batches b hb := by
    rcases h.origin_batch hI hb with ⟨b₀, hb₀, he⟩ | ⟨_, m, t, _, rfl, rfl⟩
    · obtain ⟨h₁, h₂, h₃, h₄⟩ := hI.batches b₀ hb₀
      rw [he.later.id, he.later.claimToken, he.later.messageId]
      refine ⟨h.issued_mono h₁, h.issued_mono h₂, h₃.trans_le h.nextId_mono, he.wellFormed h₄ fun k u hd j hj => ?_⟩
      obtain ⟨b₁, hb₁, hid, j', hj', hu⟩ := hK.delivery _ k u hd
      obtain rfl := hI.eq_of_batchId hb₁ hb₀ hid
      rw [hj] at hj'
      cases hj'
      exact hu
    · obtain ⟨ht, hid, -⟩ := hK.token _ _ rfl
      exact ⟨h.drawn rfl, h.issued_mono ht, hid.trans_le h.nextId_mono, newBatch_wellFormed (hK.users _ _ _ _ rfl)⟩

theorem drawn_stays (h : Moved s p e s' k) (hI : Inv s) {id : ℕ} {t : String} (ht : Drawn s id t) : Drawn s' id t := by
  refine ⟨h.issued_mono ht.1, ht.2.1.trans_le h.nextId_mono, fun b hb hid => ?_⟩
  rcases h.origin_batch hI hb with ⟨b₀, hb₀, he⟩ | ⟨_, _, _, _, rfl, rfl⟩
  · exact ht.2.2 b₀ hb₀ (he.later.id ▸ hid)
  · have hid : e.uuid = t := hid
    exact h.fresh _ rfl (by rw [hid]; exact ht.1)

theorem ran_stays (h : Moved s p e s' k) (hI : Inv s) {batchId : String} {id : ℕ} (hr : Ran s batchId id) :
    Ran s' batchId id := by
  obtain ⟨b, hb, hid, hm, hr⟩ := hr
  obtain ⟨b', hb', hl⟩ := h.later hI hb
  exact ⟨b', hb', hl.id.trans hid, hl.messageId.trans hm, hl.allRan hr⟩

theorem mayDeliver_stays (h : Moved s p e s' k) (hI : Inv s) {batchId : String} {i u : ℕ}
    (hd : MayDeliver s batchId i u) : MayDeliver s' batchId i u := by
  obtain ⟨b, hb, hid, j, hj, hu⟩ := hd
  obtain ⟨b', hb', hl⟩ := h.later hI hb
  obtain ⟨j', hj', he⟩ := hl.job hj
  exact ⟨b', hb', hl.id.trans hid, j', hj', by rw [he]; exact hu⟩

/-- What another process knows stays true. -/
theorem frame (h : Moved s p e s' k) (hI : Inv s) (hK : Knowledge s q) (hd : Distinct p q) :
    Knowledge s' q where
  token id t ht := h.drawn_stays hI (hK.token id t ht)
  claim id t ht b hb := by
    rcases h.origin_batch hI hb with ⟨b₀, hb₀, he⟩ | ⟨_, _, _, _, rfl, rfl⟩
    · rw [he.later.claimToken]
      exact hK.claim id t ht b₀ hb₀
    · exact hd _ _ id t rfl (Point.token_of_claim ht)
  started id t batchId caller hq := by
    obtain ⟨⟨b, hb, hid, hm⟩, hu⟩ := hK.started id t batchId caller hq
    obtain ⟨b', hb', hl⟩ := h.later hI hb
    refine ⟨⟨b', hb', hl.id.trans hid, hl.messageId.trans hm⟩, fun b hb ht => ?_⟩
    rcases h.origin_batch hI hb with ⟨b₀, hb₀, he⟩ | ⟨_, _, _, _, rfl, rfl⟩
    · rw [he.later.id]
      exact hu b₀ hb₀ (he.later.claimToken ▸ ht)
    · exact absurd ht (hd _ _ id t rfl (by rw [hq]; rfl))
  callback batchId id hq := h.ran_stays hI (hK.callback batchId id hq)
  delivery batchId k u hq := h.mayDeliver_stays hI (hK.delivery batchId k u hq)
  users := hK.users

/-- A claim token that no batch carries, and that is not dispatched under, stays so. -/
theorem undispatched (h : Moved s p e s' k) (hI : Inv s) {t : String} (ht : ∀ b ∈ s.batches, b.claimToken ≠ t)
    (hp : ∀ projectId m t caller, p ≠ .dispatchBatch projectId m t caller) :
    ∀ b ∈ s'.batches, b.claimToken ≠ t := by
  intro b hb
  rcases h.origin_batch hI hb with ⟨b₀, hb₀, he⟩ | ⟨_, _, _, _, hpe, -⟩
  · rw [he.later.claimToken]
    exact ht b₀ hb₀
  · exact absurd hpe (hp _ _ _ _)

/-- A process knows what it needs where it goes on. -/
theorem knowledge (h : Moved s p e s' k) (hI : Inv s) (hK : Knowledge s p) (hk : k = some q) : Knowledge s' q := by
  cases h.goesOn hk with
  | idle hq => exact hq.knowledge
  | @claimed projectId caller m hp hq hm hc hrows =>
    subst hp hq
    have hfresh := h.fresh _ rfl
    have hclaim : ∀ b ∈ s'.batches, b.claimToken ≠ claimToken e.uuid :=
      h.undispatched hI (fun b hb ht => hfresh (ht ▸ (hI.batches b hb).2.1)) (by simp)
    have hdrawn : Drawn s' m.id (claimToken e.uuid) := by
      refine ⟨h.drawn rfl, (hI.known m hm).2.trans_le h.nextId_mono, fun b hb hid => ?_⟩
      rcases h.origin_batch hI hb with ⟨b₀, hb₀, he⟩ | ⟨_, _, _, _, hpe, -⟩
      · exact hfresh (hid ▸ he.later.id ▸ (hI.batches b₀ hb₀).1)
      · cases hpe
    exact knowledge_of_claimed rfl hdrawn (fun _ => hclaim) (by simp) (by simp)
  | @found projectId token caller m hp hq hm hs =>
    subst hp hq
    refine knowledge_of_claimed rfl (h.drawn_stays hI (hK.token _ _ rfl))
      (fun _ => h.undispatched hI (hK.claim _ _ rfl) (by simp)) (fun _ _ _ _ hq => ?_) (by simp)
    cases hq
    exact (hI.users m hm).filter _
  | @dispatched projectId token caller m hp hq hs =>
    subst hp hq
    have hb' : s'.batches = s.batches ++ [newBatch e.uuid projectId token m] := by rw [h.batches, hs]
    constructor
    case token =>
      intro id t ht
      cases ht
      exact h.drawn_stays hI (hK.token _ _ rfl)
    case started =>
      intro id t batchId c hq
      cases hq
      rw [hb']
      refine ⟨⟨_, List.mem_append_right _ (List.mem_singleton_self _), rfl, rfl⟩, fun b hb ht => ?_⟩
      rcases List.mem_append.mp hb with hb | hb
      · exact absurd ht (hK.claim _ _ rfl b hb)
      · rw [List.mem_singleton.mp hb]
        rfl
    all_goals intros; contradiction
  | undispatched hp hq | unmarked hp hq =>
    subst hp hq
    exact knowledge_of_claimed rfl (h.drawn_stays hI (hK.token _ _ rfl)) (fun hc => absurd rfl hc) (by simp) (by simp)
  | handled hp hq hj hu hs =>
    subst hp hq
    obtain ⟨hb, hid, hji⟩ := job?_some hj
    refine knowledge_of_unclaimed rfl (fun _ _ hc => by cases hc) fun _ _ _ hd => ?_
    cases hd
    exact h.mayDeliver_stays hI ⟨_, hb, hid, _, hji, hu⟩
  | sent hp hq hs =>
    subst hp hq
    refine knowledge_of_unclaimed rfl (fun _ _ hc => by cases hc) fun _ _ _ hd => ?_
    cases hd
    exact h.mayDeliver_stays hI (hK.delivery _ _ _ rfl)
  | @finished batchId i result b j hp ht hd hc hj hr hs hran =>
    refine knowledge_of_unclaimed ht (fun _ _ hq => ?_) fun _ _ _ hq => by rw [hd] at hq; cases hq
    rw [hc] at hq
    cases hq
    obtain ⟨hb, hid, -⟩ := job?_some hj
    refine ⟨{ b with jobs := b.jobs.set i { j with result := some result } }, ?_, rfl, rfl, hran⟩
    rw [h.batches, hs]
    exact Table.mem_updateWhere.mpr ⟨b, hb, by simp [hid]⟩
  | called hp hq =>
    subst hp hq
    refine knowledge_of_unclaimed rfl (fun _ _ hc => ?_) fun _ _ _ hd => by cases hd
    cases hc
    exact h.ran_stays hI (hK.callback _ _ rfl)

/-- A process goes on with its token, with none, or with one just drawn. -/
theorem token (h : Moved s p e s' k) (hk : k = some q) {id : ℕ} {t : String} (ht : q.token = some (id, t)) :
    p.token = some (id, t) ∨ t ∉ s.issued := by
  cases h.goesOn hk with
  | idle hq => rw [hq.token] at ht; cases ht
  | claimed hp hq =>
    subst hp hq
    cases ht
    exact .inr (h.fresh _ rfl)
  | found hp hq | dispatched hp hq | undispatched hp hq | unmarked hp hq =>
    subst hp hq
    exact .inl ht
  | handled _ hq | sent _ hq | called _ hq =>
    subst hq
    cases ht
  | finished _ hq => rw [hq] at ht; cases ht

end Moved

theorem outline : ApartOutline program Inv Knowledge Distinct where
  symm _ _ h := h.symm
  entry _ _ _ hp := (entry_idle hp).knowledge
  arrive _ _ _ _ hp _ := (entry_idle hp).distinct
  move _ _ _ _ _ hI hK h := ⟨(moved h).inv hI hK, fun _ hk => (moved h).knowledge hI hK hk⟩
  goOn s p e s' p' q hI hK hq hd h := by
    intro id t id' t' hp' hq'
    rcases (moved h).token rfl hp' with ht | ht
    · exact hd id t id' t' ht hq'
    · rintro rfl
      exact ht (hq.token id' _ hq').1
  frame _ _ _ _ _ _ hI _ hq hd h := (moved h).frame hI hq hd

theorem inv_start : Inv start.store where
  ids := List.nodup_nil
  pos := Nat.one_pos
  known _ h := by cases h
  users _ h := by cases h
  batchIds := List.nodup_nil
  batches _ h := by cases h

theorem holds_start : Holds Inv Knowledge start := ⟨inv_start, fun _ h => by cases h⟩

theorem holds_of_run {tr : List (Step Store Point Input)} {c : Config Store Point} (h : program.Run start tr c) :
    Holds Inv Knowledge c ∧ Apart Distinct c.procs :=
  outline.run holds_start (fun _ _ _ _ _ h => by cases h) h

end Messages
end Daywright
