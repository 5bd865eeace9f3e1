/-
# Each recipient at most once

Two statements unlock a message that is not delivered: the `finally` callback of
its batch, and the release of a claim. If the batch has reached some of the
recipients, or is dispatched already, the next pass dispatches all of them again
(`delivered_twice`). In a run without such a step (`UnlocksSafely`) no recipient is
reached by two jobs (`delivered_at_most_once`): a message that can be claimed has
only batches that are over and have reached nobody.

Key definitions: `AtMostOnce`, `UnlocksSafely`, `Batch.Spent`, `Locked`, `Alone`.
Key theorems: `delivered_at_most_once`, `delivered_twice`.
-/
import Daywright.Messages.Outline

namespace Daywright

/-- The batch is over and has reached nobody. -/
def Batch.Spent (b : Batch) : Prop :=
  ∀ j ∈ b.jobs, ∃ r, j.result = some r ∧ j.sentTo = none

namespace Messages

open Interleave DispatchProjectMessageAction

variable {s s' : Store} {p q : Point} {e : Input} {m m' : Message} {b b' : Batch} {k : Option Point}
  {tr : List (Step Store Point Input)} {c c' : Config Store Point}

/-- The `k`-th job of the batch has sent the message to the user. -/
def Delivered (s : Store) (messageId userId : ℕ) (batchId : String) (k : ℕ) : Prop :=
  ∃ b ∈ s.batches, b.id = batchId ∧ b.messageId = messageId ∧
    ∃ j, b.jobs[k]? = some j ∧ j.sentTo = some userId

/-- No two jobs have sent a message to the same user. -/
def AtMostOnce (s : Store) : Prop :=
  ∀ messageId userId batchId k batchId' k', Delivered s messageId userId batchId k →
    Delivered s messageId userId batchId' k' → batchId = batchId' ∧ k = k'

/-- A step that unlocks a message which is not delivered: the release of a claim finds
no batch dispatched under it, the `finally` callback a batch that reached nobody. -/
def UnlocksSafely (s : Store) (p : Point) (e : Input) : Prop :=
  match p with
  | .releaseClaim messageId token _ => e.answer.applies = true → ∀ m ∈ s.rows, m.id = messageId →
      m.delivered = false → m.batchId = some token → ∀ b ∈ s.batches, b.claimToken ≠ token
  | .finallyCallback batchId messageId => e.answer.applies = true → ∀ m ∈ s.rows, m.id = messageId →
      m.delivered = false → ∀ b ∈ s.batches, b.id = batchId → ∀ j ∈ b.jobs, j.sentTo = none
  | _ => True

/-! ### The invariant -/

/-- The message carries the id of the batch, or the token it was dispatched under. -/
def LockedBy (b : Batch) (m : Message) : Prop := m.batchId = some b.id ∨ m.batchId = some b.claimToken

/-- Of an undelivered message, a batch that does not lock it is spent; and of any
message all batches but one are. -/
structure Locked (s : Store) : Prop where
  spent : ∀ m ∈ s.rows, m.delivered = false → ∀ b ∈ s.batches, b.messageId = m.id → ¬ LockedBy b m → b.Spent
  one : ∀ b ∈ s.batches, ∀ b' ∈ s.batches, b.messageId = b'.messageId → ¬ b.Spent → ¬ b'.Spent → b.id = b'.id

/-- What a process that dispatches, or runs callbacks, may rely on. -/
structure Alone (s : Store) (p : Point) : Prop where
  claim : ∀ id t, p.claim = some (id, t) → (∀ m ∈ s.rows, m.id = id → m.batchId = some t) ∧
    ∀ b ∈ s.batches, b.messageId = id → b.Spent
  callback : ∀ batchId id, p.callback = some (batchId, id) →
    (∀ m ∈ s.rows, m.id = id → m.delivered = true ∨ ∃ b ∈ s.batches, b.id = batchId ∧ LockedBy b m) ∧
    ∀ b ∈ s.batches, b.messageId = id → b.id ≠ batchId → b.Spent

/-- The message a process dispatches, or runs the callbacks for. -/
def Point.handles (p : Point) (id : ℕ) : Prop :=
  (∃ t, p.claim = some (id, t)) ∨ ∃ batchId, p.callback = some (batchId, id)

/-- No two processes do so for one message. -/
def Separate (p q : Point) : Prop := ∀ id, ¬ (p.handles id ∧ q.handles id)

theorem alone_of_none (hc : p.claim = none) (hb : p.callback = none) : Alone s p where
  claim _ _ h := by rw [hc] at h; cases h
  callback _ _ h := by rw [hb] at h; cases h

theorem Point.Idle.alone (h : p.Idle) : Alone s p := alone_of_none (Point.claim_of_token_none h.token) h.callback

theorem Point.Idle.not_handles (h : p.Idle) {id : ℕ} : ¬ p.handles id := by
  rintro (⟨t, hc⟩ | ⟨batchId, hc⟩)
  · rw [Point.claim_of_token_none h.token] at hc
    cases hc
  · rw [h.callback] at hc
    cases hc

/-! ### What a step keeps -/

theorem Later.spent (h : Later b b') (hs : b.Spent) : b'.Spent := by
  intro j' hj'
  obtain ⟨i, hi⟩ := List.mem_iff_getElem?.mp hj'
  obtain ⟨j, hj, -⟩ := h.job' hi
  obtain ⟨r, hr, hu⟩ := hs j (List.mem_of_getElem? hj)
  obtain ⟨j'', hj'', hr'⟩ := h.results i j hj r hr
  rw [hi] at hj''
  cases hj''
  refine ⟨r, hr', ?_⟩
  rw [QueuedJob.sentTo, hr', ← hr]
  exact hu

theorem not_spent_of_pending {i : ℕ} {j : QueuedJob} (hj : b.jobs[i]? = some j) (hr : j.result = none) :
    ¬ b.Spent := by
  intro hs
  obtain ⟨r, hr', -⟩ := hs j (List.mem_of_getElem? hj)
  rw [hr] at hr'
  cases hr'

theorem not_spent_of_delivered {i u : ℕ} {j : QueuedJob} (hj : b.jobs[i]? = some j)
    (hr : j.sentTo = some u) : ¬ b.Spent := by
  intro hs
  obtain ⟨-, -, hu⟩ := hs j (List.mem_of_getElem? hj)
  rw [hr] at hu
  cases hu

theorem canDispatch_iff : canDispatch m = true ↔ m.delivered = false ∧ m.batchId = none := by
  simp [canDispatch]

/-- A batch whose callbacks run is spent if it reached nobody, and any other of its
message is. -/
theorem callback_spent (hI : Inv s) (hK : Knowledge s p) (hA : Alone s p) {batchId : String}
    (hp : p.callback = some (batchId, m.id)) (hb : b ∈ s.batches) (hm : b.messageId = m.id)
    (hu : b.id = batchId → ∀ j ∈ b.jobs, j.sentTo = none) : b.Spent := by
  by_cases hid : b.id = batchId
  · obtain ⟨b₁, hb₁, hid₁, -, hran⟩ := hK.callback _ _ hp
    obtain rfl := hI.eq_of_batchId hb₁ hb (hid₁.trans hid.symm)
    intro j hj
    obtain ⟨r, hr⟩ := allRan_iff.mp hran j hj
    exact ⟨r, hr, hu hid j hj⟩
  · exact (hA.callback _ _ hp).2 b hb hm hid

namespace Moved

theorem later_or_dispatched (h : Moved s p e s' k) (hI : Inv s) (hb : b' ∈ s'.batches) :
    (∃ b ∈ s.batches, Later b b') ∨ Dispatched p e b' :=
  (h.origin_batch hI hb).imp_left fun ⟨b, hb, he⟩ => ⟨b, hb, he.later⟩

/-- Before the step, a batch that does not lock the message afterwards does not lock
it either, or it is spent. -/
theorem lockedBy (h : Moved s p e s' k) (hI : Inv s) (hK : Knowledge s p) (hA : Alone s p)
    (hok : UnlocksSafely s p e) (hm : m ∈ s.rows) (he : Effect p e m m') (hd : m'.delivered = false)
    (hb : b ∈ s.batches) (hbm : b.messageId = m.id) (hl : Later b b') (hn : ¬ LockedBy b' m') :
    ¬ LockedBy b m ∨ b.Spent := by
  rw [LockedBy, hl.id, hl.claimToken] at hn
  cases he with
  | keep | scheduled => exact .inl hn
  | claimed _ hc => exact .inl fun hlock => by simp [LockedBy, (canDispatch_iff.mp hc).2] at hlock
  | started hp ht =>
    obtain ⟨-, -, hids⟩ := hK.token _ _ (by rw [hp]; rfl)
    refine .inl ?_
    rintro (hlock | hlock) <;> rw [ht] at hlock <;> cases hlock
    · exact hids b hb rfl
    · exact hn (.inl (congrArg some ((hK.started _ _ _ _ hp).2 b hb rfl).symm))
  | released hp ht happ =>
    obtain ⟨-, -, hids⟩ := hK.token _ _ (by rw [hp]; rfl)
    refine .inl ?_
    rintro (hlock | hlock) <;> rw [ht] at hlock <;> cases hlock
    · exact hids b hb rfl
    · subst hp
      exact hok happ m hm rfl hd ht b hb rfl
  | delivered => cases hd
  | cleared hp _ happ =>
    subst hp
    exact .inr (callback_spent hI hK hA rfl hb hbm (hok happ m hm rfl hd b hb))

theorem locked (h : Moved s p e s' k) (hI : Inv s) (hK : Knowledge s p) (hL : Locked s) (hA : Alone s p)
    (hok : UnlocksSafely s p e) : Locked s' where
  spent m' hm' hd b' hb' hbm hn := by
    rcases h.later_or_dispatched hI hb' with ⟨b, hb, hl⟩ | ⟨_, m₀, t, _, rfl, rfl⟩
    · rw [hl.messageId] at hbm
      obtain ⟨m, hm, he⟩ := h.origin_of_lt hI hm' (hbm ▸ hI.lt_of_batch hb)
      rw [he.id_eq] at hbm
      rcases h.lockedBy hI hK hA hok hm he hd hb hbm hl hn with hn' | hs
      · exact hl.spent (hL.spent m hm (he.delivered_of hd) b hb hbm hn')
      · exact hl.spent hs
    · obtain ⟨m, hm, he⟩ := h.origin_of_lt hI hm' (hbm ▸ (hK.token _ _ rfl).2.1)
      have hlock := (hA.claim _ _ rfl).1 m hm (he.id_eq ▸ hbm.symm)
      cases he with
      | keep | scheduled => exact absurd (.inr hlock) hn
      | claimed hp | started hp | released hp | delivered hp | cleared hp => cases hp
  one b₁' hb₁ b₂' hb₂ hm h₁ h₂ := by
    rcases h.later_or_dispatched hI hb₁ with ⟨b₁, hb₁, hl₁⟩ | ⟨_, m₁, t₁, _, rfl, rfl⟩ <;>
      rcases h.later_or_dispatched hI hb₂ with ⟨b₂, hb₂, hl₂⟩ | ⟨_, m₂, t₂, _, hp, rfl⟩
    · rw [hl₁.messageId, hl₂.messageId] at hm
      rw [hl₁.id, hl₂.id]
      exact hL.one b₁ hb₁ b₂ hb₂ hm (fun hs => h₁ (hl₁.spent hs)) fun hs => h₂ (hl₂.spent hs)
    · subst hp
      rw [hl₁.messageId] at hm
      exact absurd (hl₁.spent ((hA.claim _ _ rfl).2 b₁ hb₁ hm)) h₁
    · rw [hl₂.messageId] at hm
      exact absurd (hl₂.spent ((hA.claim _ _ rfl).2 b₂ hb₂ hm.symm)) h₂
    · rfl

/-- A message locked by a batch stays so, or is delivered, unless its claim is
released or its callback runs. -/
theorem lockedBy_frame (hK : Knowledge s p) (hok : UnlocksSafely s p e)
    (hm : m ∈ s.rows) (he : Effect p e m m') (hd : m.delivered = false) (hb : b ∈ s.batches) (hl : Later b b')
    (hc : ∀ batchId, p.callback ≠ some (batchId, m.id)) (hlock : LockedBy b m) : LockedBy b' m' := by
  rw [LockedBy, hl.id, hl.claimToken]
  cases he with
  | keep | scheduled | delivered => exact hlock
  | claimed _ hc => simp [LockedBy, (canDispatch_iff.mp hc).2] at hlock
  | started hp ht =>
    obtain ⟨-, -, hids⟩ := hK.token _ _ (by rw [hp]; rfl)
    rcases hlock with hlock | hlock <;> rw [ht] at hlock <;> cases hlock
    · exact absurd rfl (hids b hb)
    · exact .inl (congrArg some ((hK.started _ _ _ _ hp).2 b hb rfl).symm)
  | released hp ht happ =>
    obtain ⟨-, -, hids⟩ := hK.token _ _ (by rw [hp]; rfl)
    subst hp
    rcases hlock with hlock | hlock <;> rw [ht] at hlock <;> cases hlock
    · exact absurd rfl (hids b hb)
    · exact absurd rfl (hok happ m hm rfl hd ht b hb)
  | cleared hp => exact absurd (by rw [hp]; rfl) (hc _)

/-- What another process may rely on. -/
theorem alone_frame (h : Moved s p e s' k) (hI : Inv s) (hK : Knowledge s p) (hok : UnlocksSafely s p e)
    (hKq : Knowledge s q) (hAq : Alone s q) (hd : Distinct p q) (hsep : Separate p q) : Alone s' q where
  claim id t hq := by
    obtain ⟨hrows, hspent⟩ := hAq.claim id t hq
    have hqt := Point.token_of_claim hq
    refine ⟨fun m' hm' hid => ?_, fun b' hb' hbm => ?_⟩
    · obtain ⟨m, hm, he⟩ := h.origin_of_lt hI hm' (hid ▸ (hKq.token id t hqt).2.1)
      have hlock := hrows m hm (he.id_eq.symm.trans hid)
      cases he with
      | keep | scheduled | delivered => exact hlock
      | claimed _ hc => rw [(canDispatch_iff.mp hc).2] at hlock; cases hlock
      | started hp ht | released hp ht =>
        rw [ht] at hlock
        cases hlock
        exact absurd rfl (hd _ _ _ _ (by rw [hp]; rfl) hqt)
      | cleared hp => exact absurd ⟨.inr ⟨_, by rw [hp, ← hid]; rfl⟩, .inl ⟨t, hq⟩⟩ (hsep id)
    · rcases h.later_or_dispatched hI hb' with ⟨b, hb, hl⟩ | ⟨_, _, _, _, rfl, rfl⟩
      · exact hl.spent (hspent b hb (hl.messageId ▸ hbm))
      · exact absurd ⟨.inl ⟨_, by rw [← hbm]; rfl⟩, .inl ⟨t, hq⟩⟩ (hsep id)
  callback batchId id hq := by
    obtain ⟨hrows, hspent⟩ := hAq.callback batchId id hq
    refine ⟨fun m' hm' hid => ?_, fun b' hb' hbm hne => ?_⟩
    · obtain ⟨m, hm, he⟩ := h.origin_of_lt hI hm' (hid ▸ hKq.lt_of_callback hI hq)
      have hid : m.id = id := he.id_eq.symm.trans hid
      by_cases hdel : m'.delivered = true
      · exact .inl hdel
      have hund := he.delivered_of (by simpa using hdel)
      rcases hrows m hm hid with hm₁ | ⟨b, hb, hbid, hlock⟩
      · rw [hund] at hm₁
        cases hm₁
      · obtain ⟨b', hb', hl⟩ := h.later hI hb
        refine .inr ⟨b', hb', hl.id.trans hbid, lockedBy_frame hK hok hm he hund hb hl ?_ hlock⟩
        exact fun batchId' hp => hsep id ⟨.inr ⟨batchId', hid ▸ hp⟩, .inr ⟨batchId, hq⟩⟩
    · rcases h.later_or_dispatched hI hb' with ⟨b, hb, hl⟩ | ⟨_, _, _, _, rfl, rfl⟩
      · exact hl.spent (hspent b hb (hl.messageId ▸ hbm) (hl.id ▸ hne))
      · exact absurd ⟨.inl ⟨_, by rw [← hbm]; rfl⟩, .inr ⟨batchId, hq⟩⟩ (hsep id)

/-- Batches of a process that dispatches none. -/
theorem later_of_not_dispatch (h : Moved s p e s' k) (hI : Inv s)
    (hp : ∀ projectId m t caller, p ≠ .dispatchBatch projectId m t caller) (hb : b' ∈ s'.batches) :
    ∃ b ∈ s.batches, Later b b' := by
  rcases h.later_or_dispatched hI hb with hold | ⟨_, _, _, _, hpe, -⟩
  · exact hold
  · exact absurd hpe (hp _ _ _ _)

/-- The last result of a batch has come in: it was the one batch that was not spent. -/
theorem alone_finished (h : Moved s p e s' k) (hI : Inv s) (hL : Locked s) {batchId : String} {i : ℕ}
    {result : JobResult} (hp : p = .record batchId i result)
    (hc : q.callback = some (b.id, b.messageId)) (hb : b ∈ s.batches) (hns : ¬ b.Spent) (ht : q.token = none) :
    Alone s' q := by
  refine ⟨fun _ _ hq => ?_, fun _ _ hq => ?_⟩
  · rw [Point.claim_of_token_none ht] at hq
    cases hq
  rw [hc] at hq
  cases hq
  refine ⟨fun m' hm' hid => ?_, fun b' hb' hbm hne => ?_⟩
  · obtain ⟨b', hb', hl⟩ := h.later hI hb
    obtain ⟨m, hm, he⟩ := h.origin_of_lt hI hm' (hid ▸ hI.lt_of_batch hb)
    have hkept : m'.delivered = m.delivered ∧ m'.batchId = m.batchId := by
      cases he with
      | keep | scheduled => exact ⟨rfl, rfl⟩
      | claimed hp' | started hp' | released hp' | delivered hp' | cleared hp' =>
        rw [hp] at hp'
        cases hp'
    rw [hkept.1]
    by_cases hund : m.delivered = false
    · refine .inr ⟨b', hb', hl.id, ?_⟩
      rw [LockedBy, hl.id, hl.claimToken, hkept.2]
      by_contra hn
      exact hns (hL.spent m hm hund b hb (hid.symm.trans he.id_eq) hn)
    · exact .inl (by simpa using hund)
  · obtain ⟨b₁, hb₁, hl⟩ := h.later_of_not_dispatch hI (by simp [hp]) hb'
    by_contra hs'
    rw [hl.messageId] at hbm
    exact hne (hl.id.trans (hL.one b₁ hb₁ b hb hbm (fun hs => hs' (hl.spent hs)) hns))

/-- What a process may rely on where it goes on. -/
theorem alone_next (h : Moved s p e s' k) (hI : Inv s) (hK : Knowledge s p) (hL : Locked s) (hA : Alone s p)
    (hk : k = some q) : Alone s' q := by
  cases h.goesOn hk with
  | idle hq => exact hq.alone
  | @claimed projectId caller m hp hq hm hc hrows =>
    subst hp hq
    obtain ⟨hd, hb⟩ := canDispatch_iff.mp hc
    refine ⟨fun id t ht => ?_, fun _ _ hq => by cases hq⟩
    cases ht
    refine ⟨fun m' hm' hid => ?_, fun b' hb' hbm => ?_⟩
    · rw [h.rows, hrows] at hm'
      obtain ⟨m₀, -, rfl⟩ := Table.mem_updateWhere.mp hm'
      by_cases hm₀ : m₀.id = m.id
      · simp [hm₀]
      · simp [hm₀] at hid
    · obtain ⟨b, hb₀, hl⟩ := h.later_of_not_dispatch hI (by simp) hb'
      exact hl.spent (hL.spent m hm hd b hb₀ (hl.messageId ▸ hbm) (by simp [LockedBy, hb]))
  | @found projectId token caller m hp hq hm hs =>
    subst hp hq
    obtain ⟨hrows, hspent⟩ := hA.claim _ _ rfl
    refine ⟨fun id t ht => ?_, fun _ _ hq => by cases hq⟩
    cases ht
    refine ⟨fun m' hm' hid => ?_, fun b' hb' hbm => ?_⟩
    · rw [h.rows, hs] at hm'
      exact hrows m' hm' hid
    · obtain ⟨b, hb, hl⟩ := h.later_of_not_dispatch hI (by simp) hb'
      exact hl.spent (hspent b hb (hl.messageId ▸ hbm))
  | dispatched _ hq | undispatched _ hq | unmarked _ hq | handled _ hq | sent _ hq =>
    subst hq
    exact alone_of_none rfl rfl
  | finished hp ht _ hc hj hr =>
    obtain ⟨hb, -, hji⟩ := job?_some hj
    exact h.alone_finished hI hL hp hc hb (not_spent_of_pending hji hr) ht
  | @called batchId messageId failedJobs hp hq =>
    subst hp hq
    obtain ⟨hrows, hspent⟩ := hA.callback _ _ rfl
    refine ⟨fun _ _ hc => ?_, fun _ _ hq => ?_⟩
    · cases hc
    cases hq
    refine ⟨fun m' hm' hid => ?_, fun b' hb' hbm hne => ?_⟩
    · obtain ⟨m, hm, he⟩ := h.origin_of_lt hI hm' (hid ▸ hK.lt_of_callback hI rfl)
      have hold := hrows m hm (he.id_eq.symm.trans hid)
      cases he with
      | delivered => exact .inl rfl
      | keep | scheduled =>
        refine hold.imp_right fun ⟨b, hb, hbid, hlock⟩ => ?_
        obtain ⟨b', hb', hl⟩ := h.later hI hb
        exact ⟨b', hb', hl.id.trans hbid, by rw [LockedBy, hl.id, hl.claimToken]; exact hlock⟩
      | claimed hp | started hp | released hp | cleared hp => cases hp
    · obtain ⟨b, hb, hl⟩ := h.later_of_not_dispatch hI (by simp) hb'
      exact hl.spent (hspent b hb (hl.messageId ▸ hbm) (hl.id ▸ hne))

/-- No process dispatches a message, or runs callbacks for it, beside one that does. -/
theorem separate_next (h : Moved s p e s' k) (hI : Inv s) (hKq : Knowledge s q) (hAq : Alone s q)
    (hsep : Separate p q) {p' : Point} (hk : k = some p') : Separate p' q := by
  rintro id ⟨hp', hq'⟩
  cases h.goesOn hk with
  | idle hi => exact hi.not_handles hp'
  | @claimed projectId caller m hp hq hm hc =>
    obtain ⟨hd, hb⟩ := canDispatch_iff.mp hc
    subst hp hq
    obtain rfl : m.id = id := by
      rcases hp' with ⟨t, ht⟩ | ⟨batchId, ht⟩ <;> cases ht
      rfl
    rcases hq' with ⟨t, ht⟩ | ⟨batchId, ht⟩
    · rw [(hAq.claim _ _ ht).1 m hm rfl] at hb
      cases hb
    · rcases (hAq.callback _ _ ht).1 m hm rfl with hdel | ⟨b, -, -, hlock⟩
      · rw [hd] at hdel
        cases hdel
      · simp [LockedBy, hb] at hlock
  | found hp hq | called hp hq =>
    subst hp hq
    exact hsep id ⟨hp', hq'⟩
  | dispatched hp hq | undispatched hp hq | unmarked hp hq | handled hp hq | sent hp hq =>
    subst hq
    rcases hp' with ⟨t, ht⟩ | ⟨batchId, ht⟩ <;> cases ht
  | @finished batchId i result b j hp ht hd hc hj hr hs hran =>
    obtain ⟨hb, hbid, hji⟩ := job?_some hj
    have hns := not_spent_of_pending hji hr
    obtain rfl : b.messageId = id := by
      rcases hp' with ⟨t, hcl⟩ | ⟨batchId, hcb⟩
      · rw [Point.claim_of_token_none ht] at hcl
        cases hcl
      · rw [hc] at hcb
        cases hcb
        rfl
    rcases hq' with ⟨t, ht⟩ | ⟨batchId', ht⟩
    · exact hns ((hAq.claim _ _ ht).2 b hb rfl)
    · by_cases hne : b.id = batchId'
      · obtain ⟨b₁, hb₁, hid₁, -, hran₁⟩ := hKq.callback _ _ ht
        obtain rfl := hI.eq_of_batchId hb₁ hb (hid₁.trans hne.symm)
        obtain ⟨r, hr'⟩ := allRan_iff.mp hran₁ j (List.mem_of_getElem? hji)
        rw [hr] at hr'
        cases hr'
      · exact hns ((hAq.callback _ _ ht).2 b hb rfl hne)

end Moved

theorem safeOutline : ApartOutline (program.restrict UnlocksSafely) (fun s => Inv s ∧ Locked s)
    (fun s p => Knowledge s p ∧ Alone s p) (fun p q => Distinct p q ∧ Separate p q) :=
  outline.strengthen
    (fun _ _ h id hpq => h id hpq.symm)
    (fun _ _ _ _ hp => (entry_idle hp).alone)
    (fun _ _ _ _ _ hp _ _ _ hpq => (entry_idle hp).not_handles hpq.1)
    (fun _ _ _ _ _ hI hL hK hA hok h =>
      ⟨(moved h).locked hI hK hL hA hok, fun _ hk => (moved h).alone_next hI hK hL hA hk⟩)
    (fun _ _ _ _ _ _ hI _ _ _ hKq hAq _ hsep _ h => (moved h).separate_next hI hKq hAq hsep rfl)
    fun _ _ _ _ _ _ hI _ hK _ hKq hAq hd hsep hok h => (moved h).alone_frame hI hK hok hKq hAq hd hsep

theorem atMostOnce (hI : Inv s) (hL : Locked s) : AtMostOnce s := by
  rintro messageId userId batchId k batchId' k' ⟨b, hb, rfl, hm, j, hj, hr⟩ ⟨b', hb', rfl, hm', j', hj', hr'⟩
  have hid := hL.one b hb b' hb' (hm.trans hm'.symm) (not_spent_of_delivered hj hr) (not_spent_of_delivered hj' hr')
  obtain rfl := hI.eq_of_batchId hb hb' hid
  obtain ⟨-, -, -, hw⟩ := hI.batches b hb
  refine ⟨rfl, hw.unique hj hj' (hw.reached j (List.mem_of_getElem? hj) _ hr) ?_⟩
  exact hw.reached j' (List.mem_of_getElem? hj') _ hr'

/-! ### Runs -/

/-- **Each recipient at most once**, in a run in which a message that is not delivered
is unlocked only while nothing is dispatched under its claim, or by a batch that
reached nobody. -/
theorem delivered_at_most_once (h : program.Run start tr c) (hok : ∀ st ∈ tr, st.Meets UnlocksSafely) :
    AtMostOnce c.store := by
  have hlocked : Locked start.store := by constructor <;> exact fun _ hm => nomatch hm
  obtain ⟨⟨⟨hI, hL⟩, -⟩, -⟩ := safeOutline.run ⟨⟨inv_start, hlocked⟩, fun _ hp => by cases hp⟩
    (fun _ _ _ _ _ hp => by cases hp) (h.restrict hok)
  exact atMostOnce hI hL

namespace Sample

/-- The first mail is sent; the second fails three times, and its batch is over. -/
def partialFailure : List (Act Point Input) :=
  deliver "batch-1" 0 ++ attempt "batch-1" 1 ++ attempt "batch-1" 1 ++ attempt "batch-1" 1 ++
    [.move 0 (input 3000 "" .returned), .move 0 (input 3000 "" .returned)]

end Sample

def unlocksSafely (st : Step Store Point Input) : Bool :=
  match st.act, st.mover with
  | .move _ e, some (.releaseClaim messageId token _) => decide (e.answer.applies = true → ∀ m ∈ st.pre.store.rows,
      m.id = messageId → m.delivered = false → m.batchId = some token →
        ∀ b ∈ st.pre.store.batches, b.claimToken ≠ token)
  | .move _ e, some (.finallyCallback batchId messageId) => decide (e.answer.applies = true →
      ∀ m ∈ st.pre.store.rows, m.id = messageId → m.delivered = false →
        ∀ b ∈ st.pre.store.batches, b.id = batchId → ∀ j ∈ b.jobs, j.sentTo = none)
  | _, _ => true

theorem unlocksSafely_sound {st : Step Store Point Input} (h : unlocksSafely st = true) :
    st.Meets UnlocksSafely := by
  rintro p e ⟨i, ha, hp⟩
  have hm : st.mover = some p := by simp [Step.mover, ha, hp]
  cases p with
  | releaseClaim | finallyCallback =>
    simp only [unlocksSafely, ha, hm, decide_eq_true_eq] at h
    exact h
  | _ => trivial

def deliveredBy (s : Store) (messageId userId : ℕ) (batchId : String) (k : ℕ) : Bool :=
  s.batches.any fun b => b.id == batchId && b.messageId == messageId &&
    b.jobs[k]?.any fun j => j.sentTo == some userId

theorem delivered_of_deliveredBy {messageId userId k : ℕ} {batchId : String}
    (h : deliveredBy s messageId userId batchId k = true) : Delivered s messageId userId batchId k := by
  obtain ⟨b, hb, h⟩ := List.any_eq_true.mp h
  simp only [Bool.and_eq_true, beq_iff_eq] at h
  obtain ⟨j, hj, hu⟩ := (Option.any_eq_true _ _).mp h.2
  exact ⟨b, hb, h.1.1, h.1.2, j, hj, by simpa using hu⟩

/-- A dispatch fails and its claim is released; the next pass reaches both users. -/
theorem delivered_at_most_once_afterFailure : ∃ tr c, program.Run start tr c ∧
    Delivered c.store 1 1 "batch-2" 0 ∧ Delivered c.store 1 2 "batch-2" 1 ∧ AtMostOnce c.store := by
  obtain ⟨tr, c, h, hc⟩ := program.exists_run_of_replay
    (Sample.schedule ++ Sample.failedPass "claim-1" "batch-1" ++ Sample.pass "claim-2" "batch-2" ++
      Sample.deliver "batch-2" 0 ++ Sample.deliver "batch-2" 1 ++
      [.move 0 (Sample.input 3000 "" .returned), .move 0 (Sample.input 3000 "" .returned)])
    (c := start) (q := fun tr c => tr.all unlocksSafely && deliveredBy c.store 1 1 "batch-2" 0 &&
      deliveredBy c.store 1 2 "batch-2" 1) (by decide)
  simp only [Bool.and_eq_true, List.all_eq_true] at hc
  exact ⟨tr, c, h, delivered_of_deliveredBy hc.1.2, delivered_of_deliveredBy hc.2,
    delivered_at_most_once h fun st hst => unlocksSafely_sound (hc.1.1 st hst)⟩

/-- A mail to two users, of which the second fails: the batch unlocks the message, the
next pass dispatches both jobs again, and the first user is reached a second time. -/
theorem delivered_twice : ∃ tr c, program.Run start tr c ∧ ¬ AtMostOnce c.store := by
  obtain ⟨tr, c, h, hc⟩ := program.exists_run_of_replay
    (Sample.schedule ++ Sample.pass "claim-1" "batch-1" ++ Sample.partialFailure ++
      Sample.pass "claim-2" "batch-2" ++ Sample.deliver "batch-2" 0)
    (c := start) (q := fun _ c => deliveredBy c.store 1 1 "batch-1" 0 && deliveredBy c.store 1 1 "batch-2" 0)
    (by decide)
  simp only [Bool.and_eq_true] at hc
  refine ⟨tr, c, h, fun honce => ?_⟩
  have hb := (honce 1 1 _ _ _ _ (delivered_of_deliveredBy hc.1) (delivered_of_deliveredBy hc.2)).1
  exact absurd hb (by decide)

end Messages
end Daywright
