/-
# The single owner of an inbox row

In every run at most one worker holds a claim of a row that has not expired, rows
change hands and state only as the claim allows, what is closed stays as it is,
and `attempts` counts the claims (`single_owner`).

Key definitions: `HoldsClaim`, `claims`, `Lawful`.
Key theorem: `single_owner`.
-/
import Daywright.Inbox.Outline

namespace Daywright
namespace Inbox

open Interleave ZoomWebhookInboxService

variable {p q : Point} {e : Input} {r r' : WebhookInbox} {s s' : Store} {k : Option Point}
  {tr : List (Step Store Point Input)} {c c' : Config Store Point} {a : Act Point Input}

/-! ### At most one owner -/

/-- A worker that counts on its claim of a row, not expired yet, or whose token
the row carries, not expired yet. -/
def HoldsClaim (s : Store) (p : Point) (id : ℕ) : Prop :=
  (∃ t x, p.lease = some (id, t, x) ∧ s.now < x) ∨
    ∃ t, p.worker = some (id, t) ∧ ∃ r ∈ s.rows, r.id = id ∧ r.unexpiredClaimOwnedBy t s.now = true

theorem HoldsClaim.token {id : ℕ} (hA : Knowledge s p) (h : HoldsClaim s p id) :
    ∃ t, p.worker = some (id, t) ∧ ∃ r ∈ s.rows, r.id = id ∧ r.claimToken = some t := by
  rcases h with ⟨t, x, hl, hx⟩ | ⟨t, hw, r, hr, hid, ho⟩
  · exact ⟨t, Point.worker_of_lease hl, hA.holds id t x hl hx⟩
  · exact ⟨t, hw, r, hr, hid, (unexpired_iff.mp ho).2.1⟩

/-- No two workers hold claims of one row. -/
def Exclusive (c : Config Store Point) : Prop :=
  ∀ id, Apart (fun p q => ¬ (HoldsClaim c.store p id ∧ HoldsClaim c.store q id)) c.procs

theorem exclusive (h : Holds Inv Knowledge c) (hd : Apart Distinct c.procs) : Exclusive c := by
  rintro id i j p q hij hp hq ⟨hcp, hcq⟩
  obtain ⟨t, hwp, r, hr, hid, ht⟩ := hcp.token (h.2 p (List.mem_of_getElem? hp))
  obtain ⟨t', hwq, r', hr', hid', ht'⟩ := hcq.token (h.2 q (List.mem_of_getElem? hq))
  have hrow : r = r' := h.1.eq_of_id hr hr' (hid.trans hid'.symm)
  rw [← hrow, ht] at ht'
  exact hd i j p q hij hp hq id t id t' hwp hwq (Option.some.inj ht')

/-! ### The number of claims -/

/-- The step claims the row. -/
def claims (id : ℕ) (st : Step Store Point Input) : Bool :=
  match st.act, st.mover with
  | .move _ e, some (.process id') =>
    id' == id && (claimForProcessing id e.uuid e.now st.pre.store.rows).2 == 1
  | _, _ => false

theorem claims_process {id : ℕ} {i : ℕ} {id' : ℕ} (hp : c.procs[i]? = some (.process id')) :
    claims id ⟨c, .move i e, c'⟩ =
      (id' == id && c.store.rows.countP (claimable id e.now) == 1) := by
  simp only [claims, Step.mover, hp]
  rfl

theorem claims_other {id : ℕ} {i : ℕ} (hp : c.procs[i]? = some p) (hn : ∀ id, p ≠ .process id) :
    claims id ⟨c, .move i e, c'⟩ = false := by
  unfold claims
  split
  · rename_i j e' id' _ hm
    simp only [Step.mover, hp, Option.some.injEq] at hm
    exact absurd hm (hn id')
  · rfl

theorem countP_claimable {t : Time} (hI : Inv s) (hr : r ∈ s.rows) :
    s.rows.countP (claimable r.id t) = if claimable r.id t r then 1 else 0 := by
  refine Table.countP_of_key hI.ids (fun r' _ h => ?_) hr
  simp only [claimable, Bool.and_eq_true, beq_iff_eq] at h
  exact h.1

theorem Effect.attempts_eq (h : Effect p e r r') (hp : ∀ id, p ≠ .process id) :
    r'.attempts = r.attempts := by
  cases h with
  | claimed hc => exact absurd hc (hp _)
  | _ => rfl

/-- `attempts` is the number of claims so far; a row that is not there was never
claimed. -/
def Counted (tr : List (Step Store Point Input)) (s : Store) : Prop :=
  (∀ r ∈ s.rows, r.attempts = tr.countP (claims r.id)) ∧
    ∀ id, id ∉ s.rows.map (·.id) → tr.countP (claims id) = 0

theorem Counted.process {i id : ℕ} (hI : Inv c.store) (h : Counted tr c.store)
    (hp : c.procs[i]? = some (.process id))
    (hrows : c'.store.rows = (claimForProcessing id e.uuid e.now c.store.rows).1) :
    Counted (tr ++ [⟨c, .move i e, c'⟩]) c'.store := by
  have hids : c'.store.rows.map (·.id) = c.store.rows.map (·.id) := by
    rw [hrows, claimForProcessing, Table.updateWhere, List.map_map]
    refine List.map_congr_left fun r _ => ?_
    simp only [Function.comp_apply]
    split <;> rfl
  refine ⟨fun r' hr' => ?_, fun id' hid' => ?_⟩
  · rw [hrows] at hr'
    obtain ⟨r, hr, rfl⟩ := Table.mem_updateWhere.mp hr'
    have hid : (if claimable id e.now r then claim e.uuid e.now r else r).id = r.id := by
      split <;> rfl
    rw [hid, List.countP_append, List.countP_singleton, claims_process hp, countP_claimable hI hr, ← h.1 r hr]
    by_cases he : id = r.id
    · subst he
      by_cases hc : claimable r.id e.now r <;> simp [hc, claim]
    · have hc : claimable id e.now r = false := by simp [claimable, Ne.symm he]
      simp [hc, he]
  · rw [hids] at hid'
    rw [List.countP_append, h.2 id' hid', List.countP_singleton, claims_process hp]
    have : c.store.rows.countP (claimable id' e.now) = 0 := by
      refine List.countP_eq_zero.mpr fun r hr hc => hid' ?_
      simp only [claimable, Bool.and_eq_true, beq_iff_eq] at hc
      exact hc.1 ▸ List.mem_map_of_mem hr
    simp [this]

theorem Counted.other {st : Step Store Point Input} (h : Counted tr s)
    (hs : Table.Step (fun r r' => r'.id = r.id ∧ r'.attempts = r.attempts)
      (fun r => r.attempts = 0 ∧ r.id ∉ s.rows.map (·.id)) s.rows s'.rows)
    (hc : ∀ id, claims id st = false) : Counted (tr ++ [st]) s' := by
  have hcount (id : ℕ) : (tr ++ [st]).countP (claims id) = tr.countP (claims id) := by
    simp [List.countP_append, hc id]
  refine ⟨fun r' hr' => ?_, fun id hid => ?_⟩
  · rw [hcount]
    rcases hs.origin (fun _ => ⟨rfl, rfl⟩) hr' with ⟨r, hr, hid, ha⟩ | ⟨ha, hn⟩
    · rw [ha, hid]
      exact h.1 r hr
    · rw [ha, h.2 _ hn]
  · rw [hcount]
    refine h.2 id fun hm => hid ?_
    obtain ⟨r, hr, rfl⟩ := List.mem_map.mp hm
    obtain ⟨r', hr', he, -⟩ := hs.next (fun _ => ⟨rfl, rfl⟩) hr
    exact he ▸ List.mem_map_of_mem hr'

theorem counted (h : program.Run start tr c) : Counted tr c.store := by
  induction h with
  | nil => exact ⟨by simp [start], by simp⟩
  | @snoc tr c c' a hr hs ih =>
    have hI := (holds_of_run hr).1.1
    rcases program.step_cases hs with ⟨p, rfl, -, rfl⟩ | ⟨i, rfl, rfl⟩ | ⟨i, e, p, s, k, rfl, hp, hm, rfl, -⟩
    · exact ih.other (.keep fun _ => ⟨rfl, rfl⟩) fun _ => rfl
    · exact ih.other (.keep fun _ => ⟨rfl, rfl⟩) fun _ => rfl
    · by_cases hproc : ∃ id, p = .process id
      · obtain ⟨id, rfl⟩ := hproc
        refine ih.process hI hp ?_
        rw [(moved hm).rows]
        simp only [act]
        split <;> rfl
      · have hn : ∀ id, p ≠ .process id := fun id he => hproc ⟨id, he⟩
        refine ih.other ((move_step hm).mono (fun r _ r' he => ⟨he.id_eq, he.attempts_eq hn⟩) ?_)
          fun id => claims_other hp hn
        intro r hr
        obtain ⟨d, -, -, rfl⟩ := id hr
        exact ⟨rfl, hr.id_not_mem⟩

/-! ### What a step may do -/

/-- What the step may do to a row, after the run `tr`. -/
structure Lawful (tr : List (Step Store Point Input)) (st : Step Store Point Input)
    (r r' : WebhookInbox) : Prop where
  /-- Completed and Failed are terminal. -/
  terminal : r.state = .completed ∨ r.state = .failed → r' = r
  /-- A row that is moved to Completed, Received or Failed is moved by the worker
  whose unexpired token it carries, or closed after its last claim expired. -/
  owned : r' ≠ r → r'.state ≠ .processing → ∃ p e, st.Fires p e ∧
    ((∃ t, p.worker = some (r.id, t) ∧ r.unexpiredClaimOwnedBy t e.now = true) ∨
      (∃ limit, p = .dispatchRecoverable limit ∧ r'.state = .failed ∧ exhausted e.now r = true))
  /-- The handler returned in the attempt that completes the row. -/
  handled : r' ≠ r → r'.state = .completed → ∃ t claimed, r.claimToken = some t ∧
    ∃ st' ∈ tr, ∃ e, st'.Fires (.execute r.id t claimed) e ∧
      HandlePersistedZoomWebhookAction.execute claimed e.answer = .returned

theorem Effect.terminal (h : Effect p e r r') (hs : r.state = .completed ∨ r.state = .failed) : r' = r := by
  have hn : r.state ≠ .processing ∧ r.state ≠ .received := by rcases hs with hs | hs <;> simp [hs]
  cases h with
  | keep => rfl
  | claimed _ hc =>
    rcases (claimable_iff.mp hc).2 with ⟨hr, -⟩ | he
    · exact absurd hr hn.2
    · exact absurd (expired_iff.mp he).1 hn.1
  | completed _ _ _ ho => exact absurd (unexpired_iff.mp ho).1 hn.1
  | gaveBack _ _ _ _ _ ho => exact absurd (unexpired_iff.mp ho).1 hn.1
  | closed _ _ hx =>
    simp only [exhausted, Bool.and_eq_true] at hx
    exact absurd (expired_iff.mp hx.1).1 hn.1

/-- A worker gets to complete its row only when the handler has returned. -/
theorem handler_returned {id : ℕ} {t : Uuid} {claimed : WebhookInbox}
    (h : program.move s p e = some (s', some (.completeActiveClaim id t claimed))) :
    p = .execute id t claimed ∧ HandlePersistedZoomWebhookAction.execute claimed e.answer = .returned := by
  cases next_of_act (moved h).next.symm with
  | idle hw => cases hw
  | returned _ _ _ hp hret => exact ⟨hp, hret⟩

theorem lawful_move (h : program.Run start tr c) {i : ℕ} (hp : c.procs[i]? = some p)
    (he : Effect p e r r') : Lawful tr ⟨c, .move i e, c'⟩ r r' := by
  have hf : (⟨c, .move i e, c'⟩ : Step Store Point Input).Fires p e := ⟨i, rfl, hp⟩
  refine ⟨he.terminal, fun hne hs => ⟨p, e, hf, ?_⟩, fun hne hs => ?_⟩
  · cases he with
    | keep => exact absurd rfl hne
    | claimed => exact absurd rfl hs
    | completed t cl hpe ho => exact .inl ⟨t, by rw [hpe]; rfl, ho⟩
    | gaveBack t n x retry hpe ho => exact .inl ⟨t, by rw [hpe]; rfl, ho⟩
    | closed limit hpe hx => exact .inr ⟨limit, hpe, rfl, hx⟩
  · cases he with
    | keep => exact absurd rfl hne
    | claimed => cases hs
    | completed t cl hpe ho =>
      refine ⟨t, cl, (unexpired_iff.mp ho).2.1, ?_⟩
      subst hpe
      rcases h.origin _ (List.mem_of_getElem? hp) with hq | hq | ⟨st, hst, p, e', s, hfst, hm⟩
      · cases hq
      · cases hq
      · obtain ⟨rfl, hret⟩ := handler_returned hm
        exact ⟨st, hst, e', hfst, hret⟩
    | gaveBack t n x retry hpe ho =>
      simp only [giveBack] at hs
      split at hs <;> cases hs
    | closed => cases hs

theorem lawful (h : program.Run start tr c) (hs : program.step c a = some c') (hr : r ∈ c.store.rows) :
    ∃ r' ∈ c'.store.rows, r'.id = r.id ∧ Lawful tr ⟨c, a, c'⟩ r r' := by
  have keep {st : Step Store Point Input} : Lawful tr st r r :=
    ⟨fun _ => rfl, fun hn => absurd rfl hn, fun hn => absurd rfl hn⟩
  rcases program.step_cases hs with ⟨p, rfl, -, rfl⟩ | ⟨i, rfl, rfl⟩ | ⟨i, e, p, s, k, rfl, hp, hm, rfl, -⟩
  · exact ⟨r, hr, rfl, keep⟩
  · exact ⟨r, hr, rfl, keep⟩
  · obtain ⟨r', hr', he⟩ := (move_step hm).next (fun _ => .keep) hr
    exact ⟨r', hr', he.id_eq, lawful_move h hp he⟩

/-- **The single owner of a row**: in every run at most one worker holds a claim of
a row that has not expired, an event has one row, `attempts` counts the claims and
stays within five, and every further step is lawful to every row. -/
theorem single_owner (h : program.Run start tr c) :
    Exclusive c ∧ (c.store.rows.map fun r => (r.provider, r.eventKey)).Nodup ∧
      (∀ r ∈ c.store.rows, r.attempts = tr.countP (claims r.id) ∧ r.attempts ≤ maxAttempts) ∧
      ∀ a c', program.step c a = some c' → ∀ r ∈ c.store.rows, ∃ r' ∈ c'.store.rows, r'.id = r.id ∧
        Lawful tr ⟨c, a, c'⟩ r r' := by
  obtain ⟨hc, hd⟩ := holds_of_run h
  refine ⟨exclusive hc hd, hc.1.events, fun r hr => ?_, fun a c' hs r hr => lawful h hs hr⟩
  have hcount : r.attempts = tr.countP (claims r.id) := (counted h).1 r hr
  exact ⟨hcount, (hc.1.rows r hr).bounded⟩

/-! ### A claim taken over -/

namespace Sample

def delivery : Delivery := ⟨"3f1c", "meeting.updated", "request-1", some 1767261600000⟩

def input (now : Time) (uuid : Uuid) : Input := ⟨now, uuid, .returned⟩

/-- The event is accepted and its job dispatched. -/
def accept : List (Act Point Input) :=
  [.arrive (.accept delivery), .move 0 (input 0 ""), .move 0 (input 0 ""), .move 0 (input 0 ""),
    .move 0 (input 0 "")]

/-- A first worker hangs in the handler until its claim has expired; a second one
claims the row and completes it before the first is back. -/
def takeOver : List (Act Point Input) :=
  [.arrive (.process 1), .move 0 (input 1000 "first"), .move 0 (input 1000 ""),
    .arrive (.process 1), .move 1 (input 301000 "second"), .move 1 (input 301000 ""),
    .move 1 (input 302000 ""), .move 1 (input 302000 ""), .move 0 (input 303000 ""),
    .move 0 (input 303000 "")]

end Sample

/-- Two claims, and the row is completed once, by the second. -/
theorem single_owner_takeOver : ∃ tr c r, program.Run start tr c ∧ r ∈ c.store.rows ∧
    r.state = .completed ∧ r.completedAt = some 302000 ∧ tr.countP (claims r.id) = 2 ∧ Exclusive c := by
  obtain ⟨tr, c, h, hc⟩ := program.exists_run_of_replay (Sample.accept ++ Sample.takeOver) (c := start)
    (q := fun _ c => c.store.rows.any fun r =>
      r.state == .completed && r.completedAt == some 302000 && r.attempts == 2)
    (by decide)
  obtain ⟨r, hr, hq⟩ := List.any_eq_true.mp hc
  simp only [Bool.and_eq_true, beq_iff_eq] at hq
  obtain ⟨hx, -, hn, -⟩ := single_owner h
  exact ⟨tr, c, r, h, hr, hq.1.1, hq.1.2, (hn r hr).1 ▸ hq.2, hx⟩

end Inbox
end Daywright
