/-
# No webhook is lost

Whatever crashes, expires or gets lost in the queue, a row that is not closed can
be claimed again from some time on, or the next recovery pass closes it; and the
back-off table is read only where it is defined (`never_lost`).

Key definitions: `Kept`, `Closes`.
Key theorem: `never_lost`.
-/
import Daywright.Inbox.Ownership

namespace Daywright
namespace Inbox

open Interleave ZoomWebhookInboxService

variable {r : WebhookInbox} {s : Store} {t : Time} {tr : List (Step Store Point Input)}
  {c : Config Store Point}

/-- The states a row can be in. -/
def Kept (r : WebhookInbox) : Prop :=
  r.state = .completed ∨ r.state = .failed ∨ (r.state = .received ∧ r.attempts < maxAttempts) ∨
    (r.state = .processing ∧ (∃ token, r.claimToken = some token) ∧ (∃ x, r.claimExpiresAt = some x) ∧
      1 ≤ r.attempts ∧ r.attempts ≤ maxAttempts)

theorem kept_of_wellFormed (h : r.WellFormed) : Kept r := by
  cases hs : r.state with
  | received => exact .inr (.inr (.inl ⟨hs, h.received hs⟩))
  | processing =>
    obtain ⟨ha, ht, hx⟩ := h.processing hs
    exact .inr (.inr (.inr ⟨hs, ht, hx, ha, h.bounded⟩))
  | completed => exact .inl hs
  | failed => exact .inr (.inl hs)

/-- A `dispatchRecoverable` pass at `t` closes the row as Failed. -/
def Closes (s : Store) (t : Time) (r : WebhookInbox) : Prop :=
  ∀ limit uuid answer, ∃ s' k,
    program.move s (.dispatchRecoverable limit) ⟨t, uuid, answer⟩ = some (s', k) ∧
      ∃ r' ∈ s'.rows, r'.id = r.id ∧ r'.state = .failed

theorem closes_of_exhausted (hr : r ∈ s.rows) (ht : s.now ≤ t) (hx : exhausted t r = true) :
    Closes s t r := by
  intro limit uuid answer
  refine ⟨_, _, if_neg (by simp [Point.dispatched, Point.drawsUuid, Nat.not_lt.mpr ht]), ?_⟩
  exact ⟨close t r, Table.mem_updateWhere.mpr ⟨r, hr, by rw [if_pos hx]⟩, rfl, rfl⟩

/-- From some time on, the row can be claimed or the next pass closes it. -/
theorem recoverable_from (h : r.WellFormed) (hr : r ∈ s.rows)
    (hs : r.state = .received ∨ r.state = .processing) :
    ∃ T, s.now ≤ T ∧ ∀ t, T ≤ t → r.claimableAt t maxAttempts = true ∨ Closes s t r := by
  rcases hs with hs | hs
  · -- Received: once the back-off is over.
    refine ⟨max s.now (r.availableAt.getD 0), Nat.le_max_left _ _, fun t ht => .inl ?_⟩
    refine claimable_iff.mpr ⟨h.received hs, .inl ⟨hs, fun x hx => ?_⟩⟩
    rw [hx] at ht
    exact Nat.le_trans (Nat.le_max_right _ _) ht
  · -- Processing: once the claim has expired; the last attempt ends in the pass.
    obtain ⟨-, -, x, hx⟩ := h.processing hs
    refine ⟨max s.now x, Nat.le_max_left _ _, fun t ht => ?_⟩
    have hexp : r.processingWithExpiredClaimAt t = true :=
      expired_iff.mpr ⟨hs, x, hx, Nat.le_trans (Nat.le_max_right _ _) ht⟩
    by_cases ha : r.attempts < maxAttempts
    · exact .inl (claimable_iff.mpr ⟨ha, .inr hexp⟩)
    · refine .inr (closes_of_exhausted hr (Nat.le_trans (Nat.le_max_left _ _) ht) ?_)
      simp [exhausted, hexp, Nat.not_lt.mp ha]

/-- The back-off table is defined for every attempt that is retried. -/
theorem retryBackoff_defined {n : ℕ} (h : 1 ≤ n) (hn : shouldRetry n = true) :
    ∃ backoff, retryBackoff.lookup n = some backoff := by
  have : n < 5 := of_decide_eq_true hn
  have : n = 1 ∨ n = 2 ∨ n = 3 ∨ n = 4 := by omega
  rcases this with rfl | rfl | rfl | rfl <;> exact ⟨_, rfl⟩

/-- **No webhook is lost**: in every run every row is closed, or waits with attempts
left, or is claimed; what is not closed can be claimed from some time on or is
closed by the next pass; and a failure finds its back-off. -/
theorem never_lost (h : program.Run start tr c) :
    (∀ r ∈ c.store.rows, Kept r ∧ (r.state = .received ∨ r.state = .processing →
      ∃ T, c.store.now ≤ T ∧ ∀ t, T ≤ t →
        r.claimableAt t maxAttempts = true ∨ Closes c.store t r)) ∧
      ∀ id token n exception, Point.recordProcessingFailure id token n exception ∈ c.procs →
        shouldRetry n = true → ∃ backoff, retryBackoff.lookup n = some backoff := by
  obtain ⟨⟨hI, hA⟩, -⟩ := holds_of_run h
  constructor
  · intro r hr
    have hw : r.WellFormed := hI.rows r hr
    exact ⟨kept_of_wellFormed hw, recoverable_from hw hr⟩
  · intro id token n exception hp
    have hn : 1 ≤ n := ((hA _ hp).attempts n rfl).1
    exact retryBackoff_defined hn

namespace Sample

/-- Five workers claim the row, each after the claim before has expired, and crash. -/
def crashes : List (Act Point Input) :=
  [(1000, "a"), (301000, "b"), (601000, "c"), (901000, "d"), (1201000, "e")].flatMap fun (now, uuid) =>
    [.arrive (.process 1), .move 0 (input now uuid), .crash 0]

end Sample

/-- A row abandoned in its last attempt is closed by a pass. -/
theorem never_lost_crashes : ∃ tr c r, program.Run start tr c ∧ r ∈ c.store.rows ∧
    r.state = .processing ∧ r.attempts = maxAttempts ∧ ∃ T, ∀ t, T ≤ t → Closes c.store t r := by
  obtain ⟨tr, c, h, hc⟩ := program.exists_run_of_replay (Sample.accept ++ Sample.crashes) (c := start)
    (q := fun _ c => c.store.rows.any fun r => r.state == .processing && r.attempts == maxAttempts)
    (by decide)
  obtain ⟨r, hr, hq⟩ := List.any_eq_true.mp hc
  simp only [Bool.and_eq_true, beq_iff_eq] at hq
  obtain ⟨T, -, hT⟩ := ((never_lost h).1 r hr).2 (.inr hq.1)
  refine ⟨tr, c, r, h, hr, hq.1, hq.2, T, fun t ht => (hT t ht).resolve_left fun hcl => ?_⟩
  exact absurd (claimable_iff.mp hcl).1 (by simp [hq.2])

end Inbox
end Daywright
