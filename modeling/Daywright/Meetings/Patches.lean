/-
# Repeating the update of a password

A password cannot be read back, so a recovery that finds the meeting without the
requested fields sends the update again. Before it does it counts an attempt, in a
transaction of its own (`consumeMismatchCycle`): every request of a recovery goes with an
attempt counted after a mismatch, whatever crashes, expires or is taken over
(`sends_le_consumes`, `consumes_le_mismatches`), and there are fewer than the limit
(`consumes_le`).

The attempts of an operation never decrease; they stay within the limit, and the row is
left to manual review at it, as long as the answer of the user's own request is not
recorded once recovery has used them up (`AnsweredInTime`).

Key definitions: `sends`, `consumes`, `findsMismatch`, `AnsweredInTime`.
Key theorems: `passwordOutline`, `patches_of_run`.
-/
import Daywright.Meetings.Attempts

namespace Daywright
namespace Meetings

open Interleave Fence PerformZoomMeetingRecovery ZoomRecoveryPolicy ZoomMeetingUpdatedWebhookChanges

/-! ### The requests and what they go with -/

/-- A recovery of the operation sends an update with a password: the request goes out when
its start has been recorded. -/
def sends (op : Uuid) (_ : Store) (p : Point) (e : Input) : Bool :=
  match p, e.reply with
  | .recovery job (.stampStartedAt _ payload _), .none => job.operationId == op && isPasswordOperation payload
  | _, _ => false

/-- A recovery of the operation counts an attempt and goes on. -/
def consumes (op : Uuid) (s : Store) (p : Point) (e : Input) : Bool :=
  match p, e.reply with
  | .recovery job .consumeMismatchCycle, .none => job.operationId == op && continuesAfterMismatch job s.row e.now
  | _, _ => false

/-- Zoom returns the meeting without the requested fields. -/
def findsMismatch (E : Env) (op : Uuid) (_ : Store) (p : Point) (e : Input) : Bool :=
  match p, e.reply with
  | .recovery job (.fetchZoomMeeting payload), .fetched (some z) =>
    job.operationId == op && !zoomHasRequestedFields E payload z && isPasswordOperation payload
  | _, _ => false

/-- The payload that a recovery of the operation decodes. -/
def Decodes (s : Store) (op : Uuid) (q : Option Fields → Prop) : Prop :=
  KnowsOperation s op fun d => q (if isValidPayloadString d.2 then d.2.bind decodeJsonPayload else none)

/-- A recovery that sends the update sends the payload of its operation; where it has not
counted an attempt, it knows that there is no password in it. -/
def KnowsPayload (s : Store) : Point → Prop
  | .recovery job (.fetchZoomMeeting payload) => Decodes s job.operationId (· = some payload)
  | .recovery job (.withValidatedOperationLock .retryUpdate) =>
    Decodes s job.operationId fun d => ∀ payload, d = some payload → isPasswordOperation payload = false
  | .recovery job (.stampStartedAt _ payload password) =>
    Decodes s job.operationId (· = some payload) ∧ (password = false → isPasswordOperation payload = false)
  | _ => True

variable {E : Env} {s s' : Store} {p r : Point} {e : Input} {k : Option Point} {op : Uuid}

theorem KnowsPayload.frame (hA : Knowledge s p) (h : (program E).move s p e = some (s', k)) {q : Point}
    (hq : KnowsPayload s q) : KnowsPayload s' q := by
  unfold KnowsPayload at hq ⊢
  split
  · exact KnowsOperation.frame hA h hq
  · exact KnowsOperation.frame hA h hq
  · exact ⟨KnowsOperation.frame hA h hq.1, hq.2⟩
  · trivial

/-- A job goes on from its own step, unless it has just been dispatched. -/
theorem Continues.from_recovery {job : RecoverZoomMeetingOperationJob} {stage : Stage}
    (h : Continues E s e p (.recovery job stage)) (hs : stage ≠ .execute) :
    ∃ stage₀, p = .recovery job stage₀ ∧ Next E job s.row e stage₀ stage := by
  cases h with
  | dispatch => exact absurd rfl hs
  | recovery h => exact ⟨_, rfl, h⟩
  | other _ _ hr => exact absurd rfl (hr job stage)

theorem KnowsPayload.next (hI : Inv s) (hB : KnowsPayload s p) (h : Continues E s e p r) : KnowsPayload s r := by
  unfold KnowsPayload
  split
  · rename_i job payload
    obtain ⟨stage, rfl, hn⟩ := h.from_recovery (by simp)
    cases hn with
    | fetch _ ho ht hd => exact .here hI (owns_iff.mp ho).2.2 hd
    | fallback hf => cases hf
  · rename_i job
    obtain ⟨stage, rfl, hn⟩ := h.from_recovery (by simp)
    cases hn with
    | resend payload z hr hz hp =>
      have hB : Decodes s job.operationId (· = some payload) := hB
      refine ⟨hB.1, fun hop payload' hd => ?_⟩
      rwa [Option.some.inj ((hB.2 hop).symm.trans hd)] at hp
    | fallback hf => cases hf
  · rename_i job copy payload password
    obtain ⟨stage, rfl, hn⟩ := h.from_recovery (by simp)
    cases hn with
    | stamp _ ho ht hd =>
      have hB : Decodes s job.operationId fun d => ∀ payload, d = some payload → isPasswordOperation payload = false :=
        hB
      have hop := (owns_iff.mp ho).2.2
      exact ⟨.here hI hop hd, fun _ => hB.2 hop payload hd⟩
    | stampPassword _ ho ht hd => exact ⟨.here hI (owns_iff.mp ho).2.2 hd, by simp⟩
    | fallback hf => cases hf
  · trivial

/-- What a recovery that repeats an update knows of its payload. -/
theorem passwordOutline : Outline (program E) (fun _ _ _ => True) Inv fun s p => Knowledge s p ∧ KnowsPayload s p := by
  refine outline.strengthenProcs (fun s p _ hp => ?_) ?_ ?_
  · unfold KnowsPayload
    split <;> first | cases hp | trivial
  · intro s p e s' q hI hA hB _ h
    exact .frame hA h (.next hI hB (continues h))
  · intro s p e s' k q _ hA _ h _ hq
    exact .frame hA h hq

theorem created_payload (data : MeetingStoreData) (operationId : Uuid) (now : Time) :
    Holds Inv (fun s p => Knowledge s p ∧ KnowsPayload s p) (created data operationId now) := by
  obtain ⟨hI, hA⟩ := created_holds data operationId now
  refine ⟨hI, fun p hp => ⟨hA p hp, ?_⟩⟩
  rw [List.mem_singleton.mp hp]
  trivial

/-! ### A request for an attempt, an attempt for a mismatch -/

variable {data : MeetingStoreData} {op₀ : Uuid} {t₀ : Time} {tr : List (Step Store Point Input)}
  {c : Config Store Point}

/-- An attempt has been counted, and the request has not gone out. -/
def holdsAttempt (op : Uuid) : Point → Bool
  | .recovery job (.withValidatedOperationLock .retryPasswordUpdate) | .recovery job (.stampStartedAt _ _ true) =>
    job.operationId == op
  | _ => false

theorem holdsAttempt_of_sends (hB : KnowsPayload s p) (h : sends op s p e = true) : holdsAttempt op p = true := by
  unfold sends at h
  split at h
  · rename_i job copy payload password hr
    rw [Bool.and_eq_true] at h
    cases password with
    | true => exact h.1
    | false =>
      rw [hB.2 rfl] at h
      cases h.2
  · cases h

theorem earns_attempt (h : Continues E s e p r) (hr : holdsAttempt op r = true) :
    consumes op s p e = true ∨ (holdsAttempt op p = true ∧ sends op s p e = false) := by
  unfold holdsAttempt at hr
  split at hr
  · obtain ⟨stage, rfl, hn⟩ := h.from_recovery (by simp)
    cases hn with
    | consumed hr' hc => exact .inl (by simp [consumes, hr', hr, hc])
    | fallback hf => cases hf
  · obtain ⟨stage, rfl, hn⟩ := h.from_recovery (by simp)
    cases hn with
    | stampPassword => exact .inr ⟨hr, rfl⟩
    | fallback hf => cases hf
  · cases hr

/-- Every request of a recovery goes with an attempt counted before. -/
theorem sends_le_consumes (h : (program E).Run (created data op₀ t₀) tr c) (op : Uuid) :
    tr.countP (·.firing (sends op)) ≤ tr.countP (·.firing (consumes op)) := by
  have enters (p : Point) (hp : p.entry = true) : holdsAttempt op p = false := by
    unfold holdsAttempt
    split <;> first | cases hp | rfl
  have hcount := passwordOutline.credits (holdsAttempt op) (sends op) (consumes op) enters
    (fun _ _ _ _ hA hs => holdsAttempt_of_sends hA.2 hs) (fun _ _ _ _ _ _ _ _ hm hr => earns_attempt (continues hm) hr)
    (created_payload data op₀ t₀) h fun _ _ _ _ _ => trivial
  have h₀ : (created data op₀ t₀).procs.countP (holdsAttempt op) = 0 := rfl
  omega

/-- A mismatch has been found, and no attempt has been counted for it. -/
def holdsMismatch (op : Uuid) : Point → Bool
  | .recovery job .consumeMismatchCycle => job.operationId == op
  | _ => false

theorem earns_mismatch (h : Continues E s e p r) (hr : holdsMismatch op r = true) :
    findsMismatch E op s p e = true := by
  unfold holdsMismatch at hr
  split at hr
  · obtain ⟨stage, rfl, hn⟩ := h.from_recovery (by simp)
    cases hn with
    | mismatch payload z hr' hz hp => simp [findsMismatch, hr', hr, hz, hp]
    | fallback hf => cases hf
  · cases hr

/-- Every attempt counted goes with a mismatch found before. -/
theorem consumes_le_mismatches (h : (program E).Run (created data op₀ t₀) tr c) (op : Uuid) :
    tr.countP (·.firing (consumes op)) ≤ tr.countP (·.firing (findsMismatch E op)) := by
  have enters (p : Point) (hp : p.entry = true) : holdsMismatch op p = false := by
    unfold holdsMismatch
    split
    · cases hp
    · rfl
  have holds (s : Store) (p : Point) (e : Input) (hc : consumes op s p e = true) : holdsMismatch op p = true := by
    unfold consumes at hc
    split at hc
    · rw [Bool.and_eq_true] at hc
      exact hc.1
    · cases hc
  have hcount := outline.credits (holdsMismatch op) (consumes op) (findsMismatch E op) enters
    (fun s p e _ _ => holds s p e) (fun _ _ _ _ _ _ _ _ hm hr => .inl (earns_mismatch (continues hm) hr))
    (created_holds data op₀ t₀) h fun _ _ _ _ _ => trivial
  have h₀ : (created data op₀ t₀).procs.countP (holdsMismatch op) = 0 := rfl
  omega

/-! ### The attempts that are counted -/

/-- What counting an attempt and going on does. -/
theorem consumes_move (h : (program E).move s p e = some (s', k)) (hc : consumes op s p e = true) :
    s.row.syncOperationId = some op ∧ s.row.syncAttempts + 1 < maxAttempts ∧
      s'.row = { s.row with syncAttempts := s.row.syncAttempts + 1 } := by
  unfold consumes at hc
  split at hc
  · rename_i job hr
    simp only [Bool.and_eq_true, beq_iff_eq, continuesAfterMismatch] at hc
    obtain ⟨rfl, ho, hlt⟩ := hc
    obtain ⟨o, ho', -, hrow, -, -⟩ := moved h
    obtain ⟨o₁, ho₁, rfl⟩ := Option.map_eq_some_iff.mp ho'
    simp only [step, run, hr, Option.some.injEq] at ho₁
    subst ho₁
    refine ⟨(owns_iff.mp ho).2.2, by simpa [shouldRetry] using hlt, ?_⟩
    simpa [consumeMismatchCycle, ifOwned, ho, hlt] using hrow
  · cases hc

/-- Fewer attempts than the limit are counted before a request is repeated: each is one
of the row's, as long as it is under the operation. -/
theorem consumes_le (h : (program E).Run (created data op₀ t₀) tr c) (op : Uuid) :
    tr.countP (·.firing (consumes op)) ≤ maxAttempts - 1 := by
  refine (outline.count (consumes op)
    (K := fun n s => n ≤ maxAttempts - 1 ∧ (op ∉ s.issued → n = 0) ∧
      (s.row.syncOperationId = some op → n ≤ s.row.syncAttempts)) (B := fun _ _ _ => True)
    (fun _ _ _ _ _ _ => trivial) (fun n s p e s' k hI hA hn _ _ hm => ⟨?_, fun _ _ => trivial⟩)
    (fun _ _ _ _ _ _ _ _ _ _ _ _ _ _ _ => trivial) (created_holds data op₀ t₀)
    ⟨⟨Nat.zero_le _, fun _ => rfl, fun _ => Nat.zero_le _⟩, fun _ _ => trivial⟩ h fun _ _ _ _ _ => trivial).1.1
  obtain ⟨hmax, hnew, hle⟩ := hn
  have hissued (hnot : op ∉ s'.issued) : op ∉ s.issued := fun hop => hnot (issued_subset hm _ hop)
  by_cases hc : consumes op s p e = true
  · obtain ⟨hop, hlt, hrow⟩ := consumes_move hm hc
    have := hle hop
    rw [if_pos hc, hrow]
    exact ⟨by omega, fun hnot => absurd (hI.operation_issued op hop) (hissued hnot), fun _ => by simpa using this⟩
  · rw [if_neg hc]
    refine ⟨hmax, fun hnot => hnew (hissued hnot), fun hop' => ?_⟩
    rcases (move_effect hA hm).1.operation_mem hop' with hop | hf
    · exact (hle hop).trans ((move_counts hI hA hm).attempts_le hI hop hop')
    · rw [Nat.add_zero, hnew hf.2.2]
      exact Nat.zero_le _

/-! ### The limit -/

/-- The stages that count an attempt. -/
def countsAttempt : Stage → Bool
  | .consumeMismatchCycle | .scheduleRetry _ => true
  | _ => false

/-- A recovery that would reach the limit leaves the update failed, with its operation id
and payload. -/
theorem failed_at_limit {job : RecoverZoomMeetingOperationJob} {stage : Stage}
    (h : (program E).move s (.recovery job stage) e = some (s', k)) (hs : countsAttempt stage = true)
    (hr : e.reply = .none) (ho : owns job s.row e.now = true) (ht : s.row.syncOperationType = some .update)
    (hmax : maxAttempts ≤ s.row.syncAttempts + 1) :
    s'.row.syncStatus = .updateFailed ∧ s'.row.sync.inRecovery = false ∧ SameOperation s.row s'.row := by
  obtain ⟨o, ho', -, hrow, -, -⟩ := moved h
  obtain ⟨o₁, ho₁, rfl⟩ := Option.map_eq_some_iff.mp ho'
  have hno : shouldRetry (s.row.syncAttempts + 1) = false := by simpa [shouldRetry] using hmax
  unfold countsAttempt at hs
  split at hs
  · simp only [step, run, hr, Option.some.injEq] at ho₁
    subst ho₁
    simp only [Outcome.map_written, consumeMismatchCycle, ifOwned, ho, hno] at hrow
    rw [hrow]
    exact ⟨rfl, rfl, rfl⟩
  · simp only [step, run, hr, Option.some.injEq] at ho₁
    subst ho₁
    simp only [Outcome.map_written, Outcome.last_written, scheduleRetry, manualReview, ifOwned, ho, hno, ht] at hrow
    rw [hrow]
    exact ⟨rfl, rfl, by simp [SameOperation, Meeting.sync, Sync.operationRegister, ht]⟩
  · cases hs

/-- Recording this answer of the user's own request leaves the attempts within the limit. -/
def InTime (data : MeetingUpdateData) (m : Meeting) : Reply → Prop
  | .done => UpdateProjectMeeting.isPasswordOperation data = true → m.syncAttempts < maxAttempts
  | .throws .operationUnknown => m.syncAttempts + 1 < maxAttempts
  | .throws (.rateLimit _ _) => True
  | .throws t => t.isZoomException = true → m.syncAttempts < maxAttempts
  | _ => True

instance (data : MeetingUpdateData) (m : Meeting) (reply : Reply) : Decidable (InTime data m reply) := by
  unfold InTime
  split <;> infer_instance

/-- The user's own request is answered before recovery has used up the attempts. -/
def AnsweredInTime (op : Uuid) (s : Store) (p : Point) (e : Input) : Prop :=
  match p with
  | .update (.updateInZoom data operationId) =>
    operationId = op → s.row.syncOperationId = some op → InTime data s.row e.reply
  | _ => True

instance (op : Uuid) (s : Store) (p : Point) (e : Input) : Decidable (AnsweredInTime op s p e) := by
  unfold AnsweredInTime
  split <;> infer_instance

/-- The attempts of an update are within the limit; at the limit recovery is over. -/
def WithinLimit (op : Uuid) (m : Meeting) : Prop :=
  m.syncOperationId = some op → m.syncOperationType = some .update →
    m.syncAttempts ≤ maxAttempts ∧ (m.syncAttempts = maxAttempts → m.sync.inRecovery = false)

/-- The step that reaches the limit leaves the update failed, with its operation id and
payload. -/
def FailsAtLimit (op : Uuid) (m m' : Meeting) : Prop :=
  m.syncOperationId = some op → m.syncOperationType = some .update → m.syncAttempts < maxAttempts →
    maxAttempts ≤ m'.syncAttempts → m'.syncStatus = .updateFailed ∧ SameOperation m m'

theorem InTime.failed {data : MeetingUpdateData} {m : Meeting} {t : Throwable} (h : InTime data m (.throws t))
    (hz : t.isZoomException = true) (hl : ∀ a b, t ≠ .rateLimit a b) : m.syncAttempts < maxAttempts := by
  cases t with
  | operationUnknown => exact Nat.lt_of_succ_lt h
  | rateLimit a b => exact absurd rfl (hl a b)
  | _ => exact h hz

/-- An answer recorded in time counts up to the limit, and fails the update there. -/
theorem answered_in_time {m' : Meeting} (hA : Knowledge s p) (hok : AnsweredInTime op s p e)
    (hop : s.row.syncOperationId = some op) (ht : s.row.syncOperationType = some .update)
    (hp : s.row.syncOperationId = p.awaitsAnswer) (ha : Answered s.row m' p e.reply) :
    m'.syncAttempts < maxAttempts ∨ (m'.syncAttempts = maxAttempts ∧ m'.sync.inRecovery = false ∧
      m'.syncStatus = .updateFailed) := by
  obtain ⟨data, rfl⟩ : ∃ data, p = .update (.updateInZoom data op) := by
    rw [hop] at hp
    unfold Point.awaitsAnswer at hp
    split at hp <;> cases hp
    · exact ⟨_, rfl⟩
    · have htype : s.row.syncOperationType = some .delete := (hA.2 hop).1
      rw [htype] at ht
      cases ht
  have hin := hok rfl hop
  cases ha with
  | done hp hd hr ha =>
    cases hp
    rw [hr] at hin
    exact .inl (ha ▸ hin hd)
  | unknown hr ha =>
    rw [hr] at hin
    exact .inl (ha ▸ hin)
  | failed hr hz hl ha hs hu =>
    have hlt := InTime.failed (hr ▸ hin) hz hl
    rcases Nat.lt_or_eq_of_le (Nat.succ_le_of_lt hlt) with h | h
    · exact .inl (ha ▸ h)
    · exact .inr ⟨ha.trans h, hs, hu ht⟩

variable {m' : Meeting}

/-- The limit is reached by a step that fails the update. -/
theorem Counts.failsAtLimit (h : Counts s p e m') (hI : Inv s) (hA : Knowledge s p) (hok : AnsweredInTime op s p e) :
    FailsAtLimit op s.row m' := by
  intro hop ht hlt hmax
  have creation (hc : s.row.syncStatus.IsCreation) : m'.syncStatus = .updateFailed ∧ SameOperation s.row m' := by
    have htype : s.row.syncOperationType = none := hI.wellFormed.creation hc
    rw [htype] at ht
    cases ht
  cases h with
  | giveUp hc hm ho ha hr hu => exact ⟨hu ht, ho⟩
  | answer hp hop' ho hc' ha =>
    rcases answered_in_time hA hok hop ht hop' ha with h | ⟨-, -, hs⟩
    · omega
    · exact ⟨hs, ho⟩
  | attach hp ho hc => exact creation hc
  | suspect hc => exact creation hc
  | _ => omega

/-- The attempts of an update stay within the limit. -/
theorem Counts.withinLimit (h : Counts s p e m') (hI : Inv s) (hcl : s.row.sync.Claimed) (hA : Knowledge s p)
    (hok : AnsweredInTime op s p e) (hK : WithinLimit op s.row) : WithinLimit op m' := by
  intro hop' ht'
  have before (ho : SameOperation s.row m') :
      s.row.syncOperationId = some op ∧ s.row.syncOperationType = some .update :=
    ⟨ho.operation.symm.trans hop', ho.type.symm.trans ht'⟩
  -- a claim is on a row in recovery, where the limit is not reached
  have claimed (ho : SameOperation s.row m') (hc : s.row.syncClaimToken ≠ none) : s.row.syncAttempts < maxAttempts := by
    obtain ⟨hle, hr⟩ := hK (before ho).1 (before ho).2
    refine Nat.lt_of_le_of_ne hle fun he => ?_
    rw [(hcl hc).1] at hr
    cases hr he
  have below (hlt : m'.syncAttempts < maxAttempts) :
      m'.syncAttempts ≤ maxAttempts ∧ (m'.syncAttempts = maxAttempts → m'.sync.inRecovery = false) :=
    ⟨hlt.le, fun he => absurd he hlt.ne⟩
  have creation (hc : s.row.syncStatus.IsCreation) (ho : SameOperation s.row m') : m'.syncAttempts ≤ maxAttempts ∧
      (m'.syncAttempts = maxAttempts → m'.sync.inRecovery = false) := by
    have htype : s.row.syncOperationType = none := hI.wellFormed.creation hc
    obtain ⟨-, ht⟩ := before ho
    rw [htype] at ht
    cases ht
  cases h with
  | keep hs ha =>
    obtain ⟨hop, ht⟩ := before (.of_sync hs)
    rw [ha, hs]
    exact hK hop ht
  | intend hf ho ha hc => exact below (by rw [ha]; decide)
  | claim hp hd ho ha hc =>
    obtain ⟨hle, hr⟩ := hK (before ho).1 (before ho).2
    refine below (ha ▸ Nat.lt_of_le_of_ne hle fun he => ?_)
    rw [hd] at hr
    cases hr he
  | retry hc hlt ho ha hc' => exact below (ha ▸ hlt)
  | consume hp hc hlt hs ha => exact below (ha ▸ hlt)
  | verify hp hc ho ha hc' => exact below (ha ▸ claimed ho (claimed_of_owns hc))
  | giveUp hc hmax ho ha hr hu => exact ⟨ha ▸ claimed ho hc, fun _ => hr⟩
  | leave ho ha hr =>
    obtain ho | ho := ho
    · rw [ho] at hop'
      cases hop'
    · exact ⟨ha ▸ (hK (before ho).1 (before ho).2).1, fun _ => hr⟩
  | attach hp ho hc => exact creation hc ho
  | answer hp hop ho hc' ha =>
    rcases answered_in_time hA hok (before ho).1 (before ho).2 hop ha with h | ⟨h, hr, -⟩
    · exact below h
    · exact ⟨h.le, fun _ => hr⟩
  | suspect hc hn ho => exact creation hc ho

/-- The attempts stay within the limit where the user's request is answered in time. -/
theorem limitOutline (op : Uuid) : Outline (program E) (AnsweredInTime op)
    (fun s => (Inv s ∧ s.row.sync.Claimed) ∧ WithinLimit op s.row) Knowledge :=
  claimedOutline.strengthenStore (fun _ _ _ _ => trivial) fun _ _ _ _ _ hI hA hK hok h =>
    (move_counts hI.1 hA h).withinLimit hI.1 hI.2 hA hok hK

/-- What a step does with the attempts of the operation. -/
structure KeepsCount (op : Uuid) (st : Step Store Point Input) : Prop where
  /-- Before a repeated request an attempt is committed. -/
  counted : st.firing (consumes op) = true → st.pre.store.row.syncOperationId = some op ∧
    st.post.store.row = { st.pre.store.row with syncAttempts := st.pre.store.row.syncAttempts + 1 }
  /-- The request carries the payload of the operation. -/
  carried : ∀ job copy payload password e, st.Fires (.recovery job (.stampStartedAt copy payload password)) e →
    st.pre.store.row.syncOperationId = some job.operationId →
    decodeValidUpdatePayload st.pre.store.row = some payload
  monotone : st.pre.store.row.syncOperationId = some op → st.post.store.row.syncOperationId = some op →
    st.pre.store.row.syncAttempts ≤ st.post.store.row.syncAttempts
  /-- A recovery that would count the last attempt fails the update, and keeps it. -/
  failed : ∀ job stage e, st.Fires (.recovery job stage) e → countsAttempt stage = true → e.reply = .none →
    owns job st.pre.store.row e.now = true → st.pre.store.row.syncOperationType = some .update →
    maxAttempts ≤ st.pre.store.row.syncAttempts + 1 →
    st.post.store.row.syncStatus = .updateFailed ∧ st.post.store.row.sync.inRecovery = false ∧
      SameOperation st.pre.store.row st.post.store.row

theorem keepsCount (h : (program E).Run (created data op₀ t₀) tr c) (op : Uuid) : ∀ st ∈ tr, KeepsCount op st := by
  intro st hst
  obtain ⟨⟨hI, hA⟩, hs⟩ := passwordOutline.run_pre (created_payload data op₀ t₀) h (fun _ _ _ _ _ => trivial) st hst
  refine ⟨fun hc => ?_, fun job copy payload password e hf hop => ?_, fun hop hop' => ?_, fun job stage e hf => ?_⟩
  · obtain ⟨p, e, hf, hc⟩ := Step.firing_iff.mp hc
    obtain ⟨-, k, hm⟩ := (program E).move_of_fires hs hf
    obtain ⟨hop, -, hrow⟩ := consumes_move hm hc
    exact ⟨hop, hrow⟩
  · obtain ⟨hp, -⟩ := (program E).move_of_fires hs hf
    exact (hA _ hp).2.1.2 hop
  · rcases (program E).step_store hs with hs | ⟨p, e, k, hf, hm⟩
    · exact (congrArg (fun s : Store => s.row.syncAttempts) hs).ge
    · obtain ⟨hp, -⟩ := (program E).move_of_fires hs hf
      exact (move_counts hI (hA p hp).1 hm).attempts_le hI hop hop'
  · obtain ⟨-, k, hm⟩ := (program E).move_of_fires hs hf
    exact failed_at_limit hm

/-- **The updates of a password are repeated a bounded number of times**: in every run
there are fewer requests than the limit, each goes with an attempt counted before it and
each of these with a mismatch found before; and the attempts stay within the limit, and
the update fails there, as long as the user's own request is answered in time. -/
theorem patches_of_run (h : (program E).Run (created data op₀ t₀) tr c) (op : Uuid) :
    tr.countP (·.firing (sends op)) ≤ maxAttempts - 1 ∧
      tr.countP (·.firing (sends op)) ≤ tr.countP (·.firing (consumes op)) ∧
      tr.countP (·.firing (consumes op)) ≤ tr.countP (·.firing (findsMismatch E op)) ∧
      (∀ st ∈ tr, KeepsCount op st) ∧
      ((∀ st ∈ tr, st.Meets (AnsweredInTime op)) →
        WithinLimit op c.store.row ∧ ∀ st ∈ tr, FailsAtLimit op st.pre.store.row st.post.store.row) := by
  have hsends := sends_le_consumes h op
  refine ⟨hsends.trans (consumes_le h op), hsends, consumes_le_mismatches h op, keepsCount h op, fun hok => ?_⟩
  have h₀ : Holds (fun s => (Inv s ∧ s.row.sync.Claimed) ∧ WithinLimit op s.row) Knowledge (created data op₀ t₀) := by
    obtain ⟨hI, hA⟩ := created_claimed data op₀ t₀
    exact ⟨⟨hI, fun _ ht => by cases ht⟩, hA⟩
  refine ⟨((limitOutline op).run h₀ h hok).1.2, fun st hst => ?_⟩
  obtain ⟨⟨⟨⟨hI, -⟩, -⟩, hA⟩, hs⟩ := (limitOutline op).run_pre h₀ h hok st hst
  rcases (program E).step_store hs with hs | ⟨p, e, k, hf, hm⟩
  · intro _ _ hlt hmax
    rw [hs] at hmax
    omega
  · obtain ⟨hp, -⟩ := (program E).move_of_fires hs hf
    exact (move_counts hI (hA p hp) hm).failsAtLimit hI (hA p hp) (hok st hst p e hf)

/-! ### Runs with all attempts used up -/

namespace Sample

/-- A user changes the password; the request is with Zoom. -/
def startPasswordUpdate : List (Act Point Input) :=
  [.arrive (.update (.saveUpdateIntent ⟨none, none, none, none, none, some "changed", none⟩)),
    .move 1 (input 60000 "op-update" .none)]

/-- A recovery claims the operation, finds the old password and counts an attempt. -/
def countMismatch (i : ℕ) (token : Uuid) (now : Time) : List (Act Point Input) :=
  [.arrive .recoverPending, .move i (input now token .none), .move i (input now "" .none),
    .move i (input now "" (.fetched (some zoomMeeting))), .move i (input now "" .none)]

/-- It repeats the request, and leaves the confirmation to the next one. -/
def repeatRequest (i : ℕ) (now : Time) : List (Act Point Input) :=
  [.move i (input now "" .none), .move i (input now "" .none), .move i (input now "" .done),
    .move i (input now "" .none)]

/-- Five recoveries, a minute apart. -/
def useUpAttempts (i : ℕ) (t : Time) : List (Act Point Input) :=
  countMismatch i "token-1" t ++ repeatRequest i t ++
  countMismatch i "token-2" (t + minutes 1) ++ repeatRequest i (t + minutes 1) ++
  countMismatch i "token-3" (t + minutes 2) ++ repeatRequest i (t + minutes 2) ++
  countMismatch i "token-4" (t + minutes 3) ++ repeatRequest i (t + minutes 3) ++
  countMismatch i "token-5" (t + minutes 4)

/-- The user's request is answered at once. -/
def answeredFirst : List (Act Point Input) :=
  establish ++ startPasswordUpdate ++ .move 1 (input 61000 "" .done) :: useUpAttempts 1 130000

/-- The user's request is answered when its lease is over and recovery has given up. -/
def answeredLast : List (Act Point Input) :=
  establish ++ startPasswordUpdate ++ useUpAttempts 2 360000 ++ [.move 1 (input 700000 "" (.throws .operationUnknown))]

end Sample

/-- The bound is reached: four requests, and the limit. -/
theorem patches_of_run_answered : ∃ tr c, (program Sample.env).Run Sample.start tr c ∧
    tr.countP (·.firing (sends "op-update")) = maxAttempts - 1 ∧ c.store.row.syncAttempts = maxAttempts ∧
    WithinLimit "op-update" c.store.row := by
  obtain ⟨tr, c, hrun, hq⟩ := (program Sample.env).exists_run_of_replay Sample.answeredFirst (c := Sample.start)
    (q := fun tr c => decide (∀ st ∈ tr, st.Meets (AnsweredInTime "op-update")) &&
      tr.countP (·.firing (sends "op-update")) == maxAttempts - 1 && c.store.row.syncAttempts == maxAttempts) (by decide)
  simp only [Bool.and_eq_true, decide_eq_true_eq, beq_iff_eq] at hq
  obtain ⟨⟨hok, hsends⟩, hmax⟩ := hq
  exact ⟨tr, c, hrun, hsends, hmax, ((patches_of_run hrun "op-update").2.2.2.2 hok).1⟩

/-- An update that recovery has failed at the limit is counted beyond it, and is open again. -/
theorem attempts_beyond_limit : ∃ tr c, (program Sample.env).Run Sample.start tr c ∧
    c.store.row.syncAttempts = maxAttempts + 1 ∧ c.store.row.syncStatus = .updating ∧
    ¬ WithinLimit "op-update" c.store.row := by
  obtain ⟨tr, c, hrun, hq⟩ := (program Sample.env).exists_run_of_replay Sample.answeredLast (c := Sample.start)
    (q := fun _ c => c.store.row.syncAttempts == maxAttempts + 1 && c.store.row.syncStatus == .updating &&
      c.store.row.syncOperationId == some "op-update" && c.store.row.syncOperationType == some .update) (by decide)
  simp only [Bool.and_eq_true, beq_iff_eq] at hq
  obtain ⟨⟨⟨hmax, hs⟩, hop⟩, ht⟩ := hq
  refine ⟨tr, c, hrun, hmax, hs, fun h => ?_⟩
  have := (h hop ht).1
  omega

end Meetings
end Daywright
