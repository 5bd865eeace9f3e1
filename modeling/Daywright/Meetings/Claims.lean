/-
# The number of claims

A recovery claims the row before it asks Zoom, and counts its attempt afterwards, in a
transaction that writes nothing once the claim is gone. While no claim is lost the two
go together, and an operation is claimed no more often than the attempt limit before it
leaves automatic recovery (`claims_le_maxAttempts`): each claim but the last comes with an
attempt counted under it. A claim is lost (`losesClaim`) when another takes it over after
its lease, when a webhook attaches the Zoom id, or when the late answer of the user's own
request takes it away; such a claim is not counted, so that a row whose workers die is
claimed again and again (`claims_beyond_limit`).

Key definitions: `claims`, `losesClaim`, `KeepsClaim`, `ClaimsCounted`.
Key theorems: `ClaimsCounted.move`, `claims_le_maxAttempts`.
-/
import Daywright.Meetings.Patches

namespace Daywright
namespace Meetings

open Interleave ZoomRecoveryPolicy PerformZoomMeetingRecovery

/-- Automatic recovery claims the operation. -/
def claims (op : Uuid) (s : Store) (p : Point) (e : Input) : Bool :=
  s.row.syncOperationId == some op && match p with
    | .recoverPending =>
      (RecoverPendingZoomMeetingOperations.claimNextDueOperation s.row e.uuid e.now e.now).written.isSome
    | .ambiguous (.claim _) => (RecoverAmbiguousZoomMeeting.claim s.row e.uuid e.now).written.isSome
    | _ => false

/-- The operation has not left automatic recovery. -/
def Unresolved (op : Uuid) (m : Meeting) : Prop := m.syncOperationId = some op → m.sync.inRecovery = true

/-- The webhook is about this creation, and has a Zoom id for it. -/
def tellsZoomId (data : MeetingCreatedWebhookData) (m : Meeting) : Bool :=
  data.creationSource == some "open_api" && m.syncOperationId == data.operationId &&
    HandleMeetingCreatedWebhook.shouldAttachRemoteId m data

/-- The answer of the user's own request ends the operation, or counts an attempt. -/
def endsOrCounts (password : Bool) (m : Meeting) : Reply → Bool
  | .done => !password
  | .throws .operationUnknown => m.syncAttempts + 1 < maxAttempts
  | _ => true

/-- The step takes a claim on the operation away before it has been counted. -/
def losesClaim (op : Uuid) (s : Store) (p : Point) (e : Input) : Bool :=
  match p with
  | .recoverPending => RecoverPendingZoomMeetingOperations.isDue s.row e.now
  | .ambiguous (.claim _) =>
    s.row.readyForZoomRecoveryAt e.now && RecoverAmbiguousZoomMeeting.claimAvailable s.row e.now
  | .createdWebhook data => tellsZoomId data s.row
  | .update (.updateInZoom data operationId) =>
    operationId == op && !endsOrCounts (UpdateProjectMeeting.isPasswordOperation data) s.row e.reply
  | .delete (.deleteFromZoom operationId) => operationId == op && !endsOrCounts false s.row e.reply
  | _ => false

/-- No claim on the operation is lost. -/
def KeepsClaim (op : Uuid) (s : Store) (p : Point) (e : Input) : Prop :=
  s.row.syncOperationId = some op → s.row.syncClaimToken ≠ none → losesClaim op s p e = false

/-- The attempts that a claim can be set against: the last one is not counted and gone on. -/
def countedAttempts (m : Meeting) : ℕ := min m.syncAttempts (maxAttempts - 1)

/-- Of `n` claims all are counted, but for the one that is held. -/
structure ClaimsCounted (op : Uuid) (n : ℕ) (s : Store) : Prop where
  le : n ≤ maxAttempts
  new : op ∉ s.issued → n = 0
  pending : s.row.syncOperationId = some op → s.row.sync.inRecovery = true →
    n ≤ countedAttempts s.row + if s.row.syncClaimToken = none then 0 else 1

/-- A job has counted its attempt, and repeats the request or postpones its confirmation. -/
def afterCount : Stage → Bool
  | .scheduleVerification _ _ => true
  | stage => stage.repeatsPassword

/-- A job that has counted its attempt knows that its claim is counted. -/
def KnowsCounted (op : Uuid) (n : ℕ) (s : Store) : Point → Prop
  | .recovery job stage => job.operationId = op → afterCount stage = true → job.claimToken ∈ s.issued ∧
    (s.row.syncClaimToken = some job.claimToken → s.row.syncOperationId = some op → n ≤ countedAttempts s.row)
  | _ => True

variable {E : Env} {s s' : Store} {p r : Point} {e : Input} {k : Option Point} {op : Uuid} {n : ℕ}

/-- What a claim does, and what it finds. -/
theorem claims_move (h : (program E).move s p e = some (s', k)) (hc : claims op s p e = true)
    (hk : KeepsClaim op s p e) : s.row.syncOperationId = some op ∧ s.row.syncClaimToken = none ∧
      s'.row.syncClaimToken = some e.uuid ∧ e.uuid ∉ s.issued ∧ s'.row.syncAttempts = s.row.syncAttempts := by
  obtain ⟨o, ho, -, hrow, -, hf⟩ := moved h
  simp only [claims, Bool.and_eq_true, beq_iff_eq] at hc
  obtain ⟨hop, hc⟩ := hc
  split at hc
  · cases ho
    simp only [recoverPendingStep, RecoverPendingZoomMeetingOperations.claimNextDueOperation] at hc hrow
    split at hc
    · rename_i hd
      rw [if_pos hd] at hrow
      rw [Bool.and_eq_true] at hd
      refine ⟨hop, ?_, by rw [hrow]; rfl, hf rfl, by rw [hrow]; rfl⟩
      by_contra hn
      have hnot : RecoverPendingZoomMeetingOperations.isDue s.row e.now = false := hk hop hn
      rw [hd.1] at hnot
      cases hnot
    · cases hc
  · obtain ⟨o₁, ho₁, rfl⟩ := Option.map_eq_some_iff.mp ho
    simp only [RecoverAmbiguousZoomMeeting.step, RecoverAmbiguousZoomMeeting.run,
      RecoverAmbiguousZoomMeeting.claim] at hc ho₁
    split at hc
    · rename_i hd
      rw [if_pos hd] at ho₁
      cases ho₁
      refine ⟨hop, ?_, by rw [hrow]; rfl, hf rfl, by rw [hrow]; rfl⟩
      by_contra hn
      have hnot : (s.row.readyForZoomRecoveryAt e.now &&
          RecoverAmbiguousZoomMeeting.claimAvailable s.row e.now) = false := hk hop hn
      rw [hd] at hnot
      cases hnot
    · cases hc
  · cases hc

theorem countedAttempts_mono {m m' : Meeting} (h : m.syncAttempts ≤ m'.syncAttempts) :
    countedAttempts m ≤ countedAttempts m' := min_le_min_right _ h

theorem countedAttempts_succ {m m' : Meeting} (h : m.syncAttempts + 1 < maxAttempts)
    (ha : m'.syncAttempts = m.syncAttempts + 1) : countedAttempts m' = countedAttempts m + 1 := by
  simp only [countedAttempts, maxAttempts] at *
  omega

/-! ### One step -/

/-- A webhook that takes a claim away has a Zoom id for the creation. -/
theorem tellsZoomId_of_attach {data : MeetingCreatedWebhookData}
    (h : (program E).move s (.createdWebhook data) e = some (s', k)) (hc : s.row.syncClaimToken ≠ none)
    (hc' : s'.row.syncClaimToken = none) : tellsZoomId data s.row = true := by
  obtain ⟨o, ho, -, hrow, -, -⟩ := moved h
  cases ho
  by_contra hn
  suffices hw : (HandleMeetingCreatedWebhook.handle data s.row e.now).written = none by
    rw [Outcome.last_written, hw, Option.getD_none] at hrow
    rw [hrow] at hc'
    exact hc hc'
  unfold HandleMeetingCreatedWebhook.handle HandleMeetingCreatedWebhook.attachRemoteMeetingId
  split_ifs with hopen hop ha
  · rfl
  · rfl
  · refine absurd ?_ hn
    simp only [not_or, not_not, ne_eq] at hopen hop
    simp [tellsZoomId, hopen, hop.2, ha]
  · rfl

/-- The answer of the user's own request, where it keeps the claim. -/
theorem KeepsClaim.answer (h : KeepsClaim op s p e) (hop : s.row.syncOperationId = some op)
    (hc : s.row.syncClaimToken ≠ none) (hp : s.row.syncOperationId = p.awaitsAnswer) :
    ∃ password, endsOrCounts password s.row e.reply = true ∧
      ∀ data operationId, p = .update (.updateInZoom data operationId) →
        password = UpdateProjectMeeting.isPasswordOperation data := by
  have h := h hop hc
  rw [hop] at hp
  unfold Point.awaitsAnswer at hp
  split at hp <;> cases hp
  · refine ⟨_, by simpa [losesClaim] using h, fun data operationId he => ?_⟩
    cases he
    rfl
  · exact ⟨_, by simpa [losesClaim] using h, by simp⟩

/-- An answer that leaves the operation in recovery has counted an attempt, if it takes a
claim away. -/
theorem Answered.counts {m' : Meeting} (h : Answered s.row m' p e.reply) (hk : KeepsClaim op s p e)
    (hop : s.row.syncOperationId = some op) (hc : s.row.syncClaimToken ≠ none)
    (hp : s.row.syncOperationId = p.awaitsAnswer) (hr : m'.sync.inRecovery = true) :
    countedAttempts m' = countedAttempts s.row + 1 := by
  obtain ⟨password, hends, hpassword⟩ := hk.answer hop hc hp
  cases h with
  | done hp hd hreply ha =>
    rw [hreply, hpassword _ _ hp] at hends
    rw [endsOrCounts, hd] at hends
    cases hends
  | unknown hreply ha =>
    rw [hreply] at hends
    exact countedAttempts_succ (of_decide_eq_true hends) ha
  | failed hreply hz hl ha hs hu =>
    rw [hs] at hr
    cases hr

/-- Where no claim is lost, all claims stay counted but for the one that is held. -/
theorem claimsCounted_of_counts {m' : Meeting} (hI : Inv s) (hcounts : Counts s p e m')
    (hattach : ∀ data, p = .createdWebhook data → s.row.syncClaimToken ≠ none → m'.syncClaimToken = none →
      tellsZoomId data s.row = true)
    (hB : KnowsCounted op n s p) (hk : KeepsClaim op s p e) (hop : s.row.syncOperationId = some op)
    (hle : n ≤ countedAttempts s.row + if s.row.syncClaimToken = none then 0 else 1)
    (hop' : m'.syncOperationId = some op) (hr : m'.sync.inRecovery = true) :
    n ≤ countedAttempts m' + if m'.syncClaimToken = none then 0 else 1 := by
  have held : n ≤ countedAttempts s.row + 1 := hle.trans (by split <;> omega)
  have free (hc : s.row.syncClaimToken = none) (ha : s.row.syncAttempts ≤ m'.syncAttempts) :
      n ≤ countedAttempts m' + if m'.syncClaimToken = none then 0 else 1 := by
    rw [if_pos hc] at hle
    exact (hle.trans (countedAttempts_mono ha)).trans (Nat.le_add_right _ _)
  have counted (hs : countedAttempts m' = countedAttempts s.row + 1) :
      n ≤ countedAttempts m' + if m'.syncClaimToken = none then 0 else 1 :=
    (hs ▸ held).trans (Nat.le_add_right _ _)
  have same (ha : m'.syncAttempts = s.row.syncAttempts) : countedAttempts m' = countedAttempts s.row :=
    congrArg (min · (maxAttempts - 1)) ha
  have hmono := hcounts.attempts_le hI hop hop'
  cases hcounts with
  | keep hs ha =>
    rw [same ha, show m'.syncClaimToken = s.row.syncClaimToken from congrArg Sync.claim hs]
    exact hle
  | intend hf ho =>
    have he := Option.some.inj (ho.symm.trans hop')
    exact absurd (hI.operation_issued op hop) (he ▸ hf.2.2)
  | claim hp hd ho ha hc => simpa [same ha, hc] using held
  | retry hc hlt ho ha => exact counted (countedAttempts_succ hlt ha)
  | consume hp hc hlt hs ha => exact counted (countedAttempts_succ hlt ha)
  | verify hp hc ho ha hc' =>
    subst hp
    obtain ⟨hclaim, -, hjob⟩ := owns_iff.mp hc
    have hB := (hB (Option.some.inj (hjob.symm.trans hop)) rfl).2 hclaim hop
    rw [same ha]
    exact hB.trans (Nat.le_add_right _ _)
  | giveUp hc hmax ho ha hr' =>
    rw [hr'] at hr
    cases hr
  | leave ho ha hr' =>
    rw [hr'] at hr
    cases hr
  | attach hp ho ht ha hc' =>
    by_cases hc : s.row.syncClaimToken = none
    · exact free hc hmono
    · subst hp
      have htells := hattach _ rfl hc hc'
      have hnot : tellsZoomId _ s.row = false := hk hop hc
      rw [hnot] at htells
      cases htells
  | answer hp hop₁ ho hc' ha =>
    by_cases hc : s.row.syncClaimToken = none
    · exact free hc hmono
    · exact counted (ha.counts hk hop hc hop₁ hr)
  | suspect ht hc => exact free hc hmono

theorem ClaimsCounted.move (hI : Inv s) (hA : Knowledge s p) (hK : ClaimsCounted op n s) (hB : KnowsCounted op n s p)
    (hin : Unresolved op s.row) (hk : KeepsClaim op s p e) (h : (program E).move s p e = some (s', k)) :
    ClaimsCounted op (n + if claims op s p e then 1 else 0) s' := by
  have hissued (hnot : op ∉ s'.issued) : op ∉ s.issued := fun hop => hnot (issued_subset h _ hop)
  have hcounts := move_counts hI hA h
  by_cases hc : claims op s p e = true
  · obtain ⟨hop, hfree, hclaim, -, ha⟩ := claims_move h hc hk
    have hle := hK.pending hop (hin hop)
    rw [if_pos hfree, Nat.add_zero] at hle
    rw [if_pos hc]
    refine ⟨?_, fun hnot => absurd (hI.operation_issued op hop) (hissued hnot), fun _ _ => ?_⟩
    · have : countedAttempts s.row ≤ maxAttempts - 1 := min_le_right _ _
      have : maxAttempts = 5 := rfl
      omega
    · simpa [countedAttempts, ha, hclaim] using hle
  · rw [if_neg hc, Nat.add_zero]
    refine ⟨hK.le, fun hnot => hK.new (hissued hnot), fun hop' hr => ?_⟩
    rcases hcounts.operation_cases hop' with hop | ⟨hnew, -⟩
    · exact claimsCounted_of_counts hI hcounts (fun data hp => by subst hp; exact tellsZoomId_of_attach h) hB hk hop
        (hK.pending hop (hin hop)) hop' hr
    · rw [hK.new hnew]
      exact Nat.zero_le _

/-- What a job knows of its claim, no step makes false. -/
theorem KnowsCounted.frame (hI : Inv s) (hA : Knowledge s p) (hk : KeepsClaim op s p e)
    (h : (program E).move s p e = some (s', k)) {q : Point} (hq : KnowsCounted op n s q) :
    KnowsCounted op (n + if claims op s p e then 1 else 0) s' q := by
  unfold KnowsCounted at hq ⊢
  split
  · rename_i job stage
    intro hj hs
    obtain ⟨hi, hle⟩ := hq hj hs
    refine ⟨issued_subset h _ hi, fun hc' hop' => ?_⟩
    by_cases hc : claims op s p e = true
    · obtain ⟨-, -, hclaim, hfresh, -⟩ := claims_move h hc hk
      rw [Option.some.inj (hclaim.symm.trans hc')] at hfresh
      exact absurd hi hfresh
    · rw [if_neg hc]
      have hclaim := ((move_effect hA h).1.claim_mem hc').resolve_right fun hf => hf.2.2 hi
      have hcounts := move_counts hI hA h
      rcases hcounts.operation_cases hop' with hop | ⟨-, -, hnone⟩
      · exact (hle hclaim hop).trans (countedAttempts_mono (hcounts.attempts_le hI hop hop'))
      · rw [hnone] at hc'
        cases hc'
  · trivial

/-- A job repeats the request, or postpones its confirmation, once it has counted. -/
theorem afterCount_of_next {job : RecoverZoomMeetingOperationJob} {m : Meeting} {stage stage' : Stage}
    (h : Next E job m e stage stage') (hs : afterCount stage' = true) :
    (stage = .consumeMismatchCycle ∧ e.reply = .none ∧ continuesAfterMismatch job m e.now = true) ∨
      stage.repeatsPassword = true := by
  cases h with
  | consumed hr hc => exact .inl ⟨rfl, hr, hc⟩
  | stampPassword => exact .inr rfl
  | send copy payload password =>
    cases password with
    | true => exact .inr rfl
    | false => cases hs
  | verify => exact .inr rfl
  | fallback hf hv =>
    unfold afterCount at hs
    split at hs
    · exact .inr (hv _ _ rfl)
    · unfold Stage.repeatsPassword at hs
      split at hs <;> first | cases hf | cases hs
  | _ => cases hs

theorem afterCount_of_repeatsPassword {stage : Stage} (h : stage.repeatsPassword = true) : afterCount stage = true := by
  unfold afterCount
  split
  · rfl
  · exact h

theorem KnowsCounted.next (hI : Inv s) (hA : Knowledge s p) (hK : ClaimsCounted op n s) (hB : KnowsCounted op n s p)
    (hin : Unresolved op s.row) (hk : KeepsClaim op s p e) (h : (program E).move s p e = some (s', some r)) :
    KnowsCounted op (n + if claims op s p e then 1 else 0) s' r := by
  cases r with
  | recovery job stage =>
    intro hj hs
    have hne : stage ≠ .execute := by
      rintro rfl
      cases hs
    obtain ⟨stage₀, rfl, hn⟩ := (continues h).from_recovery hne
    rcases afterCount_of_next hn hs with ⟨rfl, hr, hc⟩ | hrepeats
    · have hconsumes : consumes op s (.recovery job .consumeMismatchCycle) e = true := by simp [consumes, hr, hj, hc]
      obtain ⟨hop, hlt, hrow⟩ := consumes_move h hconsumes
      have howns : owns job s.row e.now = true := ((Bool.and_eq_true _ _).mp hc).1
      refine ⟨issued_subset h _ (hI.claim_issued _ (owns_iff.mp howns).1), fun _ _ => ?_⟩
      have hle := hK.pending hop (hin hop)
      rw [if_neg (claimed_of_owns howns)] at hle
      have hnone : claims op s (.recovery job .consumeMismatchCycle) e = false := by simp [claims]
      rw [countedAttempts_succ hlt (by rw [hrow]), hnone]
      exact hle
    · have hq : KnowsCounted op n s (.recovery job stage) := fun _ _ => hB hj (afterCount_of_repeatsPassword hrepeats)
      exact hq.frame hI hA hk h hj hs
  | _ => trivial

/-! ### The bound -/

variable {data : MeetingStoreData} {op₀ : Uuid} {t₀ : Time} {tr : List (Step Store Point Input)}
  {c : Config Store Point}

/-- **Automatic recovery claims an operation no more often than the attempt limit before
the operation leaves it**, where no claim is lost. -/
theorem claims_le_maxAttempts (h : (program E).Run (created data op₀ t₀) tr c) (op : Uuid)
    (hin : ∀ st ∈ tr, Unresolved op st.pre.store.row) (hok : ∀ st ∈ tr, st.Meets (KeepsClaim op)) :
    tr.countP (·.firing (claims op)) ≤ maxAttempts := by
  have hboth : ∀ st ∈ tr, st.Meets fun s p e => Unresolved op s.row ∧ KeepsClaim op s p e :=
    fun st hst p e hf => ⟨hin st hst, hok st hst p e hf⟩
  have O : Outline (program E) (fun s p e => Unresolved op s.row ∧ KeepsClaim op s p e) Inv Knowledge :=
    outline.restrict fun _ _ _ _ => trivial
  refine (O.count (claims op) (K := ClaimsCounted op) (B := KnowsCounted op)
    (fun n s p _ _ hp => ?_)
    (fun n s p e s' k hI hA hK hB hk hm => ⟨hK.move hI hA hB hk.1 hk.2 hm, fun r hr => ?_⟩)
    (fun n s p e s' k r hI hA _ _ hk hm _ hr => hr.frame hI hA hk.2 hm) (created_holds data op₀ t₀)
    ⟨⟨Nat.zero_le _, fun _ => rfl, fun _ _ => Nat.zero_le _⟩, fun p hp => ?_⟩ h hboth).1.le
  · unfold KnowsCounted
    split
    · rename_i job stage
      intro _ hs
      cases stage with
      | execute => cases hs
      | _ => cases hp
    · trivial
  · subst hr
    exact .next hI hA hK hB hk.1 hk.2 hm
  · rw [List.mem_singleton.mp hp]
    trivial

/-! ### Runs of a creation that nobody answers for -/

instance (op : Uuid) (m : Meeting) : Decidable (Unresolved op m) := inferInstanceAs (Decidable (_ → _))

instance (op : Uuid) (s : Store) (p : Point) (e : Input) : Decidable (KeepsClaim op s p e) :=
  inferInstanceAs (Decidable (_ → _ → _))

namespace Sample

/-- A worker claims the creation. -/
def claimCreation (token : Uuid) (now : Time) : List (Act Point Input) :=
  [.arrive (.ambiguous .select), .move 0 (input now "" .none), .move 0 (input now token .none)]

/-- It finds no meeting, and counts the attempt. -/
def searchInVain (token : Uuid) (now : Time) : List (Act Point Input) :=
  claimCreation token now ++ [.move 0 (input now "" (.listed [])), .move 0 (input now "" .none)]

/-- It dies. -/
def claimAndDie (token : Uuid) (now : Time) : List (Act Point Input) := claimCreation token now ++ [.crash 0]

/-- The user's request dies, and the meeting is not in Zoom. -/
def neverCreated : List (Act Point Input) :=
  .crash 0 :: searchInVain "token-1" (minutes 6) ++ searchInVain "token-2" (minutes 8) ++
    searchInVain "token-3" (minutes 14) ++ searchInVain "token-4" (minutes 30) ++ searchInVain "token-5" (minutes 91)

/-- The user's request dies, and so does every worker. -/
def everyWorkerDies : List (Act Point Input) :=
  .crash 0 :: claimAndDie "token-1" (minutes 6) ++ claimAndDie "token-2" (minutes 12) ++
    claimAndDie "token-3" (minutes 18) ++ claimAndDie "token-4" (minutes 24) ++
    claimAndDie "token-5" (minutes 30) ++ claimAndDie "token-6" (minutes 36)

end Sample

/-- The bound is reached: five claims, and manual review. -/
theorem claims_le_maxAttempts_searched : ∃ tr c, (program Sample.env).Run Sample.start tr c ∧
    tr.countP (·.firing (claims "op-create")) = maxAttempts ∧ c.store.row.awaitsManualZoomRecovery = true ∧
    tr.countP (·.firing (claims "op-create")) ≤ maxAttempts := by
  obtain ⟨tr, c, hrun, hq⟩ := (program Sample.env).exists_run_of_replay Sample.neverCreated (c := Sample.start)
    (q := fun tr c => decide (∀ st ∈ tr, Unresolved "op-create" st.pre.store.row) &&
      decide (∀ st ∈ tr, st.Meets (KeepsClaim "op-create")) &&
      tr.countP (·.firing (claims "op-create")) == maxAttempts && c.store.row.awaitsManualZoomRecovery) (by decide)
  simp only [Bool.and_eq_true, decide_eq_true_eq, beq_iff_eq] at hq
  obtain ⟨⟨⟨hin, hok⟩, hclaims⟩, hmanual⟩ := hq
  exact ⟨tr, c, hrun, hclaims, hmanual, claims_le_maxAttempts hrun "op-create" hin hok⟩

/-- A creation is claimed more often than the limit, and no attempt has been counted. -/
theorem claims_beyond_limit : ∃ tr c, (program Sample.env).Run Sample.start tr c ∧
    (∀ st ∈ tr, Unresolved "op-create" st.pre.store.row) ∧ c.store.row.syncAttempts = 0 ∧
    maxAttempts < tr.countP (·.firing (claims "op-create")) := by
  obtain ⟨tr, c, hrun, hq⟩ := (program Sample.env).exists_run_of_replay Sample.everyWorkerDies (c := Sample.start)
    (q := fun tr c => decide (∀ st ∈ tr, Unresolved "op-create" st.pre.store.row) &&
      c.store.row.syncAttempts == 0 && decide (maxAttempts < tr.countP (·.firing (claims "op-create")))) (by decide)
  simp only [Bool.and_eq_true, decide_eq_true_eq, beq_iff_eq] at hq
  obtain ⟨⟨hin, ha⟩, hclaims⟩ := hq
  exact ⟨tr, c, hrun, hin, ha, hclaims⟩

end Meetings
end Daywright
