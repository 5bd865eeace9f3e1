/-
# A webhook completes an update only on proof

A meeting.updated webhook that makes a meeting with a pending update Active does
so on an event younger than the last attempt, and on a meeting fetched from Zoom
in the same processing that has every field the update asked for; the update it
completes is the one that was pending when Zoom answered. This holds along every
run without late activations (`completed_on_proof`): after one, a webhook can read
the row while a pending update does not show in its status, and complete the
update on the event alone (`completed_without_proof`).

Key definitions: `Captured`, `CompletedByWebhook`, `OnProof`.
Key theorems: `capturedOutline`, `completed_on_proof`.
-/
import Daywright.Meetings.Coupling

namespace Daywright
namespace Meetings

open Interleave Fence ZoomMeetingUpdatedWebhookChanges ZoomMeetingUpdatedWebhookProcessor
open HandleMeetingUpdatedWebhook ZoomWebhookSupport

variable {E : Env}

/-! ### What a webhook has captured -/

/-- The type and payload belong to an update that the event's changes match. -/
def MatchesEvent (E : Env) (changes : Fields)
    (d : Option MeetingSyncOperationType × Option SyncPayload) : Prop :=
  d.1 = some .update ∧ ∃ payload fields, decodePayload d.2 = .ok (some payload) ∧
    validateMatchingFields E payload changes = some fields

/-- What a webhook knows of the row while it is under the operation it captured. -/
def Captured (E : Env) (s : Store) : Point → Prop
  | .updatedWebhook (.getMeeting _ _ context) =>
    context.needsZoomCheck = true ∧ ∀ op, context.operationId = some op → op ∈ s.issued
  | .updatedWebhook (.process data _ context atFetch) =>
    atFetch.sync.WellFormed ∧ atFetch.sync.Coherent ∧ ∀ op, context.operationId = some op →
      KnowsOperation s op (fun d =>
        atFetch.syncOperationId = some op ∧ d = (atFetch.syncOperationType, atFetch.syncPayload)) ∧
      (context.needsZoomCheck = false → KnowsOperation s op fun d => ¬ MatchesEvent E data.changes d)
  | _ => True

theorem matchesEvent_of_matching {m : Meeting} {changes payload : Fields}
    (ht : m.syncOperationType = some .update)
    (h : matchingOperationFields E m changes = .ok (some payload)) :
    MatchesEvent E changes (m.syncOperationType, m.syncPayload) := by
  have hd := decodePayload_of_matching h
  refine ⟨ht, payload, payload, hd, ?_⟩
  simpa [matchingOperationFields, hd, Except.map] using h

theorem matching_of_matchesEvent {m : Meeting} {changes : Fields}
    (h : MatchesEvent E changes (m.syncOperationType, m.syncPayload)) :
    m.syncOperationType = some .update ∧
      ∃ payload, matchingOperationFields E m changes = .ok (some payload) := by
  obtain ⟨ht, payload, fields, hd, hv⟩ := h
  exact ⟨ht, fields, by simp [matchingOperationFields, hd, Except.map, hv]⟩

/-- A webhook that needs no check of Zoom has found no update its event matches. -/
theorem not_matchesEvent_of_pendingUpdateMatchesEvent {m : Meeting} {changes : Fields}
    (hw : m.sync.WellFormed) (hc : m.sync.Coherent)
    (h : pendingUpdateMatchesEvent E m changes = .ok false) :
    ¬ MatchesEvent E changes (m.syncOperationType, m.syncPayload) := by
  intro hm
  obtain ⟨ht, payload, hp⟩ := matching_of_matchesEvent hm
  have hs := hc.updating hw ht
  have hpend : hasPendingUpdate m = true := hasPendingUpdate_iff.mpr ⟨hs, ht, (hc.update hs).2.1⟩
  simp [pendingUpdateMatchesEvent, hpend, hp, Except.map] at h

variable {s s' : Store} {p : Point} {e : Input} {k : Option Point}

theorem Captured.frame (hA : Knowledge s p) (h : (program E).move s p e = some (s', k)) {q : Point}
    (hq : Captured E s q) : Captured E s' q := by
  unfold Captured at hq ⊢
  split
  · exact ⟨hq.1, fun op ho => issued_subset h _ (hq.2 op ho)⟩
  · refine ⟨hq.1, hq.2.1, fun op ho => ?_⟩
    obtain ⟨h₁, h₂⟩ := hq.2.2 op ho
    exact ⟨h₁.frame hA h, fun hn => (h₂ hn).frame hA h⟩
  · trivial

theorem Captured.of_entry (h : p.entry = true) : Captured E s p := by
  unfold Captured
  split <;> trivial

/-- The context is captured from the row as it is. -/
theorem buildContext_captured {data : MeetingUpdatedWebhookData} {occurredAt : OccurredAt}
    {q : HandleMeetingUpdatedWebhook.Point} (hI : Inv s) (hc : s.row.sync.Coherent)
    (h : (buildContext E s.row data occurredAt).next = some q) : Captured E s (.updatedWebhook q) := by
  unfold buildContext at h
  split at h
  · cases h
  dsimp only at h
  cases hn : (if requiresZoomReconciliation s.row occurredAt = true then Except.ok true
      else pendingUpdateMatchesEvent E s.row data.changes) with
  | error t =>
    rw [hn] at h
    cases h
  | ok needsZoomCheck =>
    rw [hn] at h
    cases needsZoomCheck with
    | true =>
      dsimp only at h
      split at h <;> cases h
      exact ⟨rfl, hI.operation_issued⟩
    | false =>
      cases h
      refine ⟨hI.wellFormed, hc, fun op ho => ⟨.here hI ho ⟨ho, rfl⟩, fun _ => .here hI ho ?_⟩⟩
      split at hn
      · cases hn
      · exact not_matchesEvent_of_pendingUpdateMatchesEvent hI.wellFormed hc hn

/-- Before Zoom is asked there is no meeting from Zoom. -/
theorem buildContext_next {data data' : MeetingUpdatedWebhookData} {occurredAt occurredAt' : OccurredAt}
    {context : MeetingUpdateWebhookContext} {m atFetch : Meeting}
    (h : (buildContext E m data occurredAt).next = some (.process data' occurredAt' context atFetch)) :
    context = captureContext m false := by
  unfold buildContext at h
  split at h
  · cases h
  dsimp only at h
  split at h
  · cases h
  · split at h <;> cases h
  · cases h
    rfl

theorem updatedWebhook_captured {q q' : HandleMeetingUpdatedWebhook.Point}
    {o : Outcome HandleMeetingUpdatedWebhook.Point} (hI : Inv s) (hc : s.row.sync.Coherent)
    (hB : Captured E s (.updatedWebhook q)) (h : HandleMeetingUpdatedWebhook.step E q s.row e = some o)
    (hk : o.next = some q') : Captured E s (.updatedWebhook q') := by
  cases q with
  | handle data occurredAt =>
    cases h
    split at hk
    · exact buildContext_captured hI hc hk
    · cases hk
  | getMeeting data occurredAt context =>
    simp only [HandleMeetingUpdatedWebhook.step] at h
    split at h <;> cases h
    cases hk
    refine ⟨hI.wellFormed, hc, fun op ho => ⟨⟨hB.2 op ho, fun hop => ⟨hop, rfl⟩⟩, fun hn => ?_⟩⟩
    rw [hB.1] at hn
    cases hn
  | process data occurredAt context atFetch =>
    cases h
    cases hk

/-- Only the processing of a meeting.updated event goes on as one. -/
theorem updatedWebhook_origin {o : Outcome Point} {q' : HandleMeetingUpdatedWebhook.Point}
    (ho : act E p s.row e = some o) (hk : o.next = some (.updatedWebhook q')) :
    ∃ q o₁, p = .updatedWebhook q ∧ HandleMeetingUpdatedWebhook.step E q s.row e = some o₁ ∧
      o₁.next = some q' := by
  cases p with
  | updatedWebhook q =>
    obtain ⟨o₁, ho₁, rfl⟩ := Option.map_eq_some_iff.mp ho
    obtain ⟨q'', hq, he⟩ := Option.map_eq_some_iff.mp hk
    cases he
    exact ⟨q, o₁, rfl, ho₁, hq⟩
  | recoverPending =>
    cases ho
    unfold recoverPendingStep at hk
    split at hk
    · obtain ⟨op, -, he⟩ := Option.map_eq_some_iff.mp hk
      cases he
    · cases hk
  | createdWebhook data =>
    cases ho
    cases hk
  | _ =>
    obtain ⟨o₁, -, rfl⟩ := Option.map_eq_some_iff.mp ho
    obtain ⟨r, -, he⟩ := Option.map_eq_some_iff.mp hk
    cases he

theorem Captured.next (hI : Inv s) (hA : Knowledge s p) (hc : s.row.sync.Coherent) (hB : Captured E s p)
    (h : (program E).move s p e = some (s', k)) {r : Point} (hk : k = some r) : Captured E s' r := by
  obtain ⟨o, ho, rfl, -, -, -⟩ := moved h
  cases r with
  | updatedWebhook q' =>
    obtain ⟨q, o₁, rfl, ho₁, hq'⟩ := updatedWebhook_origin ho hk
    exact (updatedWebhook_captured hI hc hB ho₁ hq').frame hA h
  | _ => trivial

/-- Without late activations, a webhook can rely on what it captured. -/
theorem capturedOutline : Outline (program E) (fun s p e => ¬ ActivatesLate s p e)
    (fun s => Inv s ∧ s.row.sync.Coherent) (fun s p => Knowledge s p ∧ Captured E s p) := by
  refine coherentOutline.strengthenProcs (fun _ _ _ hp => .of_entry hp) ?_ ?_
  · intro s p e s' q hI hA hB _ h
    exact Captured.next hI.1 hA hI.2 hB h rfl
  · intro s p e s' k q _ hA _ h _ hq
    exact Captured.frame hA h hq

/-! ### The completion -/

def IsWebhook : Point → Prop
  | .createdWebhook _ | .updatedWebhook _ | .deletedWebhook _ | .startedWebhook _ | .endedWebhook _ => True
  | _ => False

/-- The row carries a pending update, by status and operation. -/
def PendingUpdate (m : Meeting) : Prop :=
  (m.syncStatus = .updating ∨ m.syncStatus = .updateFailed) ∧ m.syncOperationType = some .update ∧
    m.syncOperationId ≠ none

/-- A webhook makes a meeting with a pending update Active. -/
def CompletedByWebhook (st : Step Store Point Input) : Prop :=
  (∃ p e, IsWebhook p ∧ st.Fires p e) ∧ PendingUpdate st.pre.store.row ∧
    st.post.store.row.syncStatus = .active

/-- The proof: the event is younger than the last attempt, and the meeting that
Zoom returned in the same processing, during `tr`, has every field that the
operation asks for; the operation was pending when Zoom answered. -/
def OnProof (E : Env) (tr : List (Step Store Point Input)) (m : Meeting) (p : Point) : Prop :=
  ∃ data t context atFetch z started payload,
    p = .updatedWebhook (.process data (some t) context atFetch) ∧
      (m.syncStartedAt = some started ∧ (started : ℤ) < t) ∧
      (∃ st ∈ tr, ∃ asked e, st.Fires (.updatedWebhook (.getMeeting data (some t) asked)) e ∧
        e.reply = .fetched (some z) ∧ st.pre.store.row = atFetch) ∧
      (decodePayload m.syncPayload = .ok (some payload) ∧ zoomHasRequestedFields E payload z = true) ∧
      (PendingUpdate atFetch ∧ atFetch.syncOperationId = m.syncOperationId ∧
        atFetch.syncPayload = m.syncPayload)

/-- A meeting from Zoom gets into the context only by the answer of `getMeeting`. -/
theorem process_origin {data : MeetingUpdatedWebhookData} {occurredAt : OccurredAt}
    {context : MeetingUpdateWebhookContext} {atFetch : Meeting} {z : ZoomMeeting}
    (h : (program E).move s p e =
      some (s', some (.updatedWebhook (.process data occurredAt context atFetch))))
    (hz : context.zoomMeeting = some z) :
    ∃ asked, p = .updatedWebhook (.getMeeting data occurredAt asked) ∧ e.reply = .fetched (some z) ∧
      s.row = atFetch := by
  obtain ⟨o, ho, hk, -, -, -⟩ := moved h
  obtain ⟨q, o₁, rfl, ho₁, hq⟩ := updatedWebhook_origin ho hk.symm
  cases q with
  | handle data' occurredAt' =>
    cases ho₁
    split at hq
    · rw [buildContext_next hq] at hz
      cases hz
    · cases hq
  | getMeeting data' occurredAt' asked =>
    simp only [HandleMeetingUpdatedWebhook.step] at ho₁
    split at ho₁ <;> cases ho₁
    rename_i z' hr
    cases hq
    cases hz
    exact ⟨asked, rfl, hr, rfl⟩
  | process data' occurredAt' context' atFetch' =>
    cases ho₁
    cases hq

/-- Of the webhooks, only the locked transaction of meeting.updated makes a
pending meeting Active, and only by completing its update. -/
theorem completes_of_active {m' : Meeting} {o : Outcome Point} (hw : IsWebhook p) (hp : PendingUpdate s.row)
    (ho : act E p s.row e = some o) (hm : o.written = some m') (ha : m'.syncStatus = .active) :
    ∃ data occurredAt context atFetch, p = .updatedWebhook (.process data occurredAt context atFetch) ∧
      Completes E s.row data occurredAt context := by
  have changed : m'.sync ≠ s.row.sync := by
    intro hs
    have hs : m'.syncStatus = s.row.syncStatus := congrArg Sync.status hs
    have hpend := hp.1
    rw [← hs, ha] at hpend
    simp at hpend
  cases p with
  | createdWebhook data =>
    cases ho
    obtain ⟨-, hs, -⟩ : s.row.Moves (fun _ => True) m' ∧ _ := HandleMeetingCreatedWebhook.handle_written hm
    rw [ha] at hs
    cases hs
  | updatedWebhook q =>
    obtain ⟨o₁, ho₁, rfl⟩ := Option.map_eq_some_iff.mp ho
    obtain ⟨data, occurredAt, context, atFetch, rfl, hl⟩ := HandleMeetingUpdatedWebhook.step_written ho₁ hm
    obtain ⟨-, hs | hs | ⟨-, hc⟩⟩ := processLockedMeeting_written hl
    · exact absurd hs changed
    · have hs : m'.syncStatus = .deleted := congrArg Sync.status hs
      rw [ha] at hs
      cases hs
    · exact ⟨data, occurredAt, context, atFetch, rfl, hc⟩
  | deletedWebhook q =>
    obtain ⟨o₁, ho₁, rfl⟩ := Option.map_eq_some_iff.mp ho
    obtain ⟨-, hs⟩ : s.row.Moves (fun _ => True) m' ∧ _ := HandleMeetingDeletedWebhook.step_moves ho₁ hm
    rw [ha] at hs
    cases hs
  | startedWebhook q =>
    obtain ⟨o₁, ho₁, rfl⟩ := Option.map_eq_some_iff.mp ho
    exact absurd (runtimeWebhookStep_sync transitionToStarted_sync ho₁ hm).1 changed
  | endedWebhook q =>
    obtain ⟨o₁, ho₁, rfl⟩ := Option.map_eq_some_iff.mp ho
    exact absurd (runtimeWebhookStep_sync transitionToEnded_sync ho₁ hm).1 changed
  | _ => exact hw.elim

/-- A completion by a webhook that relies on what it captured: the meeting it had
fetched proves the update, which was pending then. -/
theorem proof_of_captured {data : MeetingUpdatedWebhookData} {occurredAt : OccurredAt}
    {context : MeetingUpdateWebhookContext} {atFetch : Meeting} (hp : PendingUpdate s.row)
    (hB : Captured E s (.updatedWebhook (.process data occurredAt context atFetch)))
    (hc : Completes E s.row data occurredAt context) :
    ∃ z payload, context.zoomMeeting = some z ∧ decodePayload s.row.syncPayload = .ok (some payload) ∧
      zoomHasRequestedFields E payload z = true ∧ predatesPendingOperation s.row occurredAt = false ∧
      PendingUpdate atFetch ∧ atFetch.syncOperationId = s.row.syncOperationId ∧
      atFetch.syncPayload = s.row.syncPayload := by
  obtain ⟨hfw, hfc, hcap⟩ := hB
  obtain ⟨op, hop⟩ := Option.ne_none_iff_exists'.mp hp.2.2
  have hcop : context.operationId = some op := by
    have := hc.unchanged
    simp only [didNotChange, Bool.and_eq_true, beq_iff_eq] at this
    exact this.1.1.symm.trans hop
  obtain ⟨hsame, hno⟩ := hcap op hcop
  obtain ⟨hfop, hfd⟩ := hsame.2 hop
  have htype : atFetch.syncOperationType = some .update := (congrArg Prod.fst hfd).symm.trans hp.2.1
  obtain ⟨payload, hmatch, hcheck⟩ := hc.payload
  have hneeds : context.needsZoomCheck = true := by
    by_contra hn
    exact (hno (eq_false_of_ne_true hn)).2 hop (matchesEvent_of_matching hp.2.1 hmatch)
  obtain ⟨z, hz, hhas, hpre⟩ := hcheck hneeds
  exact ⟨z, payload, hz, decodePayload_of_matching hmatch, hhas, hpre,
    ⟨hfc.updating hfw htype, htype, by simp [hfop]⟩, hfop.trans hop.symm, (congrArg Prod.snd hfd).symm⟩

theorem created_captured (data : MeetingStoreData) (operationId : Uuid) (now : Time) :
    Holds (fun s => Inv s ∧ s.row.sync.Coherent) (fun s p => Knowledge s p ∧ Captured E s p)
      (created data operationId now) := by
  have h₀ := created_holds data operationId now
  refine ⟨⟨h₀.1, created_coherent data operationId now⟩, fun p hp => ⟨h₀.2 p hp, ?_⟩⟩
  rw [List.mem_singleton.mp hp]
  trivial

/-- **A webhook completes an update only on proof**, in every run without late
activations: `⟨c, a, c'⟩` is the step after the run `tr`. -/
theorem completed_on_proof {data : MeetingStoreData} {operationId : Uuid} {now : Time}
    {tr : List (Step Store Point Input)} {c c' : Config Store Point} {a : Act Point Input}
    (h : (program E).Run (created data operationId now) tr c)
    (hok : ∀ st ∈ tr, st.Meets fun s p e => ¬ ActivatesLate s p e)
    (hs : (program E).step c a = some c') (hc : CompletedByWebhook ⟨c, a, c'⟩) :
    ∃ p e, (⟨c, a, c'⟩ : Step Store Point Input).Fires p e ∧ OnProof E tr c.store.row p := by
  obtain ⟨⟨hI, hcoh⟩, hprocs⟩ := capturedOutline.run (created_captured data operationId now) h hok
  obtain ⟨⟨p, e, hw, hf⟩, hpend, hact⟩ := hc
  obtain ⟨i, rfl, hp⟩ := hf
  obtain ⟨k, hm⟩ := (program E).move_of_step hp hs
  obtain ⟨o, ho, -, hrow, -, -⟩ := moved hm
  have hpm := List.mem_of_getElem? hp
  obtain ⟨m', hwr, rfl⟩ : ∃ m', o.written = some m' ∧ m' = c'.store.row := by
    cases hwr : o.written with
    | none =>
      rw [hwr, Option.getD_none] at hrow
      have hstatus := hpend.1
      rw [← hrow, hact] at hstatus
      simp at hstatus
    | some m' =>
      rw [hwr, Option.getD_some] at hrow
      exact ⟨m', rfl, hrow.symm⟩
  obtain ⟨d, occurredAt, context, atFetch, rfl, hcomp⟩ := completes_of_active hw hpend ho hwr hact
  obtain ⟨z, payload, hz, hpayload, hhas, hpre, hatFetch⟩ := proof_of_captured hpend (hprocs _ hpm).2 hcomp
  obtain ⟨started, hst⟩ := Option.ne_none_iff_exists'.mp hI.started
  obtain ⟨t, rfl⟩ : ∃ t, occurredAt = some t := by
    cases occurredAt with
    | none => cases hcomp.fresh
    | some t => exact ⟨t, rfl⟩
  have hlater : (started : ℤ) < t := by simpa [predatesPendingOperation, hst] using hpre
  refine ⟨_, e, ⟨i, rfl, hp⟩, d, t, context, atFetch, z, started, payload, rfl, ⟨hst, hlater⟩, ?_,
    ⟨hpayload, hhas⟩, hatFetch⟩
  -- The meeting was fetched by the step that led to this process.
  rcases h.origin (program E) hpm with h | h | ⟨st, hmem, p₀, e₀, s₀, hf₀, hm₀⟩
  · cases List.mem_singleton.mp h
  · cases h
  · obtain ⟨asked, rfl, hr, hat⟩ := process_origin hm₀ hz
    exact ⟨st, hmem, asked, e₀, hf₀, hr, hat⟩

/-! ### Runs -/

/-- No step of the run answers the creation. -/
def isCreate : Point → Bool
  | .create _ => true
  | _ => false

theorem meets_of_not_isCreate {st : Step Store Point Input} (h : st.mover.any isCreate = false) :
    st.Meets fun s p e => ¬ ActivatesLate s p e := by
  rintro p e hf ⟨q, z, rfl, -, -⟩
  simp [hf.mover, isCreate] at h

def isProcess : Point → Bool
  | .updatedWebhook (.process _ _ _ _) => true
  | _ => false

/-- The row before and after the last step of a completion. -/
def completes (c : Config Store Point) (i : ℕ) (e : Input) : Bool :=
  c.procs[i]?.any isProcess && c.store.row.syncStatus == .updating &&
    c.store.row.syncOperationType == some .update && c.store.row.syncOperationId.isSome &&
    ((program Sample.env).step c (.move i e)).any fun c' => c'.store.row.syncStatus == .active

theorem completedByWebhook_of_completes {c : Config Store Point} {i : ℕ} {e : Input}
    (h : completes c i e = true) : ∃ c', (program Sample.env).step c (.move i e) = some c' ∧
      CompletedByWebhook ⟨c, .move i e, c'⟩ := by
  simp only [completes, Bool.and_eq_true, beq_iff_eq, Option.isSome_iff_ne_none] at h
  obtain ⟨⟨⟨⟨hp, hs⟩, ht⟩, ho⟩, hstep⟩ := h
  obtain ⟨p, hp, hw⟩ := (Option.any_eq_true _ _).mp hp
  obtain ⟨c', hc', ha⟩ := (Option.any_eq_true _ _).mp hstep
  refine ⟨c', hc', ⟨p, e, ?_, (Step.fires_move hp).mpr ⟨rfl, rfl⟩⟩, ⟨.inl hs, ht, ho⟩, by simpa using ha⟩
  unfold isProcess at hw
  split at hw
  · trivial
  · cases hw

/-- The webhook finds the new topic in Zoom and completes the update. -/
theorem completed_on_proof_topic : ∃ tr c a c', (program Sample.env).Run Sample.start tr c ∧
    (program Sample.env).step c a = some c' ∧ CompletedByWebhook ⟨c, a, c'⟩ ∧
    ∃ p e, (⟨c, a, c'⟩ : Step Store Point Input).Fires p e ∧ OnProof Sample.env tr c.store.row p := by
  obtain ⟨tr, c, h, hq⟩ := (program Sample.env).exists_run_of_replay
    (Sample.establish ++ Sample.startUpdate ++
      [.arrive (.updatedWebhook (.handle topicChanged (some 61000))),
        .move 2 (Sample.input 62000 "" .none),
        .move 2 (Sample.input 63000 "" (.fetched (some { Sample.zoomMeeting with topic := "Retrospective" })))])
    (c := Sample.start)
    (q := fun tr c => tr.all (fun st => !st.mover.any isCreate) &&
      completes c 2 (Sample.input 64000 "" .none))
    (by decide)
  simp only [Bool.and_eq_true, List.all_eq_true, Bool.not_eq_true'] at hq
  obtain ⟨c', hc', hcomp⟩ := completedByWebhook_of_completes hq.2
  exact ⟨tr, c, _, c', h, hc', hcomp,
    completed_on_proof h (fun st hst => meets_of_not_isCreate (hq.1 st hst)) hc' hcomp⟩

/-- After a late activation a webhook reads the row as Active; the update turns out
unknown; and the webhook completes it, on an older event and without asking Zoom. -/
theorem completed_without_proof : ∃ tr c a c', (program Sample.env).Run Sample.start tr c ∧
    (program Sample.env).step c a = some c' ∧ CompletedByWebhook ⟨c, a, c'⟩ ∧
    ¬ ∃ p e, (⟨c, a, c'⟩ : Step Store Point Input).Fires p e ∧ OnProof Sample.env tr c.store.row p := by
  obtain ⟨tr, c, h, hq⟩ := (program Sample.env).exists_run_of_replay
    (Sample.establish ++ Sample.startUpdate ++
      [Sample.answerCreate Sample.zoomMeeting,
        .arrive (.updatedWebhook (.handle topicChanged (some 50000))),
        .move 1 (Sample.input 71000 "" .none),
        .move 0 (Sample.input 72000 "" (.throws .operationUnknown))])
    (c := Sample.start)
    (q := fun tr c => tr.all (fun st => !st.mover.any fun p => match p with
        | .updatedWebhook (.getMeeting _ _ _) => true
        | _ => false) &&
      completes c 0 (Sample.input 73000 "" .none))
    (by decide)
  simp only [Bool.and_eq_true, List.all_eq_true, Bool.not_eq_true'] at hq
  obtain ⟨c', hc', hcomp⟩ := completedByWebhook_of_completes hq.2
  refine ⟨tr, c, _, c', h, hc', hcomp, ?_⟩
  rintro ⟨p, e, -, d, t, context, atFetch, z, started, payload, -, -, ⟨st, hst, asked, e', hf, -⟩, -⟩
  simpa [hf.mover] using hq.1 st hst

end Meetings
end Daywright
