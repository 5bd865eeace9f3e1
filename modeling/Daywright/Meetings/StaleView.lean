/-
# A webhook that acts on a stale view never writes

Between the read of the row and the locked transaction of a meeting.updated event
anything may happen to the row. The transaction compares operation id, cutoff and
watermark with those it captured. While the status goes with the operation this is
enough: the type and payload of an operation never change under its id, so the
row as it is then would have asked Zoom exactly if the row as it was did. So what
is written is what the whole processing, run at the moment of the lock, would have
written (`as_if_alone`). After a late activation it is not (`not_as_if_alone`).

Key definitions: `needsZoomCheck`, `Seen`, `AsIfAlone`.
Key theorems: `needsZoomCheck_of_seen`, `seenOutline`, `as_if_alone`.
-/
import Daywright.Meetings.Completion

namespace Daywright
namespace Meetings

open Interleave Fence ZoomMeetingUpdatedWebhookChanges ZoomMeetingUpdatedWebhookProcessor
open HandleMeetingUpdatedWebhook ZoomWebhookSupport

variable {E : Env}

/-! ### Whether Zoom is asked -/

/-- The test of `buildContext`. -/
def needsZoomCheck (E : Env) (m : Meeting) (changes : Fields) (occurredAt : OccurredAt) :
    Except Throwable Bool :=
  if requiresZoomReconciliation m occurredAt then .ok true else pendingUpdateMatchesEvent E m changes

/-- The test of a pending update, on the type and payload of the operation alone. -/
def operationMatchesEvent (E : Env) (changes : Fields)
    (d : Option MeetingSyncOperationType × Option SyncPayload) : Except Throwable Bool :=
  if d.1 = some .update then
    (decodePayload d.2).map fun payload =>
      (payload.bind fun payload => validateMatchingFields E payload changes).isSome
  else .ok false

/-- While the status goes with the operation, the operation decides. -/
theorem pendingUpdateMatchesEvent_eq {m : Meeting} {changes : Fields} (hw : m.sync.WellFormed)
    (hc : m.sync.Coherent) : pendingUpdateMatchesEvent E m changes =
      operationMatchesEvent E changes (m.syncOperationType, m.syncPayload) := by
  by_cases ht : m.syncOperationType = some .update
  · have hs := hc.updating hw ht
    have hp : hasPendingUpdate m = true := hasPendingUpdate_iff.mpr ⟨hs, ht, (hc.update hs).2.1⟩
    simp only [pendingUpdateMatchesEvent, hp, if_true, operationMatchesEvent, ht, matchingOperationFields]
    cases decodePayload m.syncPayload <;> rfl
  · have hp : hasPendingUpdate m = false := by
      by_contra h
      exact ht (hasPendingUpdate_iff.mp (eq_true_of_ne_false h)).2.1
    simp [pendingUpdateMatchesEvent, hp, operationMatchesEvent, ht]

/-! ### What a webhook has seen -/

/-- The context was captured from a row `seen`; as long as the row is under the
operation it had then, the operation is the same. -/
structure Seen (E : Env) (s : Store) (data : MeetingUpdatedWebhookData) (occurredAt : OccurredAt)
    (context : MeetingUpdateWebhookContext) (seen : Meeting) : Prop where
  wellFormed : seen.sync.WellFormed
  coherent : seen.sync.Coherent
  needs : needsZoomCheck E seen data.changes occurredAt = .ok context.needsZoomCheck
  operationId : context.operationId = seen.syncOperationId
  reconcileBefore : context.reconcileBefore = seen.syncReconcileBeforeAt
  watermark : context.providerWatermark = seen.lastZoomEventTimestamp
  unasked : context.needsZoomCheck = false → context.zoomMeeting = none
  meetingId : s.row.meetingId = some data.meetingId
  operation : ∀ op, seen.syncOperationId = some op →
    KnowsOperation s op fun d => d = (seen.syncOperationType, seen.syncPayload)

def HasSeen (E : Env) (s : Store) : Point → Prop
  | .updatedWebhook (.getMeeting data occurredAt context) =>
    context.needsZoomCheck = true ∧ ∃ seen, Seen E s data occurredAt context seen
  | .updatedWebhook (.process data occurredAt context _) => ∃ seen, Seen E s data occurredAt context seen
  | _ => True

/-- On a row that did not change by the code's own test, the webhook would ask Zoom
exactly if it did. -/
theorem needsZoomCheck_of_seen {s : Store} {data : MeetingUpdatedWebhookData} {occurredAt : OccurredAt}
    {context : MeetingUpdateWebhookContext} {seen : Meeting} (hw : s.row.sync.WellFormed)
    (hc : s.row.sync.Coherent) (hs : Seen E s data occurredAt context seen)
    (hd : didNotChange s.row context = true) :
    needsZoomCheck E s.row data.changes occurredAt = .ok context.needsZoomCheck := by
  simp only [didNotChange, Bool.and_eq_true, beq_iff_eq] at hd
  obtain ⟨⟨hop, hrec⟩, hlast⟩ := hd
  have hrequires : requiresZoomReconciliation s.row occurredAt = requiresZoomReconciliation seen occurredAt := by
    unfold requiresZoomReconciliation
    rw [hrec, hlast, hs.reconcileBefore, hs.watermark]
  have hoperation : (s.row.syncOperationType, s.row.syncPayload) = (seen.syncOperationType, seen.syncPayload) := by
    cases hso : seen.syncOperationId with
    | some op => exact (hs.operation op hso).2 (hop.trans (hs.operationId.trans hso))
    | none =>
      have hto : s.row.syncOperationType = none :=
        hw.type_of_operation (hop.trans (hs.operationId.trans hso))
      have hts : seen.syncOperationType = none := hs.wellFormed.type_of_operation hso
      have hpo : s.row.syncPayload = none := hw.payload_of_type hto
      have hps : seen.syncPayload = none := hs.wellFormed.payload_of_type hts
      rw [hto, hts, hpo, hps]
  rw [← hs.needs]
  unfold needsZoomCheck
  rw [hrequires, pendingUpdateMatchesEvent_eq hw hc, pendingUpdateMatchesEvent_eq hs.wellFormed hs.coherent,
    hoperation]

variable {s s' : Store} {p : Point} {e : Input} {k : Option Point}

theorem Effect.meetingId {m' : Meeting} {id : ZoomId} (h : Effect s p e m') (hi : s.row.meetingId = some id) :
    m'.meetingId = some id := by
  rcases h with ⟨-, h, -⟩ | ⟨-, h, -⟩ | ⟨-, -, h⟩
  · exact h.meetingId hi
  · exact h.meetingId hi
  · exact h.meetingId hi

theorem Seen.frame {data : MeetingUpdatedWebhookData} {occurredAt : OccurredAt}
    {context : MeetingUpdateWebhookContext} {seen : Meeting} (hA : Knowledge s p)
    (h : (program E).move s p e = some (s', k)) (hs : Seen E s data occurredAt context seen) :
    Seen E s' data occurredAt context seen :=
  { hs with
    meetingId := (move_effect hA h).1.meetingId hs.meetingId
    operation := fun op ho => (hs.operation op ho).frame hA h }

theorem HasSeen.frame (hA : Knowledge s p) (h : (program E).move s p e = some (s', k)) {q : Point}
    (hq : HasSeen E s q) : HasSeen E s' q := by
  unfold HasSeen at hq ⊢
  split
  · exact ⟨hq.1, hq.2.imp fun _ hs => hs.frame hA h⟩
  · exact hq.imp fun _ hs => hs.frame hA h
  · trivial

theorem HasSeen.of_entry (h : p.entry = true) : HasSeen E s p := by
  unfold HasSeen
  split
  · cases h
  · cases h
  · trivial

/-- The context is captured from the row as it is. -/
theorem buildContext_seen {data : MeetingUpdatedWebhookData} {occurredAt : OccurredAt}
    {q : HandleMeetingUpdatedWebhook.Point} (hI : Inv s) (hc : s.row.sync.Coherent)
    (hid : s.row.meetingId = some data.meetingId)
    (h : (buildContext E s.row data occurredAt).next = some q) : HasSeen E s (.updatedWebhook q) := by
  have seen (needs : Bool) (hn : needsZoomCheck E s.row data.changes occurredAt = .ok needs) :
      Seen E s data occurredAt (captureContext s.row needs) s.row :=
    ⟨hI.wellFormed, hc, hn, rfl, rfl, rfl, fun _ => rfl, hid, fun op ho => .here hI ho rfl⟩
  unfold buildContext at h
  split at h
  · cases h
  dsimp only at h
  have hcheck : (if requiresZoomReconciliation s.row occurredAt = true then .ok true
      else pendingUpdateMatchesEvent E s.row data.changes) = needsZoomCheck E s.row data.changes occurredAt := rfl
  rw [hcheck] at h
  cases hn : needsZoomCheck E s.row data.changes occurredAt with
  | error t =>
    rw [hn] at h
    cases h
  | ok needs =>
    rw [hn] at h
    cases needs with
    | true =>
      dsimp only at h
      split at h <;> cases h
      exact ⟨rfl, s.row, seen true hn⟩
    | false =>
      cases h
      exact ⟨s.row, seen false hn⟩

theorem updatedWebhook_seen {q q' : HandleMeetingUpdatedWebhook.Point}
    {o : Outcome HandleMeetingUpdatedWebhook.Point} (hI : Inv s) (hc : s.row.sync.Coherent)
    (hB : HasSeen E s (.updatedWebhook q)) (h : HandleMeetingUpdatedWebhook.step E q s.row e = some o)
    (hk : o.next = some q') : HasSeen E s (.updatedWebhook q') := by
  cases q with
  | handle data occurredAt =>
    cases h
    split at hk
    · rename_i hid
      exact buildContext_seen hI hc (by simpa [Meeting.sameMeetingId] using hid) hk
    · cases hk
  | getMeeting data occurredAt context =>
    simp only [HandleMeetingUpdatedWebhook.step] at h
    split at h <;> cases h
    cases hk
    obtain ⟨hn, seen, hs⟩ := hB
    refine ⟨seen, { hs with unasked := fun hf => ?_ }⟩
    rw [hn] at hf
    cases hf
  | process data occurredAt context atFetch =>
    cases h
    cases hk

theorem HasSeen.next (hI : Inv s) (hA : Knowledge s p) (hc : s.row.sync.Coherent) (hB : HasSeen E s p)
    (h : (program E).move s p e = some (s', k)) {r : Point} (hk : k = some r) : HasSeen E s' r := by
  obtain ⟨o, ho, rfl, -, -, -⟩ := moved h
  cases r with
  | updatedWebhook q' =>
    obtain ⟨q, o₁, rfl, ho₁, hq'⟩ := updatedWebhook_origin ho hk
    exact (updatedWebhook_seen hI hc hB ho₁ hq').frame hA h
  | _ => trivial

/-- Without late activations, a webhook can rely on what it has seen. -/
theorem seenOutline : Outline (program E) (fun s p e => ¬ ActivatesLate s p e)
    (fun s => Inv s ∧ s.row.sync.Coherent) (fun s p => Knowledge s p ∧ HasSeen E s p) := by
  refine coherentOutline.strengthenProcs (fun _ _ _ hp => .of_entry hp) ?_ ?_
  · intro s p e s' q hI hA hB _ h
    exact HasSeen.next hI.1 hA hI.2 hB h rfl
  · intro s p e s' k q _ hA _ h _ hq
    exact HasSeen.frame hA h hq

/-! ### As if alone -/

theorem processLockedMeeting_checked {m m' : Meeting} {data : MeetingUpdatedWebhookData}
    {occurredAt : OccurredAt} {context : MeetingUpdateWebhookContext} {now : Time}
    (h : (processLockedMeeting E m data occurredAt context now).written = some m') :
    isStaleProviderEvent m occurredAt true = false ∧ didNotChange m context = true := by
  unfold processLockedMeeting at h
  split at h
  · cases h
  rename_i hs
  split at h
  · cases h
  rename_i hd
  exact ⟨eq_false_of_ne_true hs, by simpa using hd⟩

/-- The context that the webhook would capture now, with the same answer of Zoom. -/
theorem context_eq_captureContext {m : Meeting} {context : MeetingUpdateWebhookContext}
    (hd : didNotChange m context = true) :
    context = { captureContext m context.needsZoomCheck with zoomMeeting := context.zoomMeeting } := by
  simp only [didNotChange, Bool.and_eq_true, beq_iff_eq] at hd
  obtain ⟨⟨hop, hrec⟩, hlast⟩ := hd
  simp [captureContext, hop, hrec, hlast]

/-- The answer that was fetched; `none`: Zoom was not asked. -/
def fetched (context : MeetingUpdateWebhookContext) : Option (Option ZoomMeeting) :=
  if context.needsZoomCheck then some context.zoomMeeting else none

theorem handleAlone_of_seen {data : MeetingUpdatedWebhookData} {occurredAt : OccurredAt}
    {context : MeetingUpdateWebhookContext} {seen m' : Meeting} {now : Time} (hw : s.row.sync.WellFormed)
    (hc : s.row.sync.Coherent) (hs : Seen E s data occurredAt context seen)
    (h : (processLockedMeeting E s.row data occurredAt context now).written = some m') :
    handleAlone E s.row data occurredAt (fetched context) now =
      some (processLockedMeeting E s.row data occurredAt context now) := by
  obtain ⟨hstale, hd⟩ := processLockedMeeting_checked h
  have hneeds := needsZoomCheck_of_seen hw hc hs hd
  have hcontext := context_eq_captureContext hd
  have hsame : s.row.sameMeetingId data.meetingId = true := by simp [Meeting.sameMeetingId, hs.meetingId]
  have hid : s.row.meetingId ≠ none := by simp [hs.meetingId]
  unfold needsZoomCheck at hneeds
  cases hn : context.needsZoomCheck with
  | true =>
    rw [hn] at hneeds hcontext
    have hbuild : (buildContext E s.row data occurredAt).next =
        some (.getMeeting data occurredAt (captureContext s.row true)) := by
      simp [buildContext, hstale, hneeds, hid, Outcome.goOn]
    simp only [handleAlone, hsame, if_true, hbuild, fetched, hn, Option.map_some]
    rw [← hcontext]
  | false =>
    rw [hn, hs.unasked hn] at hcontext
    rw [hn] at hneeds
    have hbuild : (buildContext E s.row data occurredAt).next =
        some (.process data occurredAt (captureContext s.row false) s.row) := by
      simp [buildContext, hstale, hneeds, Outcome.goOn]
    simp only [handleAlone, hsame, if_true, hbuild]
    rw [show captureContext s.row false = context from hcontext.symm]

/-- The locked transaction of a webhook either commits what the whole processing
would have committed at that moment, with the same answer of Zoom, or changes
nothing. -/
def AsIfAlone (E : Env) (st : Step Store Point Input) : Prop :=
  ∀ data occurredAt context atFetch e,
    st.Fires (.updatedWebhook (.process data occurredAt context atFetch)) e →
      (handleAlone E st.pre.store.row data occurredAt (fetched context) e.now =
          some (.wrote st.post.store.row)) ∨
        ((processLockedMeeting E st.pre.store.row data occurredAt context e.now).written = none ∧
          st.post.store.row = st.pre.store.row)

theorem created_seen (data : MeetingStoreData) (operationId : Uuid) (now : Time) :
    Holds (fun s => Inv s ∧ s.row.sync.Coherent) (fun s p => Knowledge s p ∧ HasSeen E s p)
      (created data operationId now) := by
  have h₀ := created_holds data operationId now
  refine ⟨⟨h₀.1, created_coherent data operationId now⟩, fun p hp => ⟨h₀.2 p hp, ?_⟩⟩
  rw [List.mem_singleton.mp hp]
  trivial

/-- **A webhook acting on a stale view never writes**, in every run without late
activations. -/
theorem as_if_alone {data : MeetingStoreData} {operationId : Uuid} {now : Time}
    {tr : List (Step Store Point Input)} {c : Config Store Point}
    (h : (program E).Run (created data operationId now) tr c)
    (hok : ∀ st ∈ tr, st.Meets fun s p e => ¬ ActivatesLate s p e) : ∀ st ∈ tr, AsIfAlone E st := by
  intro st hst data occurredAt context atFetch e hf
  obtain ⟨⟨⟨hI, hc⟩, hprocs⟩, hs⟩ := seenOutline.run_pre (created_seen _ _ _) h hok st hst
  obtain ⟨i, ha, hp⟩ := hf
  obtain ⟨seen, hseen⟩ := (hprocs _ (List.mem_of_getElem? hp)).2
  rw [ha] at hs
  obtain ⟨k, hm⟩ := (program E).move_of_step hp hs
  obtain ⟨o, ho, -, hrow, -, -⟩ := moved hm
  cases ho
  rw [Outcome.map_written, Outcome.last_written] at hrow
  cases hw : (processLockedMeeting E st.pre.store.row data occurredAt context e.now).written with
  | none => exact .inr ⟨rfl, by rw [hrow, hw, Option.getD_none]⟩
  | some m' =>
    rw [hw, Option.getD_some] at hrow
    have hcommit := Commit.eq_wrote hw
    refine .inl ?_
    rw [handleAlone_of_seen hI.wellFormed hc hseen hw, hcommit, hrow]

/-! ### Runs -/

/-- A webhook finishes the pending update with the meeting it fetched. -/
theorem as_if_alone_topic : ∃ tr c, (program Sample.env).Run Sample.start tr c ∧
    c.store.row.syncStatus = .active ∧ c.store.row.lastZoomEventTimestamp = some 61000 ∧
    ∀ st ∈ tr, AsIfAlone Sample.env st := by
  obtain ⟨tr, c, h, hq⟩ := (program Sample.env).exists_run_of_replay
    (Sample.establish ++ Sample.startUpdate ++
      [.arrive (.updatedWebhook (.handle topicChanged (some 61000))),
        .move 2 (Sample.input 62000 "" .none),
        .move 2 (Sample.input 63000 "" (.fetched (some { Sample.zoomMeeting with topic := "Retrospective" }))),
        .move 2 (Sample.input 64000 "" .none)])
    (c := Sample.start)
    (q := fun tr c => tr.all (fun st => !st.mover.any isCreate) && c.store.row.syncStatus == .active &&
      c.store.row.lastZoomEventTimestamp == some 61000)
    (by decide)
  simp only [Bool.and_eq_true, List.all_eq_true, Bool.not_eq_true', beq_iff_eq] at hq
  exact ⟨tr, c, h, hq.1.2, hq.2, as_if_alone h fun st hst => meets_of_not_isCreate (hq.1.1 st hst)⟩

/-- The webhook commits although, at the moment of the lock, it would have had to
ask Zoom, which it has not. -/
def commitsUnasked (st : Step Store Point Input) : Bool :=
  match st.mover, st.act with
  | some (.updatedWebhook (.process data occurredAt context _)), .move _ e =>
    (handleAlone Sample.env st.pre.store.row data occurredAt (fetched context) e.now).isNone &&
      st.pre.store.row.syncStatus == .updating && st.post.store.row.syncStatus == .active
  | _, _ => false

theorem not_asIfAlone_of_commitsUnasked {st : Step Store Point Input} (h : commitsUnasked st = true) :
    ¬ AsIfAlone Sample.env st := by
  intro hn
  unfold commitsUnasked at h
  split at h
  · rename_i data occurredAt context atFetch i e hm ha
    simp only [Bool.and_eq_true, beq_iff_eq, Option.isNone_iff_eq_none] at h
    obtain ⟨⟨halone, hpre⟩, hpost⟩ := h
    have hf : st.Fires (.updatedWebhook (.process data occurredAt context atFetch)) e := by
      refine ⟨i, ha, ?_⟩
      simpa [Step.mover, ha] using hm
    rcases hn _ _ _ _ _ hf with hc | ⟨-, hc⟩
    · rw [halone] at hc
      cases hc
    · rw [hc, hpre] at hpost
      cases hpost
  · cases h

/-- After a late activation a webhook reads the row as Active and asks nobody; the
update turns out unknown; and the webhook completes it. -/
theorem not_as_if_alone : ∃ tr c, (program Sample.env).Run Sample.start tr c ∧
    ¬ ∀ st ∈ tr, AsIfAlone Sample.env st := by
  obtain ⟨tr, c, h, hq⟩ := (program Sample.env).exists_run_of_replay
    (Sample.establish ++ Sample.startUpdate ++
      [Sample.answerCreate Sample.zoomMeeting,
        .arrive (.updatedWebhook (.handle topicChanged (some 50000))),
        .move 1 (Sample.input 71000 "" .none),
        .move 0 (Sample.input 72000 "" (.throws .operationUnknown)),
        .move 0 (Sample.input 73000 "" .none)])
    (c := Sample.start) (q := fun tr _ => tr.any commitsUnasked) (by decide)
  obtain ⟨st, hst, hc⟩ := List.any_eq_true.mp hq
  exact ⟨tr, c, h, fun hall => not_asIfAlone_of_commitsUnasked hc (hall st hst)⟩

end Meetings
end Daywright
