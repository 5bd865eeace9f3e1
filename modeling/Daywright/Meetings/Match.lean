/-
# Recovery attaches the right meeting

A creation is recovered with a meeting that Zoom has returned under the operation id of
the row. The search works on a copy of the row, outside any transaction; but a row that
is still a creation keeps the operation id it was created under (`matchOutline`), so the
meeting found is the row's, whatever webhooks, other recoveries and expired leases have
done in the meantime. Finalising checks the claim and the Zoom id on the row itself.

A recovery that finds several meetings under the operation id gives up: its claim goes
with one search (`searchedOnce`), so nothing is finalised under it.

Key definitions: `listMeetings`, `OfOperation`, `Finds`, `Attaches`.
Key theorems: `matchOutline`, `finalize_origin`, `searchedOnce`, `resolved_on_match`.
-/
import Daywright.Meetings.LateCreate
import Daywright.Table

namespace Daywright

/-! ### The pages of Zoom's list -/

/-- A response to `ListMeetings`: the items of a list, if there is one. -/
structure MeetingPage where
  items : Option (List MeetingSummary)
  nextPageToken : Option String
  deriving DecidableEq, Repr

/-- `ZoomService::listMeetings`: page after page, up to one without a list or without
the token of a next one. -/
def listMeetings : List MeetingPage → List MeetingSummary
  | [] => []
  | page :: pages =>
    match page.items with
    | none => []
    | some items => items ++ if page.nextPageToken.any (· != "") then listMeetings pages else []

/-- Zoom has returned the meeting. -/
def Reply.Reports (reply : Reply) (z : ZoomMeeting) : Prop :=
  reply = .fetched (some z) ∨ ∃ meetings summary, reply = .listed meetings ∧ (summary, some z) ∈ meetings

/-- Zoom has returned the meeting under the operation id, and its summary does not say
otherwise. -/
def FindZoomMeetingForRecovery.isExactMatch (E : Env) (operationId : Option Uuid)
    (s : MeetingSummary × Option ZoomMeeting) : Bool :=
  (!s.1.hasTrackingFields || matchesTrackingFields E s.1.trackingFields operationId) &&
    s.2.any fun z => matchesOperationId E z operationId

namespace FinalizeZoomMeetingRecovery

/-- A creation is made Active by whoever may finalise it, under a Zoom id that does not
replace another. -/
theorem execute_active {m m' : Meeting} {claimToken : Option Uuid} {z : ZoomMeeting} {now : Time}
    (h : (execute m claimToken z now).written = some m') (ha : m'.syncStatus = .active) :
    canFinalize m claimToken now = true ∧ (m.meetingId = none ∨ m.meetingId = some z.meetingId) ∧
      m'.meetingId = some z.meetingId := by
  obtain ⟨hf, -, hid⟩ : _ ∧ m.Moves (fun _ => True) m' ∧ _ := execute_written h
  have hid : m'.meetingId = some z.meetingId := by
    rcases hid with hs | ⟨-, hid⟩
    · cases hs.symm.trans ha
    · exact hid
  refine ⟨hf, ?_, hid⟩
  unfold execute at h
  split_ifs at h with h1 h2
  · cases h
  · cases h
    cases (createUnknown_of_canFinalize hf).symm.trans ha
  · cases hm : m.meetingId <;> simp_all [Meeting.sameMeetingId]

end FinalizeZoomMeetingRecovery

namespace RecoverAmbiguousZoomMeeting

open FinalizeZoomMeetingRecovery

variable {E : Env} {p : Point} {m : Meeting} {e : Input} {o : Outcome Point}

/-- Each exact match is found. -/
theorem length_byOperationId (meeting : Meeting) (meetings : List (MeetingSummary × Option ZoomMeeting)) :
    (FindZoomMeetingForRecovery.byOperationId E meeting meetings).length =
      meetings.countP (FindZoomMeetingForRecovery.isExactMatch E meeting.syncOperationId) := by
  rw [FindZoomMeetingForRecovery.byOperationId, List.length_filterMap_eq_countP]
  congr 1
  funext s
  simp only [FindZoomMeetingForRecovery.findMatchingMeeting, FindZoomMeetingForRecovery.isExactMatch]
  split
  · rename_i hs
    simp only [Bool.and_eq_true, Bool.not_eq_true'] at hs
    simp [hs.1, hs.2]
  · rename_i hs
    have hs : (!s.1.hasTrackingFields || matchesTrackingFields E s.1.trackingFields meeting.syncOperationId) = true := by
      cases h : s.1.hasTrackingFields <;> simp_all
    cases hz : s.2 with
    | none => simp
    | some z => cases hm : matchesOperationId E z meeting.syncOperationId <;> simp [hs, hm]

/-- A meeting that awaits manual recovery is left alone. -/
theorem step_awaits (h : step E p m e = some o) (ha : m.awaitsManualZoomRecovery = true) : o.written = none := by
  by_contra hn
  obtain ⟨m', hw⟩ := Option.ne_none_iff_exists'.mp hn
  simp only [Meeting.awaitsManualZoomRecovery, Bool.and_eq_true, beq_iff_eq, Option.isNone_iff_eq_none] at ha
  obtain ⟨⟨⟨hs, hav⟩, hcl⟩, -⟩ := ha
  have unowned (token : Uuid) : ownsLiveClaim m token e.now = false := by simp [ownsLiveClaim, hcl]
  cases step_writes h hw with
  | claim meeting hc =>
    simp [RecoverAmbiguousZoomMeeting.claim, Meeting.readyForZoomRecoveryAt, Meeting.creatingWithExpiredLeaseAt,
      Meeting.createUnknownDueAt, Meeting.dueBy, hs, hav] at hc
  | finalize token z hx =>
    simp [execute, canFinalize, unowned token] at hx
  | review token hr => simp [RecoverAmbiguousZoomMeeting.requireManualReview, unowned token] at hr
  | retry token t hr => simp [RecoverAmbiguousZoomMeeting.scheduleRetry, unowned token] at hr

/-- What a search finds, Zoom has returned under the operation id of the copy. -/
theorem findMatches_matched {meeting : Meeting} {reply : Reply} {found : List ZoomMeeting} {z : ZoomMeeting}
    (h : findMatches E meeting reply = some found) (hz : z ∈ found) :
    reply.Reports z ∧ matchesOperationId E z meeting.syncOperationId = true := by
  unfold findMatches at h
  split at h <;> cases h
  · rename_i fetched _
    obtain ⟨rfl, hm⟩ := Option.filter_eq_some_iff.mp (Option.mem_toList.mp hz)
    exact ⟨.inl rfl, hm⟩
  · rename_i meetings _
    obtain ⟨⟨summary, fetched⟩, hs, hf⟩ := List.mem_filterMap.mp hz
    unfold FindZoomMeetingForRecovery.findMatchingMeeting at hf
    split at hf
    · cases hf
    · obtain ⟨rfl, hm⟩ := Option.filter_eq_some_iff.mp hf
      exact ⟨.inr ⟨meetings, summary, rfl, hs⟩, hm⟩

end RecoverAmbiguousZoomMeeting

/-! ### The operation id of a creation -/

/-- A row that is a creation keeps its operation id. -/
theorem Sync.Step.creation {fresh : Uuid → Prop} {s s' : Sync} {op : Uuid}
    (hc : s.status.IsCreation → s.operation = some op) (h : Sync.Step fresh s s')
    (hs' : s'.status.IsCreation) : s'.operation = some op := by
  have opened (ho : s.status = .creating ∨ s.status = .createUnknown) : s.operation = some op := hc (.of_open ho)
  cases h with
  | keep | claimOperation | postpone | disturb => exact hc hs'
  | intend payload lease hf ht => exact absurd hs' (MeetingSyncOperationType.inProgress_settled ht).1
  | await a ht hn => exact absurd hs' (MeetingSyncOperationType.inProgress_settled hn).1
  | fail ht hn => exact absurd hs' (MeetingSyncOperationType.failure_settled hn).1
  | settle | remove | activate => simp [Sync.cleared, MeetingSyncStatus.IsCreation] at hs'
  | claimCreation lease a hf ho => exact opened ho
  | attach id a ho => exact opened ho
  | suspect a ho => exact opened ho
  | review ho => exact opened ho
  | reject ho => exact opened ho

theorem Sync.Late.creation {s s' : Sync} {op : Uuid} (hc : s.status.IsCreation → s.operation = some op)
    (h : Sync.Late s s') (hs' : s'.status.IsCreation) : s'.operation = some op := by
  cases h with
  | activate id hs hm => simp [MeetingSyncStatus.IsCreation] at hs'
  | conflict hs hm => exact hc hs'

namespace Meetings

open Interleave FinalizeZoomMeetingRecovery

/-- The row is a creation under this operation id, as long as it is a creation. -/
def CreatedUnder (op : Uuid) (m : Meeting) : Prop := m.syncStatus.IsCreation → m.syncOperationId = some op

/-- A recovery that searches has a copy under the operation id; one that finalises has a
meeting that Zoom returned under it. -/
def OfOperation (E : Env) (op : Uuid) : Point → Prop
  | .ambiguous (.claim meeting) | .ambiguous (.findMatches meeting _) | .manual (.byMeetingId meeting _) =>
    meeting.syncOperationId = some op
  | .ambiguous (.finalize _ z) | .manual (.finalize z) => matchesOperationId E z (some op) = true
  | _ => True

variable {E : Env} {s s' : Store} {p : Point} {e : Input} {k : Option Point} {op : Uuid}

theorem CreatedUnder.move (hA : Knowledge s p) (hc : CreatedUnder op s.row)
    (h : (program E).move s p e = some (s', k)) : CreatedUnder op s'.row := by
  have hc : s.row.sync.status.IsCreation → s.row.sync.operation = some op := hc
  rcases (move_effect hA h).1 with ⟨-, hl, -⟩ | ⟨-, hl, -⟩ | ⟨-, -, hs⟩
  · exact hl.creation hc
  · exact hl.creation hc
  · exact hs.creation hc

theorem createUnknown_of_awaits {m : Meeting} (h : m.awaitsManualZoomRecovery = true) :
    m.syncStatus = .createUnknown :=
  createUnknown_of_canFinalize (show canFinalize m none 0 = true from h)

/-- Where a recovery goes on from its copy, it goes on with the row's operation id. -/
theorem OfOperation.next (hc : CreatedUnder op s.row) (hB : OfOperation E op p) {r : Point}
    (h : Continues E s e p r) : OfOperation E op r := by
  cases h with
  | dispatch | recovery => trivial
  | ambiguous h =>
    cases h with
    | select hr =>
      simp only [Meeting.readyForZoomRecoveryAt, Meeting.creatingWithExpiredLeaseAt,
        Meeting.createUnknownDueAt, Bool.and_eq_true, Bool.or_eq_true, beq_iff_eq] at hr
      exact hc (.of_open (hr.imp And.left And.left))
    | claim => exact hB
    | found meeting token found hf =>
      have hop : meeting.syncOperationId = some op := hB
      rcases found with _ | ⟨z, _ | ⟨z', found⟩⟩
      · trivial
      · have hz := (RecoverAmbiguousZoomMeeting.findMatches_matched hf (List.mem_singleton_self z)).2
        rwa [hop] at hz
      · trivial
    | retry => trivial
  | manual h =>
    cases h with
    | fetch id ha => exact hc (.of_open (.inr (createUnknown_of_awaits ha)))
    | found meeting id z hr hz =>
      have hop : meeting.syncOperationId = some op := hB
      rwa [hop] at hz
  | other p r hr ha hm =>
    cases r with
    | ambiguous q => exact absurd rfl (ha q)
    | manual q => exact absurd rfl (hm q)
    | _ => trivial

/-- **The recoveries work under the operation id of the creation**, whatever the order of
the steps. -/
theorem matchOutline (op : Uuid) : Outline (program E) (fun _ _ _ => True)
    (fun s => Inv s ∧ CreatedUnder op s.row) (fun s p => Knowledge s p ∧ OfOperation E op p) :=
  outline.strengthen (fun _ _ _ h => h)
    (fun _ p _ _ hp => by
      unfold OfOperation
      split <;> first | cases hp | trivial)
    (fun _ _ _ _ _ _ hA hc hB _ h => ⟨hc.move hA h, fun _ hk => hB.next hc (continues (hk ▸ h))⟩)
    fun _ _ _ _ _ _ _ _ _ _ _ _ _ hq => hq

/-! ### Where a find comes from -/

/-- The step searches under this token, and finds these meetings. -/
def Finds (E : Env) (token : Uuid) (found : List ZoomMeeting) (st : Step Store Point Input) : Prop :=
  ∃ meeting e, st.Fires (.ambiguous (.findMatches meeting token)) e ∧
    RecoverAmbiguousZoomMeeting.findMatches E meeting e.reply = some found

variable {data : MeetingStoreData} {t₀ : Time} {tr : List (Step Store Point Input)} {c : Config Store Point}

/-- Whoever is about to finalise a recovery has searched under its claim, and has found
that meeting alone. -/
theorem finalize_origin (h : (program E).Run (created data op t₀) tr c) {token : Uuid} {z : ZoomMeeting}
    (hp : Point.ambiguous (.finalize token z) ∈ c.procs) : ∃ st ∈ tr, Finds E token [z] st := by
  rcases h.origin _ hp with hp | hp | ⟨st, hst, p, e, s, hf, hm⟩
  · cases List.mem_singleton.mp hp
  · cases hp
  · refine ⟨st, hst, ?_⟩
    generalize hr : Point.ambiguous (.finalize token z) = r at hm
    cases continues hm with
    | ambiguous h =>
      cases h with
      | found meeting token' found hfound =>
        rcases found with _ | ⟨z', _ | ⟨z'', found⟩⟩ <;> cases hr
        exact ⟨meeting, e, hf, hfound⟩
      | _ => cases hr
    | other _ _ _ ha => exact absurd hr.symm (ha _)
    | _ => cases hr

/-- Whoever is about to finalise by hand has fetched that meeting. -/
theorem manual_origin (h : (program E).Run (created data op t₀) tr c) {z : ZoomMeeting}
    (hp : Point.manual (.finalize z) ∈ c.procs) : ∃ st ∈ tr, ∃ p e, st.Fires p e ∧ e.reply.Reports z := by
  rcases h.origin _ hp with hp | hp | ⟨st, hst, p, e, s, hf, hm⟩
  · cases List.mem_singleton.mp hp
  · cases hp
  · refine ⟨st, hst, p, e, hf, ?_⟩
    cases continues hm with
    | manual h =>
      cases h with
      | found meeting id z hr hz => exact .inl hr
    | other _ _ _ _ hm => exact absurd rfl (hm _)

def searches (token : Uuid) : Point → Bool
  | .ambiguous (.findMatches _ t) => t == token
  | _ => false

/-- The recovery claims a creation with this token. -/
def drawsClaim (token : Uuid) (p : Point) (e : Input) : Bool :=
  match p with
  | .ambiguous (.claim _) => e.uuid == token
  | _ => false

/-- A search comes with a claim that has just drawn its token. -/
theorem drawsClaim_of_searches {token : Uuid} {r : Point} (hm : (program E).move s p e = some (s', some r))
    (hr : searches token r = true) : drawsClaim token p e = true := by
  cases continues hm with
  | ambiguous h =>
    cases h with
    | claim meeting =>
      have ht : (e.uuid == token) = true := hr
      exact ht
    | found meeting t found hf => rcases found with _ | ⟨z, _ | ⟨z', found⟩⟩ <;> cases hr
    | select ha => cases hr
    | retry p t e' => cases hr
  | other _ r _ ha =>
    unfold searches at hr
    split at hr
    · exact absurd rfl (ha _)
    · cases hr
  | _ => cases hr

/-- A token is drawn once. -/
theorem drawnOnce (h : (program E).Run (created data op t₀) tr c) (token : Uuid) :
    tr.countP (·.firing fun _ p e => drawsClaim token p e) ≤ if token ∈ c.store.issued then 1 else 0 := by
  refine (outline.count (fun _ p e => drawsClaim token p e)
    (K := fun n s => n ≤ if token ∈ s.issued then 1 else 0) (B := fun _ _ _ => True)
    (fun _ _ _ _ _ _ => trivial) (fun n s p e s' k _ _ hn _ _ hm => ⟨?_, fun _ _ => trivial⟩)
    (fun _ _ _ _ _ _ _ _ _ _ _ _ _ _ _ => trivial) (created_holds data op t₀)
    ⟨Nat.zero_le _, fun _ _ => trivial⟩ h fun _ _ _ _ _ => trivial).1
  by_cases hd : drawsClaim token p e = true
  · obtain ⟨o, -, -, -, hissued, hfresh⟩ := moved hm
    have hp : p.drawsUuid = true ∧ e.uuid = token := by
      unfold drawsClaim at hd
      split at hd
      · exact ⟨rfl, beq_iff_eq.mp hd⟩
      · cases hd
    obtain ⟨hp, rfl⟩ := hp
    rw [if_neg (hfresh hp)] at hn
    have hmem : e.uuid ∈ s'.issued := by simp [hissued, hp]
    rw [if_pos hd, if_pos hmem]
    omega
  · rw [if_neg hd]
    refine hn.trans ?_
    split
    · rw [if_pos (issued_subset hm _ (by assumption))]
    · exact Nat.zero_le _

/-- **A claim goes with one search**: its token is drawn for it. -/
theorem searchedOnce (h : (program E).Run (created data op t₀) tr c) (token : Uuid) :
    tr.countP (·.firing fun _ p _ => searches token p) ≤ 1 := by
  have enters (p : Point) (hp : p.entry = true) : searches token p = false := by
    unfold searches
    split
    · cases hp
    · rfl
  have hcount := outline.credits (searches token) (fun _ p _ => searches token p)
    (fun _ p e => drawsClaim token p e) enters (fun _ _ _ _ _ hp => hp)
    (fun _ _ _ _ _ _ _ _ hm hr => .inl (drawsClaim_of_searches hm hr))
    (created_holds data op t₀) h fun _ _ _ _ _ => trivial
  have h₀ : (created data op t₀).procs.countP (searches token) = 0 := rfl
  have hone : (if token ∈ c.store.issued then 1 else 0) ≤ 1 := by split <;> omega
  have := (drawnOnce h token).trans hone
  omega

theorem Finds.unique (h : (program E).Run (created data op t₀) tr c) {token : Uuid} {found found' : List ZoomMeeting}
    {st st' : Step Store Point Input} (hst : st ∈ tr) (hst' : st' ∈ tr) (hf : Finds E token found st)
    (hf' : Finds E token found' st') : found = found' := by
  obtain ⟨meeting, e, hfires, hfound⟩ := hf
  obtain ⟨meeting', e', hfires', hfound'⟩ := hf'
  have hs : st = st' := Table.eq_of_countP_le_one (searchedOnce h token) hst hst'
    (Step.firing_iff.mpr ⟨_, e, hfires, beq_self_eq_true _⟩) (Step.firing_iff.mpr ⟨_, e', hfires', beq_self_eq_true _⟩)
  subst hs
  obtain ⟨hp, rfl⟩ := hfires.unique hfires'
  cases hp
  exact Option.some.inj (hfound.symm.trans hfound')

/-! ### Attaching a Zoom meeting -/

/-- The step makes the meeting Active. -/
def Activates (st : Step Store Point Input) : Prop :=
  st.pre.store.row.syncStatus ≠ .active ∧ st.post.store.row.syncStatus = .active

/-- The step stores the Zoom id of `z`, where none other is stored: after the steps `tr`,
in which Zoom has returned `z`, under the operation id of the row. -/
structure Attaches (E : Env) (tr : List (Step Store Point Input)) (st : Step Store Point Input) (z : ZoomMeeting) :
    Prop where
  reported : ∃ st₀ ∈ tr, ∃ p e, st₀.Fires p e ∧ e.reply.Reports z
  matched : matchesOperationId E z st.pre.store.row.syncOperationId = true
  unreplaced : st.pre.store.row.meetingId = none ∨ st.pre.store.row.meetingId = some z.meetingId
  attached : st.post.store.row.meetingId = some z.meetingId

theorem createdUnder_holds (E : Env) (data : MeetingStoreData) (op : Uuid) (t₀ : Time) :
    Holds (fun s => Inv s ∧ CreatedUnder op s.row) (fun s p => Knowledge s p ∧ OfOperation E op p)
      (created data op t₀) := by
  obtain ⟨hI, hA⟩ := created_holds data op t₀
  refine ⟨⟨hI, fun _ => rfl⟩, fun p hp => ⟨hA p hp, ?_⟩⟩
  rw [List.mem_singleton.mp hp]
  trivial

theorem matched_of_run (h : (program E).Run (created data op t₀) tr c) :
    Holds (fun s => Inv s ∧ CreatedUnder op s.row) (fun s p => Knowledge s p ∧ OfOperation E op p) c :=
  (matchOutline op).run (createdUnder_holds E data op t₀) h fun _ _ _ _ _ => trivial

theorem written_of_activates {st : Step Store Point Input} {o : Outcome Point} (ha : Activates st)
    (hrow : st.post.store.row = o.written.getD st.pre.store.row) : o.written = some st.post.store.row := by
  cases hw : o.written with
  | none =>
    rw [hw, Option.getD_none] at hrow
    exact absurd (hrow ▸ ha.2) ha.1
  | some m' => rw [hrow, hw, Option.getD_some]

/-- A recovery that makes the meeting Active finalises it under its live claim. -/
theorem attaches_ambiguous {st : Step Store Point Input} (h : (program E).Run (created data op t₀) tr st.pre)
    (hs : (program E).step st.pre st.act = some st.post) (ha : Activates st)
    {q : RecoverAmbiguousZoomMeeting.Point} (hf : st.Fires (.ambiguous q) e) :
    ∃ token z, q = .finalize token z ∧ ownsLiveClaim st.pre.store.row token e.now = true ∧
      Attaches E tr st z ∧ ∃ st₀ ∈ tr, Finds E token [z] st₀ := by
  obtain ⟨hp, k, hm⟩ := (program E).move_of_fires hs hf
  obtain ⟨o, ho, -, hrow, -, -⟩ := moved hm
  have hw := written_of_activates ha hrow
  obtain ⟨o₁, ho₁, rfl⟩ := Option.map_eq_some_iff.mp ho
  obtain ⟨token, z, rfl, hx⟩ := RecoverAmbiguousZoomMeeting.step_active ho₁ hw ha.2
  obtain ⟨hown, hid, hid'⟩ := execute_active hx ha.2
  obtain ⟨⟨-, hc⟩, hA⟩ := matched_of_run h
  have hz : matchesOperationId E z (some op) = true := (hA _ hp).2
  have hop : st.pre.store.row.syncOperationId = some op :=
    hc (.of_open (.inr (createUnknown_of_canFinalize hown)))
  obtain ⟨st₀, hst₀, hfinds⟩ := finalize_origin h hp
  obtain ⟨meeting, e₀, hf₀, hfound⟩ := hfinds
  have hr := (RecoverAmbiguousZoomMeeting.findMatches_matched hfound (List.mem_singleton_self z)).1
  exact ⟨token, z, rfl, hown, ⟨⟨st₀, hst₀, _, e₀, hf₀, hr⟩, hop ▸ hz, hid, hid'⟩, st₀, hst₀, meeting, e₀, hf₀, hfound⟩

/-- A manual resolution that makes the meeting Active finalises it while it awaits one. -/
theorem attaches_manual {st : Step Store Point Input} (h : (program E).Run (created data op t₀) tr st.pre)
    (hs : (program E).step st.pre st.act = some st.post) (ha : Activates st)
    {q : ResolveAmbiguousZoomMeetingManually.Point} (hf : st.Fires (.manual q) e) :
    ∃ z, q = .finalize z ∧ st.pre.store.row.awaitsManualZoomRecovery = true ∧ Attaches E tr st z := by
  obtain ⟨hp, k, hm⟩ := (program E).move_of_fires hs hf
  obtain ⟨o, ho, -, hrow, -, -⟩ := moved hm
  have hw := written_of_activates ha hrow
  obtain ⟨o₁, ho₁, rfl⟩ := Option.map_eq_some_iff.mp ho
  obtain ⟨z, rfl, hx⟩ := ResolveAmbiguousZoomMeetingManually.step_active ho₁ hw ha.2
  obtain ⟨hawaits, hid, hid'⟩ := execute_active hx ha.2
  obtain ⟨⟨-, hc⟩, hA⟩ := matched_of_run h
  have hz : matchesOperationId E z (some op) = true := (hA _ hp).2
  have hop : st.pre.store.row.syncOperationId = some op :=
    hc (.of_open (.inr (createUnknown_of_awaits hawaits)))
  exact ⟨z, rfl, hawaits, manual_origin h hp, hop ▸ hz, hid, hid'⟩

/-- A Zoom id once stored is not replaced. -/
theorem meetingId_kept {st : Step Store Point Input} (hA : ∀ p ∈ st.pre.procs, Knowledge st.pre.store p)
    (hs : (program E).step st.pre st.act = some st.post) {id : ZoomId} (hid : st.pre.store.row.meetingId = some id) :
    st.post.store.row.meetingId = some id := by
  rcases (program E).step_store hs with heq | ⟨p, e, k, hf, hm⟩
  · rw [heq]
    exact hid
  · have hid : st.pre.store.row.sync.meetingId = some id := hid
    rcases (move_effect (hA p ((program E).move_of_fires hs hf).1) hm).1 with ⟨-, h, -⟩ | ⟨-, h, -⟩ | ⟨-, -, h⟩
    · exact h.meetingId hid
    · exact h.meetingId hid
    · exact h.meetingId hid

/-- Nothing is finalised under a claim whose search has found several matches. -/
theorem unresolved_of_matches (h : (program E).Run (created data op t₀) tr c) {st : Step Store Point Input}
    (hst : st ∈ tr) {meeting : Meeting} {token : Uuid} {meetings : List (MeetingSummary × Option ZoomMeeting)}
    (hf : st.Fires (.ambiguous (.findMatches meeting token)) e) (hid : meeting.meetingId = none)
    (hr : e.reply = .listed meetings)
    (htwo : 2 ≤ meetings.countP (FindZoomMeetingForRecovery.isExactMatch E (some op))) :
    ∀ st' ∈ tr, ∀ z e', ¬ st'.Fires (.ambiguous (.finalize token z)) e' := by
  intro st' hst' z e' hf'
  obtain ⟨tr₁, tr₂, rfl, h₁, hs, -⟩ := h.of_mem (program E) hst'
  obtain ⟨st₀, hst₀, hfinds⟩ := finalize_origin h₁ ((program E).move_of_fires hs hf').1
  obtain ⟨tr₃, tr₄, he, h₃, hs₃, -⟩ := h.of_mem (program E) hst
  have hop : meeting.syncOperationId = some op := ((matched_of_run h₃).2 _ ((program E).move_of_fires hs₃ hf).1).2
  have hfound : Finds E token (FindZoomMeetingForRecovery.byOperationId E meeting meetings) st :=
    ⟨meeting, e, hf, by simp [RecoverAmbiguousZoomMeeting.findMatches, hr, hid]⟩
  have hone := Finds.unique h hst (List.mem_append_left _ hst₀) hfound hfinds
  have hlen := RecoverAmbiguousZoomMeeting.length_byOperationId (E := E) meeting meetings
  rw [hone, hop] at hlen
  rw [← hlen] at htwo
  simp at htwo

/-- **Recovery attaches only the right meeting**, whatever Zoom returns and in whatever
order recoveries, manual resolutions, webhooks and expiries come. The recovery, or a
manual resolution, that makes the meeting Active stores a meeting that Zoom has returned
under the operation id of the row, in the place of no other; it holds the live claim, and
its search has found that meeting alone, or the meeting awaits manual recovery. A stored
Zoom id is never replaced. A claim whose search meets several exact matches finalises
nothing, and a meeting that awaits manual recovery is left to it. -/
theorem resolved_on_match (h : (program E).Run (created data op t₀) tr c) :
    (∀ tr₁ st tr₂, tr = tr₁ ++ st :: tr₂ → Activates st →
      (∀ q e, st.Fires (.ambiguous q) e → ∃ token z, q = .finalize token z ∧
        ownsLiveClaim st.pre.store.row token e.now = true ∧ Attaches E tr₁ st z ∧
        ∃ st₀ ∈ tr₁, Finds E token [z] st₀) ∧
      ∀ q e, st.Fires (.manual q) e → ∃ z, q = .finalize z ∧
        st.pre.store.row.awaitsManualZoomRecovery = true ∧ Attaches E tr₁ st z) ∧
    (∀ st ∈ tr, ∀ id, st.pre.store.row.meetingId = some id → st.post.store.row.meetingId = some id) ∧
    (∀ st ∈ tr, ∀ meeting token e meetings, st.Fires (.ambiguous (.findMatches meeting token)) e →
      meeting.meetingId = none → e.reply = .listed meetings →
      2 ≤ meetings.countP (FindZoomMeetingForRecovery.isExactMatch E (some op)) →
      ∀ st' ∈ tr, ∀ z e', ¬ st'.Fires (.ambiguous (.finalize token z)) e') ∧
    ∀ st ∈ tr, ∀ q e, st.Fires (.ambiguous q) e → st.pre.store.row.awaitsManualZoomRecovery = true →
      st.post.store.row = st.pre.store.row := by
  refine ⟨fun tr₁ st tr₂ htr ha => ?_, fun st hst id hid => ?_, fun st hst _ _ _ _ hf hid hr htwo =>
    unresolved_of_matches h hst hf hid hr htwo, fun st hst q e hf hawaits => ?_⟩
  · obtain ⟨h₁, hs⟩ := h.of_split (program E) htr
    exact ⟨fun q e hf => attaches_ambiguous h₁ hs ha hf, fun q e hf => attaches_manual h₁ hs ha hf⟩
  · obtain ⟨tr₁, tr₂, -, h₁, hs, -⟩ := h.of_mem (program E) hst
    exact meetingId_kept (holds_of_run h₁).2 hs hid
  · obtain ⟨tr₁, tr₂, -, h₁, hs, -⟩ := h.of_mem (program E) hst
    obtain ⟨-, k, hm⟩ := (program E).move_of_fires hs hf
    obtain ⟨o, ho, -, hrow, -, -⟩ := moved hm
    obtain ⟨o₁, ho₁, rfl⟩ := Option.map_eq_some_iff.mp ho
    rw [hrow, Outcome.map_written, RecoverAmbiguousZoomMeeting.step_awaits ho₁ hawaits, Option.getD_none]

/-! ### A run -/

namespace Sample

def pages : List MeetingPage :=
  [⟨some [⟨12, []⟩, ⟨55, [("Daywright Operation ID", "op-other")]⟩], some "next"⟩, ⟨some [⟨77, []⟩], none⟩]

/-- The lease of the creation has expired; the recovery looks through the pages, and
finds the meeting on the second. -/
def findOnPages : List (Act Point Input) :=
  [.arrive (.ambiguous .select),
    .move 1 (input 600000 "" .none),
    .move 1 (input 600000 "token-create" .none),
    .move 1 (input 601000 "" (.listed ((listMeetings pages).map fun summary =>
      (summary, if summary.meetingId = 77 then some zoomMeeting else none)))),
    .move 1 (input 602000 "" .none)]

end Sample

/-- The meeting found on the second page is attached. -/
theorem resolved_on_match_paged : ∃ tr c st tr₁ z, (program Sample.env).Run Sample.start tr c ∧ st ∈ tr ∧
    RecoveredBy st ∧ Attaches Sample.env tr₁ st z := by
  obtain ⟨tr, c, hrun, hq⟩ := (program Sample.env).exists_run_of_replay Sample.findOnPages (c := Sample.start)
    (q := fun tr _ => tr.any recovers) (by decide)
  obtain ⟨st, hst, hrec⟩ := List.any_eq_true.mp hq
  have hrec := recoveredBy_of_recovers hrec
  obtain ⟨⟨token, z, e, hf⟩, hpre, hpost⟩ := hrec
  obtain ⟨tr₁, tr₂, htr⟩ := List.append_of_mem hst
  have hact : Activates st := ⟨by simp [hpre], hpost⟩
  obtain ⟨-, z', -, -, hattach, -⟩ := ((resolved_on_match hrun).1 tr₁ st tr₂ htr hact).1 _ e hf
  exact ⟨tr, c, st, tr₁, z', hrun, hst, ⟨⟨token, z, e, hf⟩, hpre, hpost⟩, hattach⟩

end Meetings
end Daywright
