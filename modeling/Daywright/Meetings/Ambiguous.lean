/-
# Recovering creations

A creation whose result is unknown is looked up in Zoom by its operation id
(`RecoverAmbiguousZoomMeeting`), or resolved by hand
(`ResolveAmbiguousZoomMeetingManually`); `FinalizeZoomMeetingRecovery` makes the
row Active. The recovery selects the row first and works on that copy of it, but
claims the row, and later writes to it, only while it is still in CreateUnknown
under its own unexpired claim.

Key definitions: `FinalizeZoomMeetingRecovery.execute`, `RecoverAmbiguousZoomMeeting.step`,
`ResolveAmbiguousZoomMeetingManually.step`.
-/
import Daywright.Meetings.Process

namespace Daywright

open Php

/-! ### FindZoomMeetingForRecovery -/

namespace FindZoomMeetingForRecovery

variable (E : Env)

/-- `byMeetingId`, `getMeeting` having returned `fetched`. -/
def byMeetingId (m : Meeting) (fetched : Option ZoomMeeting) : Option ZoomMeeting :=
  fetched.filter fun z => matchesOperationId E z m.syncOperationId

def findMatchingMeeting (summary : MeetingSummary) (fetched : Option ZoomMeeting) (operationId : Option Uuid) :
    Option ZoomMeeting :=
  if summary.hasTrackingFields && !matchesTrackingFields E summary.trackingFields operationId then none
  else fetched.filter fun z => matchesOperationId E z operationId

/-- `byOperationId`, `listMeetings` and the calls of `getMeeting` having returned
`meetings`. -/
def byOperationId (m : Meeting) (meetings : List (MeetingSummary × Option ZoomMeeting)) : List ZoomMeeting :=
  meetings.filterMap fun s => findMatchingMeeting E s.1 s.2 m.syncOperationId

end FindZoomMeetingForRecovery

/-! ### FinalizeZoomMeetingRecovery -/

namespace FinalizeZoomMeetingRecovery

/-- `ownsLiveClaim`: also the condition of the recovery's own transactions. -/
def ownsLiveClaim (m : Meeting) (claimToken : Uuid) (now : Time) : Bool :=
  m.syncStatus == .createUnknown && m.syncClaimToken == some claimToken &&
    m.syncLeaseExpiresAt.any (now < ·)

def canFinalize (m : Meeting) (claimToken : Option Uuid) (now : Time) : Bool :=
  match claimToken with
  | none => m.awaitsManualZoomRecovery
  | some token => ownsLiveClaim m token now

def execute (m : Meeting) (claimToken : Option Uuid) (z : ZoomMeeting) (now : Time) : Commit :=
  if !canFinalize m claimToken now then .unchanged
  else if m.meetingId.isSome && !m.sameMeetingId z.meetingId then .wrote
    { m with
      syncError := some "remote_meeting_id_conflict"
      syncClaimToken := none
      syncLeaseExpiresAt := none
      syncAvailableAt := none }
  else .afterTransition (m.transitionTo .active) fun m =>
    { (m.put "join_url" (.str z.joinUrl)).put "start_url" (.str z.startUrl) with
      meetingId := some z.meetingId
      status := some z.status
      syncedAt := some now
      syncError := none
      syncClaimToken := none
      syncLeaseExpiresAt := none
      syncAvailableAt := none }

variable {fresh : Uuid → Prop} {m m' : Meeting} {now : Time}

theorem ownsLiveClaim_iff {claimToken : Uuid} : ownsLiveClaim m claimToken now = true ↔
    m.syncStatus = .createUnknown ∧ m.syncClaimToken = some claimToken ∧
      ∃ lease, m.syncLeaseExpiresAt = some lease ∧ now < lease := by
  simp only [ownsLiveClaim, Bool.and_eq_true, beq_iff_eq, Option.any_eq_true, decide_eq_true_eq, and_assoc]

theorem createUnknown_of_canFinalize {claimToken : Option Uuid} (h : canFinalize m claimToken now = true) :
    m.syncStatus = .createUnknown := by
  cases claimToken with
  | none =>
    simp only [canFinalize, Meeting.awaitsManualZoomRecovery, Bool.and_eq_true, beq_iff_eq] at h
    exact h.1.1.1
  | some token => exact (ownsLiveClaim_iff.mp h).1

/-- A creation under review stays in CreateUnknown, without a claim. -/
theorem review_moves (hs : m.syncStatus = .createUnknown) (h : m'.sync = m.sync.unclaim none)
    (ht : m'.syncStartedAt = m.syncStartedAt) : m.Moves fresh m' := by
  have : Sync.Step fresh m.sync _ := .review m.sync (.inr hs)
  refine ⟨?_, ht ▸ id⟩
  rw [h]
  simpa [Meeting.sync, Sync.unclaim, hs] using this

/-- Finalising a creation makes it Active under its Zoom id, or leaves it to review. -/
theorem execute_written {claimToken : Option Uuid} {z : ZoomMeeting}
    (h : (execute m claimToken z now).written = some m') :
    canFinalize m claimToken now = true ∧ m.Moves fresh m' ∧
      (m'.syncStatus = .createUnknown ∨ m'.syncStatus = .active ∧ m'.meetingId = some z.meetingId) := by
  unfold execute at h
  split at h
  · cases h
  rename_i hf
  have hf : canFinalize m claimToken now = true := by simpa using hf
  have hs := createUnknown_of_canFinalize hf
  refine ⟨hf, ?_⟩
  split at h
  · cases h
    exact ⟨review_moves hs rfl rfl, .inl hs⟩
  · rename_i hc
    obtain ⟨m₁, h₁, rfl⟩ := Commit.afterTransition_written h
    obtain ⟨-, rfl⟩ := Meeting.transitionTo_ok h₁
    have hid : m.meetingId = none ∨ m.meetingId = some z.meetingId := by
      cases hm : m.meetingId <;> simp_all [Meeting.sameMeetingId]
    exact ⟨⟨.activate m.sync _ (.inr (.inr (.inl hs))) hid, id⟩, .inr ⟨rfl, rfl⟩⟩

end FinalizeZoomMeetingRecovery

/-! ### RecoverAmbiguousZoomMeeting -/

namespace RecoverAmbiguousZoomMeeting

open FinalizeZoomMeetingRecovery

variable (E : Env)

def maxAttempts : ℕ := 5

/-- `BACKOFF_SECONDS[$attempt]`, an array with the keys 1 to 4. -/
def backoffSeconds : ℕ → Option ℕ
  | 1 => some 60
  | 2 => some 300
  | 3 => some 900
  | 4 => some 3600
  | _ => none

def claimAvailable (m : Meeting) (now : Time) : Bool :=
  m.syncClaimToken.isNone || Meeting.dueBy m.syncLeaseExpiresAt now

/-- One conditional update; the copy that was selected plays no part in it. -/
def claim (m : Meeting) (claimToken : Uuid) (now : Time) : Commit :=
  if m.readyForZoomRecoveryAt now && claimAvailable m now then .wrote
    { m with
      syncStatus := .createUnknown
      syncClaimToken := some claimToken
      syncLeaseExpiresAt := some (now + minutes 5)
      syncAvailableAt := some now }
  else .unchanged

def setManualReview (m : Meeting) (reason : String) (attempts : ℕ) : Meeting :=
  { m with
    syncAttempts := attempts
    syncError := some reason
    syncClaimToken := none
    syncLeaseExpiresAt := none
    syncAvailableAt := none }

def scheduleRetry (m : Meeting) (claimToken : Uuid) (e : Option Throwable) (now : Time) : Commit :=
  if !ownsLiveClaim m claimToken now then .unchanged
  else if maxAttempts ≤ m.syncAttempts + 1 then
    .wrote (setManualReview m "manual_review_required" (m.syncAttempts + 1))
  else .wrote
    { m with
      syncAttempts := m.syncAttempts + 1
      syncError := some ((e.map formatSyncError).getD "zoom_meeting_not_found")
      syncClaimToken := none
      syncLeaseExpiresAt := none
      syncAvailableAt := some (now + seconds ((backoffSeconds (m.syncAttempts + 1)).getD 0)) }

def requireManualReview (m : Meeting) (claimToken : Uuid) (now : Time) : Commit :=
  if ownsLiveClaim m claimToken now then
    .wrote (setManualReview m "multiple_exact_operation_matches" m.syncAttempts)
  else .unchanged

/-- Where a recovery stands; `meeting` is the copy that was selected. -/
inductive Point where
  | select
  | claim (meeting : Meeting)
  /-- The lookup is with Zoom. -/
  | findMatches (meeting : Meeting) (claimToken : Uuid)
  | finalize (claimToken : Uuid) (z : ZoomMeeting)
  | requireManualReview (claimToken : Uuid)
  | scheduleRetry (claimToken : Uuid) (e : Option Throwable)

/-- The answers of Zoom that `findMatches` asks for. -/
def findMatches (meeting : Meeting) (reply : Reply) : Option (List ZoomMeeting) :=
  match meeting.meetingId, reply with
  | some _, .fetched z => some (FindZoomMeetingForRecovery.byMeetingId E meeting z).toList
  | none, .listed meetings => some (FindZoomMeetingForRecovery.byOperationId E meeting meetings)
  | _, _ => none

def onMatches (claimToken : Uuid) : List ZoomMeeting → Point
  | [] => .scheduleRetry claimToken none
  | [z] => .finalize claimToken z
  | _ => .requireManualReview claimToken

def run : Point → Meeting → Input → Option (Outcome Point)
  | .select, m, e => some (if m.readyForZoomRecoveryAt e.now then .goOn (.claim m) else .stop)
  | .claim meeting, m, e =>
    match claim m e.uuid e.now with
    | .wrote m' => some ⟨some m', some (.findMatches meeting e.uuid)⟩
    | _ => some .stop
  | .findMatches meeting claimToken, _, e =>
    (findMatches E meeting e.reply).map fun found => .goOn (onMatches claimToken found)
  | .finalize claimToken z, m, e =>
    match e.reply with
    | .none => some (.last (execute m (some claimToken) z e.now))
    | _ => none
  | .requireManualReview claimToken, m, e =>
    match e.reply with
    | .none => some (.last (requireManualReview m claimToken e.now))
    | _ => none
  | .scheduleRetry claimToken t, m, e =>
    match e.reply with
    | .none => some (.last (scheduleRetry m claimToken t e.now))
    | _ => none

/-- The point after a `catch (Throwable)`: the lookup or a transaction threw. -/
def Point.onThrow (e : Throwable) : Point → Option Point
  | .findMatches _ claimToken | .finalize claimToken _ | .requireManualReview claimToken
  | .scheduleRetry claimToken none => some (.scheduleRetry claimToken (some e))
  | _ => none

def step (p : Point) (m : Meeting) (e : Input) : Option (Outcome Point) :=
  match run E p m e with
  | some o => some o
  | none =>
    match e.reply with
    | .throws t => (p.onThrow t).map .goOn
    | _ => none

variable {E} {fresh : Uuid → Prop} {m m' : Meeting} {now : Time}

theorem claim_moves {claimToken : Uuid} (hf : fresh claimToken)
    (h : (claim m claimToken now).written = some m') : m.Moves fresh m' := by
  unfold claim at h
  split at h
  · rename_i hc
    cases h
    simp only [Meeting.readyForZoomRecoveryAt, Meeting.creatingWithExpiredLeaseAt,
      Meeting.createUnknownDueAt, Bool.and_eq_true, Bool.or_eq_true, beq_iff_eq] at hc
    exact ⟨.claimCreation m.sync _ _ hf (hc.1.imp And.left And.left), id⟩
  · cases h

theorem scheduleRetry_moves {claimToken : Uuid} {e : Option Throwable}
    (h : (scheduleRetry m claimToken e now).written = some m') : m.Moves fresh m' := by
  unfold scheduleRetry at h
  split at h
  · cases h
  rename_i ho
  obtain ⟨hs, hc, -⟩ := ownsLiveClaim_iff.mp (by simpa using ho)
  split at h <;> cases h
  · exact review_moves hs rfl rfl
  · exact ⟨.postpone m.sync _ (.inl (by simp [Meeting.sync, hc])), id⟩

theorem requireManualReview_moves {claimToken : Uuid}
    (h : (requireManualReview m claimToken now).written = some m') : m.Moves fresh m' := by
  unfold requireManualReview at h
  split at h
  · rename_i ho
    cases h
    exact review_moves (ownsLiveClaim_iff.mp ho).1 rfl rfl
  · cases h

/-- What a recovery writes. -/
inductive Writes (m : Meeting) (e : Input) (m' : Meeting) : Point → Prop
  | claim (meeting : Meeting) (h : (claim m e.uuid e.now).written = some m') : Writes m e m' (.claim meeting)
  | finalize (claimToken : Uuid) (z : ZoomMeeting) (h : (execute m (some claimToken) z e.now).written = some m') :
    Writes m e m' (.finalize claimToken z)
  | review (claimToken : Uuid) (h : (requireManualReview m claimToken e.now).written = some m') :
    Writes m e m' (.requireManualReview claimToken)
  | retry (claimToken : Uuid) (t : Option Throwable) (h : (scheduleRetry m claimToken t e.now).written = some m') :
    Writes m e m' (.scheduleRetry claimToken t)

theorem step_writes {p : Point} {e : Input} {o : Outcome Point} (h : step E p m e = some o)
    (hw : o.written = some m') : Writes m e m' p := by
  unfold step at h
  split at h
  · rename_i o' hr
    cases h
    cases p with
    | select =>
      cases hr
      split at hw <;> cases hw
    | claim meeting =>
      simp only [run] at hr
      split at hr <;> cases hr
      · rename_i hc
        exact .claim meeting (by rw [hc]; exact hw)
      · cases hw
    | findMatches meeting claimToken =>
      obtain ⟨found, -, rfl⟩ := Option.map_eq_some_iff.mp hr
      cases hw
    | finalize claimToken z =>
      simp only [run] at hr
      split at hr <;> cases hr
      exact .finalize claimToken z hw
    | requireManualReview claimToken =>
      simp only [run] at hr
      split at hr <;> cases hr
      exact .review claimToken hw
    | scheduleRetry claimToken t =>
      simp only [run] at hr
      split at hr <;> cases hr
      exact .retry claimToken t hw
  · split at h
    · obtain ⟨p', -, rfl⟩ := Option.map_eq_some_iff.mp h
      cases hw
    · cases h

/-- What a recovery goes on to: the copy it selects, the claim it draws, what it finds. -/
inductive Next (E : Env) (m : Meeting) (e : Input) : Point → Point → Prop
  | select (h : m.readyForZoomRecoveryAt e.now = true) : Next E m e .select (.claim m)
  | claim (meeting : Meeting) : Next E m e (.claim meeting) (.findMatches meeting e.uuid)
  | found (meeting : Meeting) (token : Uuid) (found : List ZoomMeeting)
    (h : findMatches E meeting e.reply = some found) :
    Next E m e (.findMatches meeting token) (onMatches token found)
  | retry (p : Point) (token : Uuid) (t : Throwable) : Next E m e p (.scheduleRetry token (some t))

theorem step_next {p q : Point} {e : Input} {o : Outcome Point} (h : step E p m e = some o)
    (hq : o.next = some q) : Next E m e p q := by
  unfold step at h
  split at h
  · rename_i o' hr
    cases h
    cases p with
    | select =>
      cases hr
      split at hq <;> cases hq
      exact .select (by assumption)
    | claim meeting =>
      simp only [run] at hr
      split at hr <;> cases hr <;> cases hq
      exact .claim meeting
    | findMatches meeting token =>
      obtain ⟨found, hf, rfl⟩ := Option.map_eq_some_iff.mp hr
      cases hq
      exact .found meeting token found hf
    | finalize token z | requireManualReview token | scheduleRetry token t =>
      simp only [run] at hr
      split at hr <;> cases hr
      cases hq
  · split at h
    · rename_i t _
      obtain ⟨p', hp', rfl⟩ := Option.map_eq_some_iff.mp h
      cases hq
      cases p with
      | scheduleRetry token t' =>
        cases t' <;> cases hp'
        exact .retry _ token t
      | select | claim => cases hp'
      | findMatches | finalize | requireManualReview =>
        cases hp'
        exact .retry _ _ t
    · cases h

theorem step_moves {p : Point} {e : Input} {o : Outcome Point}
    (hf : ∀ meeting, p = .claim meeting → fresh e.uuid)
    (h : step E p m e = some o) (hw : o.written = some m') : m.Moves fresh m' := by
  cases step_writes h hw with
  | claim meeting hc => exact claim_moves (hf meeting rfl) hc
  | finalize claimToken z hx => exact (execute_written hx).2.1
  | review claimToken hr => exact requireManualReview_moves hr
  | retry claimToken t hr => exact scheduleRetry_moves hr

/-- Of the steps of a recovery, only finalising leaves the meeting Active. -/
theorem step_active {p : Point} {e : Input} {o : Outcome Point} (h : step E p m e = some o)
    (hw : o.written = some m') (ha : m'.syncStatus = .active) :
    ∃ claimToken z, p = .finalize claimToken z ∧ (execute m (some claimToken) z e.now).written = some m' := by
  have owned {claimToken : Uuid} (ho : ownsLiveClaim m claimToken e.now = true)
      (hs : m'.syncStatus = m.syncStatus) : False := by
    cases (ownsLiveClaim_iff.mp ho).1.symm.trans (hs.symm.trans ha)
  cases step_writes h hw with
  | claim meeting hc =>
    unfold claim at hc
    split at hc <;> cases hc
    cases ha
  | finalize claimToken z hx => exact ⟨claimToken, z, rfl, hx⟩
  | review claimToken hr =>
    unfold requireManualReview at hr
    split at hr <;> cases hr
    exact (owned (by assumption) rfl).elim
  | retry claimToken t hr =>
    unfold scheduleRetry at hr
    split at hr
    · cases hr
    · rename_i ho
      split at hr <;> cases hr <;> exact (owned (by simpa using ho) rfl).elim

/-- A recovery that makes the meeting Active stores the Zoom id it found. -/
theorem finalize_written {claimToken : Uuid} {z : ZoomMeeting} {e : Input} {o : Outcome Point}
    (h : step E (.finalize claimToken z) m e = some o) (hw : o.written = some m')
    (hs : m'.syncStatus = .active) : m'.meetingId = some z.meetingId := by
  cases step_writes h hw with
  | finalize claimToken z hx =>
    obtain ⟨-, -, hu | ⟨-, hid⟩⟩ : _ ∧ m.Moves (fun _ => True) m' ∧ _ := execute_written hx
    · cases hs.symm.trans hu
    · exact hid

end RecoverAmbiguousZoomMeeting

/-! ### ResolveAmbiguousZoomMeetingManually -/

namespace ResolveAmbiguousZoomMeetingManually

variable (E : Env)

def markNotCreated (m : Meeting) : Commit :=
  if !m.awaitsManualZoomRecovery then .throws (.other none)
  else .afterTransition (m.transitionTo .failed) fun m =>
    { m with
      syncError := some "manually_confirmed_not_created"
      syncClaimToken := none
      syncLeaseExpiresAt := none
      syncAvailableAt := none }

inductive Point where
  | withZoomMeetingId (zoomMeetingId : ZoomId)
  /-- `getMeeting` is with Zoom. -/
  | byMeetingId (meeting : Meeting) (zoomMeetingId : ZoomId)
  | finalize (z : ZoomMeeting)
  | markNotCreated

def step : Point → Meeting → Input → Option (Outcome Point)
  | .withZoomMeetingId id, m, _ =>
    some (if m.awaitsManualZoomRecovery then .goOn (.byMeetingId m id) else .stop)
  | .byMeetingId meeting _, _, e =>
    match e.reply with
    | .fetched z =>
      some ⟨none, (FindZoomMeetingForRecovery.byMeetingId E meeting z).map .finalize⟩
    | _ => none
  | .finalize z, m, e => some (.last (FinalizeZoomMeetingRecovery.execute m none z e.now))
  | .markNotCreated, m, _ => some (.last (markNotCreated m))

variable {E} {fresh : Uuid → Prop} {m m' : Meeting}

theorem markNotCreated_moves (h : (markNotCreated m).written = some m') : m.Moves fresh m' := by
  unfold markNotCreated at h
  split at h
  · cases h
  rename_i ha
  have hs : m.syncStatus = .createUnknown := by
    simp only [Meeting.awaitsManualZoomRecovery, Bool.and_eq_true, beq_iff_eq, Bool.not_eq_true',
      Bool.not_eq_false] at ha
    exact ha.1.1.1
  obtain ⟨m₁, h₁, rfl⟩ := Commit.afterTransition_written h
  obtain ⟨-, rfl⟩ := Meeting.transitionTo_ok h₁
  exact ⟨.reject m.sync (.inr hs), id⟩

theorem step_moves {p : Point} {e : Input} {o : Outcome Point} (h : step E p m e = some o)
    (hw : o.written = some m') : m.Moves fresh m' := by
  cases p with
  | withZoomMeetingId id =>
    cases h
    split at hw <;> cases hw
  | byMeetingId meeting id =>
    simp only [step] at h
    split at h <;> cases h
    cases hw
  | finalize z =>
    cases h
    exact (FinalizeZoomMeetingRecovery.execute_written hw).2.1
  | markNotCreated =>
    cases h
    exact markNotCreated_moves hw

/-- What a manual resolution goes on to. -/
inductive Next (E : Env) (m : Meeting) (e : Input) : Point → Point → Prop
  | fetch (id : ZoomId) (h : m.awaitsManualZoomRecovery = true) : Next E m e (.withZoomMeetingId id) (.byMeetingId m id)
  | found (meeting : Meeting) (id : ZoomId) (z : ZoomMeeting) (hr : e.reply = .fetched (some z))
    (hz : matchesOperationId E z meeting.syncOperationId = true) : Next E m e (.byMeetingId meeting id) (.finalize z)

theorem step_next {p q : Point} {e : Input} {o : Outcome Point} (h : step E p m e = some o)
    (hq : o.next = some q) : Next E m e p q := by
  cases p with
  | withZoomMeetingId id =>
    cases h
    split at hq <;> cases hq
    exact .fetch id (by assumption)
  | byMeetingId meeting id =>
    simp only [step] at h
    split at h <;> cases h
    rename_i fetched hr
    obtain ⟨z, hz, rfl⟩ := Option.map_eq_some_iff.mp hq
    obtain ⟨rfl, hm⟩ := Option.filter_eq_some_iff.mp hz
    exact .found meeting id z hr hm
  | finalize | markNotCreated =>
    cases h
    cases hq

/-- Of the steps of a manual resolution, only finalising leaves the meeting Active. -/
theorem step_active {p : Point} {e : Input} {o : Outcome Point} (h : step E p m e = some o)
    (hw : o.written = some m') (ha : m'.syncStatus = .active) :
    ∃ z, p = .finalize z ∧ (FinalizeZoomMeetingRecovery.execute m none z e.now).written = some m' := by
  cases p with
  | withZoomMeetingId id =>
    cases h
    split at hw <;> cases hw
  | byMeetingId meeting id =>
    simp only [step] at h
    split at h <;> cases h
    cases hw
  | finalize z =>
    cases h
    exact ⟨z, rfl, hw⟩
  | markNotCreated =>
    cases h
    simp only [Outcome.last_written, markNotCreated] at hw
    split at hw
    · cases hw
    · obtain ⟨m₁, h₁, rfl⟩ := Commit.afterTransition_written hw
      obtain ⟨-, rfl⟩ := Meeting.transitionTo_ok h₁
      cases ha

end ResolveAmbiguousZoomMeetingManually

end Daywright
