/-
# The processes on one meeting

Every actor that writes the row, interleaved over it: the creation whose request
is with Zoom, users who update and delete, the scheduler and the recovery jobs it
dispatches, the recoveries of creations, and the webhooks. A job may also arrive
with any operation id and any token, as a queue delivers old jobs again. Uuids
are drawn fresh: a step that draws one draws none drawn before (`issued`).

Key definitions: `Store`, `Point`, `program`, `created`, `Continues`.
-/
import Daywright.Interleave
import Daywright.Meetings.Create
import Daywright.Meetings.Update
import Daywright.Meetings.Delete
import Daywright.Meetings.Recovery
import Daywright.Meetings.Ambiguous
import Daywright.Webhooks.Meeting
import Daywright.Webhooks.MeetingUpdated

namespace Daywright
namespace Meetings

open Interleave

/-- Where a process stands. -/
inductive Point where
  | create (p : CreateProjectMeeting.Point)
  | update (p : UpdateProjectMeeting.Point)
  | delete (p : DeleteProjectMeeting.Point)
  /-- `RecoverPendingZoomMeetingOperations::execute`. -/
  | recoverPending
  | recovery (job : RecoverZoomMeetingOperationJob) (stage : PerformZoomMeetingRecovery.Stage)
  | ambiguous (p : RecoverAmbiguousZoomMeeting.Point)
  | manual (p : ResolveAmbiguousZoomMeetingManually.Point)
  | createdWebhook (data : MeetingCreatedWebhookData)
  | updatedWebhook (p : HandleMeetingUpdatedWebhook.Point)
  | deletedWebhook (p : HandleMeetingDeletedWebhook.Point)
  | startedWebhook (p : RuntimeWebhookPoint)
  | endedWebhook (p : RuntimeWebhookPoint)

namespace Point

/-- Where a process begins. -/
def entry : Point → Bool
  | .update (.saveUpdateIntent _) => true
  | .delete .handle => true
  | .recoverPending => true
  | .recovery _ .execute => true
  | .ambiguous .select => true
  | .manual (.withZoomMeetingId _) | .manual .markNotCreated => true
  | .createdWebhook _ => true
  | .updatedWebhook (.handle _ _) => true
  | .deletedWebhook (.handle _ _) => true
  | .startedWebhook (.handle _) | .endedWebhook (.handle _) => true
  | _ => false

/-- The steps that draw a uuid: an operation id or a claim token. -/
def drawsUuid : Point → Bool
  | .update (.saveUpdateIntent _) => true
  | .delete .saveDeleteIntent => true
  | .recoverPending => true
  | .ambiguous (.claim _) => true
  | _ => false

end Point

/-- The scheduler's transaction, and the job it dispatches for the row claimed. -/
def recoverPendingStep (m : Meeting) (e : Input) : Outcome Point :=
  match RecoverPendingZoomMeetingOperations.claimNextDueOperation m e.uuid e.now e.now with
  | .wrote m' =>
    ⟨some m', m'.syncOperationId.map fun operationId => .recovery ⟨operationId, e.uuid⟩ .execute⟩
  | _ => .stop

/-- One step of a process. -/
def act (E : Env) (p : Point) (m : Meeting) (e : Input) : Option (Outcome Point) :=
  match p with
  | .create p => (CreateProjectMeeting.step p m e).map (·.map .create)
  | .update p => (UpdateProjectMeeting.step p m e).map (·.map .update)
  | .delete p => (DeleteProjectMeeting.step p m e).map (·.map .delete)
  | .recoverPending => some (recoverPendingStep m e)
  | .recovery job stage => (PerformZoomMeetingRecovery.step E job stage m e).map (·.map (.recovery job))
  | .ambiguous p => (RecoverAmbiguousZoomMeeting.step E p m e).map (·.map .ambiguous)
  | .manual p => (ResolveAmbiguousZoomMeetingManually.step E p m e).map (·.map .manual)
  | .createdWebhook data => some (.last (HandleMeetingCreatedWebhook.handle data m e.now))
  | .updatedWebhook p => (HandleMeetingUpdatedWebhook.step E p m e).map (·.map .updatedWebhook)
  | .deletedWebhook p => (HandleMeetingDeletedWebhook.step p m e).map (·.map .deletedWebhook)
  | .startedWebhook p =>
    (runtimeWebhookStep HandleMeetingStartedWebhook.transitionToStarted p m e).map (·.map .startedWebhook)
  | .endedWebhook p =>
    (runtimeWebhookStep HandleMeetingEndedWebhook.transitionToEnded p m e).map (·.map .endedWebhook)

/-- The row, and the uuids drawn so far. -/
structure Store where
  row : Meeting
  issued : List Uuid

def program (E : Env) : Program Store Point Input where
  entry := Point.entry
  move s p e :=
    if p.drawsUuid && s.issued.contains e.uuid then none
    else (act E p s.row e).map fun o =>
      (⟨o.written.getD s.row, if p.drawsUuid then e.uuid :: s.issued else s.issued⟩, o.next)

/-- The row has been inserted and its creation is with Zoom. -/
def created (data : MeetingStoreData) (operationId : Uuid) (now : Time) : Config Store Point :=
  ⟨⟨CreateProjectMeeting.createMeetingWithOperation data operationId now, [operationId]⟩,
    [.create .createMeeting]⟩

variable {E : Env}

/-- What a move with outcome `o` is: the row it leaves and, where it draws one, a
fresh uuid. -/
structure Moved (E : Env) (s : Store) (p : Point) (e : Input) (s' : Store) (k : Option Point)
    (o : Outcome Point) : Prop where
  outcome : act E p s.row e = some o
  next : k = o.next
  row : s'.row = o.written.getD s.row
  issued : s'.issued = if p.drawsUuid then e.uuid :: s.issued else s.issued
  fresh : p.drawsUuid = true → e.uuid ∉ s.issued

theorem moved {s s' : Store} {p : Point} {e : Input} {k : Option Point}
    (h : (program E).move s p e = some (s', k)) : ∃ o, Moved E s p e s' k o := by
  simp only [program] at h
  split at h
  · cases h
  · rename_i hd
    obtain ⟨o, ho, he⟩ := Option.map_eq_some_iff.mp h
    simp only [Prod.mk.injEq] at he
    obtain ⟨rfl, rfl⟩ := he
    refine ⟨o, ho, rfl, rfl, rfl, fun hp => ?_⟩
    simpa [hp] using hd

/-- What a move goes on to: a job and a search go on from their own steps. -/
inductive Continues (E : Env) (s : Store) (e : Input) : Point → Point → Prop
  | dispatch (job) : Continues E s e .recoverPending (.recovery job .execute)
  | recovery {job p q} (h : PerformZoomMeetingRecovery.Next E job s.row e p q) :
    Continues E s e (.recovery job p) (.recovery job q)
  | ambiguous {p q} (h : RecoverAmbiguousZoomMeeting.Next E s.row e p q) : Continues E s e (.ambiguous p) (.ambiguous q)
  | manual {p q} (h : ResolveAmbiguousZoomMeetingManually.Next E s.row e p q) : Continues E s e (.manual p) (.manual q)
  | other (p r) (hr : ∀ job q, r ≠ .recovery job q) (ha : ∀ q, r ≠ .ambiguous q) (hm : ∀ q, r ≠ .manual q) :
    Continues E s e p r

theorem continues {s s' : Store} {p r : Point} {e : Input} (h : (program E).move s p e = some (s', some r)) :
    Continues E s e p r := by
  obtain ⟨o, ho, hk, -, -, -⟩ := moved h
  cases p with
  | recovery job stage =>
    obtain ⟨o₁, ho₁, rfl⟩ := Option.map_eq_some_iff.mp ho
    obtain ⟨q, hq, rfl⟩ := Option.map_eq_some_iff.mp hk.symm
    exact .recovery (PerformZoomMeetingRecovery.step_next ho₁ hq)
  | ambiguous p =>
    obtain ⟨o₁, ho₁, rfl⟩ := Option.map_eq_some_iff.mp ho
    obtain ⟨q, hq, rfl⟩ := Option.map_eq_some_iff.mp hk.symm
    exact .ambiguous (RecoverAmbiguousZoomMeeting.step_next ho₁ hq)
  | manual p =>
    obtain ⟨o₁, ho₁, rfl⟩ := Option.map_eq_some_iff.mp ho
    obtain ⟨q, hq, rfl⟩ := Option.map_eq_some_iff.mp hk.symm
    exact .manual (ResolveAmbiguousZoomMeetingManually.step_next ho₁ hq)
  | recoverPending =>
    cases ho
    unfold recoverPendingStep at hk
    split at hk
    · obtain ⟨op, -, rfl⟩ := Option.map_eq_some_iff.mp hk.symm
      exact .dispatch _
    · cases hk
  | createdWebhook data =>
    cases ho
    cases hk
  | _ =>
    obtain ⟨o₁, -, rfl⟩ := Option.map_eq_some_iff.mp ho
    obtain ⟨q, -, rfl⟩ := Option.map_eq_some_iff.mp hk.symm
    exact .other _ _ (by simp) (by simp) (by simp)

/-! ### A run to start from -/

namespace Sample

/-- A reading of dates that knows one date. -/
def env : Env where
  carbonParse s := if s = "2026-01-01 10:00:00" then some 1767261600000000 else none
  trackingField := "Daywright Operation ID"

def storeData : MeetingStoreData :=
  ⟨"Planning", "", 30, "2026-01-01 10:00:00", "UTC", "secret", false⟩

def zoomMeeting : ZoomMeeting :=
  ⟨77, "Planning", "", 30, "2026-01-01 10:00:00", "https://zoom.us/s/77", "https://zoom.us/j/77", "waiting",
    "UTC", "secret", false, [("Daywright Operation ID", "op-create")]⟩

def start : Config Store Point := created storeData "op-create" 0

/-- The row, once its creation is recorded. -/
def meeting : Meeting :=
  (CreateProjectMeeting.finalizeMeetingAsActive start.store.row zoomMeeting 1000).written.getD start.store.row

def input (now : Time) (uuid : Uuid) (reply : Reply) : Input := ⟨now, uuid, reply⟩

/-- The webhook attaches the Zoom id while the creation is outstanding, and the
recovery of the creation finds the meeting and makes it Active. -/
def establish : List (Act Point Input) :=
  [.arrive (.createdWebhook ⟨77, some "op-create", some "https://zoom.us/j/77", some "open_api"⟩),
    .move 1 (input 1000 "" .none),
    .arrive (.ambiguous .select),
    .move 1 (input 2000 "" .none),
    .move 1 (input 2000 "token-create" .none),
    .move 1 (input 3000 "" (.fetched (some zoomMeeting))),
    .move 1 (input 3000 "" .none)]

/-- A user changes the topic; the request is with Zoom. -/
def startUpdate : List (Act Point Input) :=
  [.arrive (.update (.saveUpdateIntent ⟨some "Retrospective", none, none, none, none, none, none⟩)),
    .move 1 (input 60000 "op-update" .none)]

/-- A user deletes the meeting; the request is with Zoom. -/
def startDelete : List (Act Point Input) :=
  [.arrive (.delete .handle), .move 1 (input 60000 "" .none), .move 1 (input 60000 "op-delete" .none)]

/-- The creation is answered with this meeting. -/
def answerCreate (z : ZoomMeeting) : Act Point Input := .move 0 (input 70000 "" (.created z))

/-- The creation is answered; then a user changes the topic, and the request is with Zoom. -/
def answered : List (Act Point Input) :=
  [answerCreate zoomMeeting,
    .arrive (.update (.saveUpdateIntent ⟨some "Retrospective", none, none, none, none, none, none⟩)),
    .move 0 (input 80000 "op-update" .none)]

end Sample

/-- An event that reports the new topic. -/
def topicChanged : MeetingUpdatedWebhookData where
  meetingId := 77
  changes := [("topic", .str "Retrospective")]
  accepted := by simp

/-- An event that reports the new agenda. -/
def agendaChanged : MeetingUpdatedWebhookData where
  meetingId := 77
  changes := [("agenda", .str "Demo")]
  accepted := by simp

end Meetings
end Daywright
