/-
# The runtime events of a meeting, from the inbox to the row

The processes on a meeting (`Meetings.program`) and the inbox (`Inbox.program`) put
together: a worker that has claimed a meeting.started or meeting.ended event runs
its handler, which reads the meeting and then updates it. The handlers of the other
events are processes of the meeting, which may run at any time. `meetingIdOf` reads
the Zoom id off the payload that is stored with an event key.

An event that is Completed has set the runtime status, or its handler has found no
Active meeting of that id and has ignored it (`runtime_status_converges`); a handler
does so on purpose, and the run `ignored_while_updating` loses the end of a meeting.

Key definitions: `RuntimeEvents.program`, `CompletedBy`, `IgnoredBy`.
Key theorem: `runtime_status_converges`.
-/
import Daywright.Inbox.Ownership
import Daywright.Meetings.RuntimeStatus

namespace Daywright
namespace RuntimeEvents

open Interleave

structure Store where
  meeting : Meetings.Store
  inbox : Inbox.Store

/-- Where a process stands. -/
inductive Point where
  | meeting (p : Meetings.Point)
  | inbox (p : Inbox.Point)
  /-- The handler has found the meeting Active. -/
  | handling (id : ℕ) (claimToken : Uuid) (claimed : WebhookInbox)

inductive Input where
  | meeting (e : Daywright.Input)
  | inbox (e : Inbox.Input)

/-- The handlers of the runtime events run for the inbox only. -/
def Point.entry : Point → Bool
  | .meeting (.startedWebhook _) | .meeting (.endedWebhook _) => false
  | .meeting p => p.entry
  | .inbox p => Inbox.program.entry p
  | .handling _ _ _ => false

/-- The handler finds the meeting of the event, Active. -/
def finds (meetingIdOf : String → ZoomId) (m : Meeting) (claimed : WebhookInbox) : Bool :=
  (Meetings.handlerOf claimed.eventType).isSome && m.sameMeetingId (meetingIdOf claimed.eventKey) &&
    ZoomWebhookSupport.ensureActiveSyncStatus m

/-- The update of the handler, and what follows in it. -/
def transition (E : Env) (m : Meetings.Store) (claimed : WebhookInbox) (e : Inbox.Input) : Meetings.Store :=
  match Meetings.handlerOf claimed.eventType with
  | none => m
  | some handler =>
    match e.answer with
    | .throws _ => m
    | _ => (((Meetings.program E).move m (handler .transition) ⟨e.now, "", .none⟩).map Prod.fst).getD m

/-- A handler that finds its meeting and does not throw goes on to the update. -/
def goesOn (meetingIdOf : String → ZoomId) (m : Meeting) (p : Inbox.Point) (e : Inbox.Input) : Option Point :=
  match p with
  | .execute id claimToken claimed =>
    if finds meetingIdOf m claimed && e.answer == .returned then some (.handling id claimToken claimed) else none
  | _ => none

/-- A step of the inbox alone. -/
def inboxMove (s : Store) (p : Inbox.Point) (e : Inbox.Input) : Option (Store × Option Point) :=
  (Inbox.program.move s.inbox p e).map fun (i, k) => (⟨s.meeting, i⟩, k.map .inbox)

def move (E : Env) (meetingIdOf : String → ZoomId) (s : Store) (p : Point) (e : Input) :
    Option (Store × Option Point) :=
  match p, e with
  | .meeting p, .meeting e =>
    ((Meetings.program E).move s.meeting p e).map fun (m, k) => (⟨m, s.inbox⟩, k.map .meeting)
  | .inbox p, .inbox e =>
    match goesOn meetingIdOf s.meeting.row p e with
    | some q => some (s, some q)
    | none => inboxMove s p e
  | .handling id claimToken claimed, .inbox e =>
    inboxMove ⟨transition E s.meeting claimed e, s.inbox⟩ (.execute id claimToken claimed) e
  | _, _ => none

def program (E : Env) (meetingIdOf : String → ZoomId) : Program Store Point Input where
  entry := Point.entry
  move := move E meetingIdOf

/-- The row has been inserted, its creation is with Zoom, and the inbox is empty. -/
def start (data : MeetingStoreData) (operationId : Uuid) (now : Time) : Config Store Point :=
  ⟨⟨(Meetings.created data operationId now).store, Inbox.start.store⟩, [.meeting (.create .createMeeting)]⟩

variable {E : Env} {meetingIdOf : String → ZoomId} {s s' : Store} {p q : Point} {e : Input} {k : Option Point}

/-- What a move is. -/
inductive Moved (E : Env) (meetingIdOf : String → ZoomId) (s s' : Store) (k : Option Point) : Point → Input → Prop
  | meeting (p : Meetings.Point) (e : Daywright.Input) (k' : Option Meetings.Point) :
      (Meetings.program E).move s.meeting p e = some (s'.meeting, k') → s'.inbox = s.inbox →
      k = k'.map .meeting → Moved E meetingIdOf s s' k (.meeting p) (.meeting e)
  /-- A handler that returns here has ignored the event. -/
  | inbox (p : Inbox.Point) (e : Inbox.Input) (k' : Option Inbox.Point) :
      Inbox.program.move s.inbox p e = some (s'.inbox, k') → s'.meeting = s.meeting → k = k'.map .inbox →
      (∀ id t claimed, p = .execute id t claimed → e.answer = .returned →
        finds meetingIdOf s.meeting.row claimed = false) →
      Moved E meetingIdOf s s' k (.inbox p) (.inbox e)
  | found (id : ℕ) (t : Uuid) (claimed : WebhookInbox) (e : Inbox.Input) :
      finds meetingIdOf s.meeting.row claimed = true → s' = s → k = some (.handling id t claimed) →
      Moved E meetingIdOf s s' k (.inbox (.execute id t claimed)) (.inbox e)
  | handled (id : ℕ) (t : Uuid) (claimed : WebhookInbox) (e : Inbox.Input) (k' : Option Inbox.Point) :
      Inbox.program.move s.inbox (.execute id t claimed) e = some (s'.inbox, k') →
      s'.meeting = transition E s.meeting claimed e → k = k'.map .inbox →
      Moved E meetingIdOf s s' k (.handling id t claimed) (.inbox e)

theorem inboxMove_some {p : Inbox.Point} {e : Inbox.Input} (h : inboxMove s p e = some (s', k)) :
    ∃ k', Inbox.program.move s.inbox p e = some (s'.inbox, k') ∧ s'.meeting = s.meeting ∧ k = k'.map .inbox := by
  obtain ⟨⟨i, k'⟩, hm, he⟩ := Option.map_eq_some_iff.mp h
  cases he
  exact ⟨k', hm, rfl, rfl⟩

theorem goesOn_some {m : Meeting} {p : Inbox.Point} {e : Inbox.Input} (h : goesOn meetingIdOf m p e = some q) :
    ∃ id t claimed, p = .execute id t claimed ∧ finds meetingIdOf m claimed = true ∧
      q = .handling id t claimed := by
  unfold goesOn at h
  split at h
  · split at h <;> cases h
    rename_i hc
    simp only [Bool.and_eq_true] at hc
    exact ⟨_, _, _, rfl, hc.1, rfl⟩
  · cases h

theorem moved (h : (program E meetingIdOf).move s p e = some (s', k)) : Moved E meetingIdOf s s' k p e := by
  simp only [program, move] at h
  split at h
  · obtain ⟨⟨m, k'⟩, hm, he⟩ := Option.map_eq_some_iff.mp h
    cases he
    exact .meeting _ _ k' hm rfl rfl
  · rename_i p e
    split at h
    · rename_i q hq
      cases h
      obtain ⟨id, t, claimed, rfl, hf, rfl⟩ := goesOn_some hq
      exact .found id t claimed e hf rfl rfl
    · rename_i hn
      obtain ⟨k', hm, hs, hk⟩ := inboxMove_some h
      refine .inbox _ e k' hm hs hk ?_
      rintro id t claimed rfl hr
      simpa [goesOn, hr] using hn
  · obtain ⟨k', hm, hs, hk⟩ := inboxMove_some h
    exact .handled _ _ _ _ k' hm hs hk
  · cases h

/-! ### The two components -/

/-- What a process is to the meeting: a worker at a runtime event is its handler. -/
def Point.onMeeting (meetingIdOf : String → ZoomId) : Point → Option Meetings.Point
  | .meeting p => some p
  | .inbox (.execute _ _ claimed) => (Meetings.handlerOf claimed.eventType).map fun handler =>
      handler (.handle (meetingIdOf claimed.eventKey))
  | .inbox _ => none
  | .handling _ _ claimed => (Meetings.handlerOf claimed.eventType).map fun handler => handler .transition

/-- What it is to the inbox. -/
def Point.onInbox : Point → Option Inbox.Point
  | .meeting _ => none
  | .inbox p => some p
  | .handling id t claimed => some (.execute id t claimed)

/-- The answer of the creation makes the meeting Active under a pending operation. -/
def AnswersLate (s : Store) (p : Point) (e : Input) : Prop :=
  ∃ p' e', p = .meeting p' ∧ e = .meeting e' ∧ Meetings.ActivatesLate s.meeting p' e'

theorem handlerOf_cases {eventType : String} {handler : RuntimeWebhookPoint → Meetings.Point}
    (h : Meetings.handlerOf eventType = some handler) : handler = .startedWebhook ∨ handler = .endedWebhook := by
  unfold Meetings.handlerOf at h
  split at h
  · cases h
    exact .inl rfl
  · split at h <;> cases h
    exact .inr rfl

/-- The first step of a handler that finds its meeting. -/
theorem handler_finds {m : Meetings.Store} {claimed : WebhookInbox}
    (h : finds meetingIdOf m.row claimed = true) :
    ∃ handler, Meetings.handlerOf claimed.eventType = some handler ∧
      (Meetings.program E).move m (handler (.handle (meetingIdOf claimed.eventKey))) ⟨0, "", .none⟩ =
        some (m, some (handler .transition)) := by
  simp only [finds, Bool.and_eq_true] at h
  obtain ⟨handler, hh⟩ := Option.isSome_iff_exists.mp h.1.1
  refine ⟨handler, hh, ?_⟩
  rcases handlerOf_cases hh with rfl | rfl <;>
    simp [Meetings.program, Meetings.Point.drawsUuid, Meetings.act, runtimeWebhookStep, h.1.2, h.2,
      Outcome.goOn, Outcome.map]

/-- The update of a handler is a step of it, unless it throws. -/
theorem transition_move {m : Meetings.Store} {claimed : WebhookInbox} {e : Inbox.Input}
    {handler : RuntimeWebhookPoint → Meetings.Point} (hh : Meetings.handlerOf claimed.eventType = some handler) :
    (∃ x, e.answer = .throws x) ∧ transition E m claimed e = m ∨
      (Meetings.program E).move m (handler .transition) ⟨e.now, "", .none⟩ =
        some (transition E m claimed e, none) := by
  have moves : ∃ m', (Meetings.program E).move m (handler .transition) ⟨e.now, "", .none⟩ = some (m', none) := by
    rcases handlerOf_cases hh with rfl | rfl <;>
      exact ⟨_, by simp [Meetings.program, Meetings.Point.drawsUuid, Meetings.act, runtimeWebhookStep,
        Outcome.last, Outcome.map]; rfl⟩
  obtain ⟨m', hm⟩ := moves
  cases ha : e.answer with
  | throws x => exact .inl ⟨⟨x, rfl⟩, by simp [transition, ha, hh]⟩
  | returned => exact .inr (by simp [transition, ha, hh, hm])
  | throwsAfter x => exact .inr (by simp [transition, ha, hh, hm])

/-- Only a worker that has read its claim comes to run a handler. -/
theorem next_not_execute {i : Inbox.Store} {id : ℕ} {t : Uuid} {claimed : WebhookInbox} {e : Inbox.Input}
    {i' : Inbox.Store} {k' : Option Inbox.Point}
    (h : Inbox.program.move i (.execute id t claimed) e = some (i', k')) :
    (k'.map Point.inbox).bind (Point.onMeeting meetingIdOf) = none := by
  have hk := (Inbox.moved h).next
  simp only [Inbox.act] at hk
  split at hk <;> rw [hk] <;> rfl

theorem meetingComponent : Component (program E meetingIdOf) (Meetings.program E) Store.meeting
    (Point.onMeeting meetingIdOf) (fun s p e => ¬ AnswersLate s p e)
    (fun s p e => ¬ Meetings.ActivatesLate s p e) where
  entry p q hp hq := by
    cases p with
    | meeting p =>
      cases hq
      cases q <;> first | exact hp | cases hp
    | inbox p => cases p <;> first | cases hq | cases hp
    | handling => cases hp
  move s p e s' k hok h := by
    cases moved h with
    | meeting p e k' hm hi hk =>
      refine .inr ⟨p, e, rfl, fun hl => hok ⟨p, e, rfl, rfl, hl⟩, ?_⟩
      rw [hm, hk]
      cases k' <;> rfl
    | inbox p e k' hm hs hk hn =>
      refine .inl ⟨hs, fun q hq => .inr ?_⟩
      rw [hk] at hq
      obtain ⟨r, hr, hq⟩ := Option.bind_eq_some_iff.mp hq
      obtain ⟨r', -, rfl⟩ := Option.map_eq_some_iff.mp hr
      cases r' <;> try cases hq
      obtain ⟨handler, hh, rfl⟩ := Option.map_eq_some_iff.mp hq
      rcases handlerOf_cases hh with rfl | rfl <;> rfl
    | found id t claimed e hf hs hk =>
      obtain ⟨handler, hh, hm⟩ := handler_finds (E := E) hf
      refine .inr ⟨handler (.handle (meetingIdOf claimed.eventKey)), ⟨0, "", .none⟩, ?_, ?_, ?_⟩
      · simp [Point.onMeeting, hh]
      · rintro ⟨q, z, hp, -⟩
        rcases handlerOf_cases hh with rfl | rfl <;> cases hp
      · rw [hm, hs, hk]
        simp [Point.onMeeting, hh]
    | handled id t claimed e k' hm hs hk =>
      have hnone : k.bind (Point.onMeeting meetingIdOf) = none := hk ▸ next_not_execute hm
      rw [hs, hnone]
      cases hh : Meetings.handlerOf claimed.eventType with
      | none =>
        have ht : transition E s.meeting claimed e = s.meeting := by simp only [transition, hh]
        exact .inl ⟨ht, fun q hq => by cases hq⟩
      | some handler =>
        rcases transition_move (E := E) (m := s.meeting) (e := e) hh with ⟨-, ht⟩ | ht
        · exact .inl ⟨ht, fun q hq => by cases hq⟩
        · refine .inr ⟨handler .transition, ⟨e.now, "", .none⟩, by simp [Point.onMeeting, hh], ?_, ht⟩
          rintro ⟨q, z, hp, -⟩
          rcases handlerOf_cases hh with rfl | rfl <;> cases hp

theorem inboxComponent : Component (program E meetingIdOf) Inbox.program Store.inbox Point.onInbox
    (fun _ _ _ => True) (fun _ _ _ => True) where
  entry p q hp hq := by
    cases p with
    | meeting p => cases hq
    | inbox p =>
      cases hq
      exact hp
    | handling => cases hp
  move s p e s' k _ h := by
    cases moved h with
    | meeting p e k' hm hi hk =>
      refine .inl ⟨hi, fun q hq => ?_⟩
      rw [hk] at hq
      cases k' <;> cases hq
    | inbox p e k' hm hs hk hn =>
      refine .inr ⟨p, e, rfl, trivial, ?_⟩
      rw [hm, hk]
      cases k' <;> rfl
    | found id t claimed e hf hs hk =>
      refine .inl ⟨by rw [hs], fun q hq => .inl ?_⟩
      rw [hk] at hq
      exact hq
    | handled id t claimed e k' hm hs hk =>
      refine .inr ⟨.execute id t claimed, e, rfl, trivial, ?_⟩
      rw [hm, hk]
      cases k' <;> rfl

/-! ### Along a run -/

theorem meetingOutline : Outline (program E meetingIdOf) (fun s p e => ¬ AnswersLate s p e)
    (fun s => Meetings.Inv s.meeting ∧ s.meeting.row.StatusKnown)
    (fun s p => ∀ q, p.onMeeting meetingIdOf = some q →
      Meetings.Knowledge s.meeting q ∧ Meetings.Typed s.meeting q ∧ Meetings.FoundStatus s.meeting q) :=
  Meetings.runtimeOutline.pullback meetingComponent

theorem inboxOutline : ApartOutline (program E meetingIdOf) (fun s => Inbox.Inv s.inbox)
    (fun s p => ∀ q, p.onInbox = some q → Inbox.Knowledge s.inbox q)
    (fun p r => ∀ p' q, p.onInbox = some p' → r.onInbox = some q → Inbox.Distinct p' q) :=
  Inbox.outline.pullback inboxComponent

variable {data : MeetingStoreData} {operationId : Uuid} {t₀ : Time} {tr : List (Step Store Point Input)}
  {c c' : Config Store Point}

/-- No creation is answered late in the step. -/
def InTime (st : Step Store Point Input) : Prop := st.Meets fun s p e => ¬ AnswersLate s p e

theorem meeting_of_run (h : (program E meetingIdOf).Run (start data operationId t₀) tr c)
    (hok : ∀ st ∈ tr, InTime st) : Holds (fun s => Meetings.Inv s.meeting ∧ s.meeting.row.StatusKnown)
      (fun s p => ∀ q, p.onMeeting meetingIdOf = some q →
        Meetings.Knowledge s.meeting q ∧ Meetings.Typed s.meeting q ∧ Meetings.FoundStatus s.meeting q) c := by
  obtain ⟨hI, hA⟩ := Meetings.created_runtime data operationId t₀
  refine meetingOutline.run ⟨hI, fun p hp q hq => ?_⟩ h hok
  rw [List.mem_singleton.mp hp] at hq
  cases hq
  exact hA _ (List.mem_singleton_self _)

theorem inbox_of_run (h : (program E meetingIdOf).Run (start data operationId t₀) tr c) :
    Inbox.Inv c.store.inbox ∧ ∀ p ∈ c.procs, ∀ q, p.onInbox = some q → Inbox.Knowledge c.store.inbox q := by
  refine (inboxOutline.run ⟨Inbox.start_holds.1, fun p hp q hq => ?_⟩ ?_ h).1
  · rw [List.mem_singleton.mp hp] at hq
    cases hq
  · intro i j p r hij hp hr
    have hi := (List.getElem?_eq_some_iff.mp hp).1
    have hj := (List.getElem?_eq_some_iff.mp hr).1
    simp only [start, List.length_singleton] at hi hj
    omega

/-- What an event has brought about stays. -/
theorem reached_step {a : Act Point Input} {eventType : String} (hK : c.store.meeting.row.StatusKnown)
    (hs : (program E meetingIdOf).step c a = some c') (hok : InTime ⟨c, a, c'⟩)
    (hr : Meetings.Reached eventType c.store.meeting.row) : Meetings.Reached eventType c'.store.meeting.row := by
  rcases (program E meetingIdOf).step_store hs with he | ⟨p, e, k, hf, hm⟩
  · rwa [he]
  · rcases meetingComponent.move _ _ _ _ _ (hok p e hf) hm with ⟨he, -⟩ | ⟨p', e', -, hok', hm'⟩
    · rwa [he]
    · exact Meetings.runtimeStatus_stays hK hok' hm' hr

/-- The worker ran the handler, which found no Active meeting of the event. -/
def IgnoredBy (meetingIdOf : String → ZoomId) (tr : List (Step Store Point Input)) (id : ℕ) (claimToken : Uuid)
    (claimed : WebhookInbox) : Prop :=
  ∃ st ∈ tr, ∃ e, st.Fires (.inbox (.execute id claimToken claimed)) e ∧
    ¬ (st.pre.store.meeting.row.meetingId = some (meetingIdOf claimed.eventKey) ∧
      st.pre.store.meeting.row.syncStatus = .active)

theorem IgnoredBy.mono {tr' : List (Step Store Point Input)} {id : ℕ} {t : Uuid} {claimed : WebhookInbox}
    (h : IgnoredBy meetingIdOf tr id t claimed) : IgnoredBy meetingIdOf (tr ++ tr') id t claimed := by
  obtain ⟨st, hst, h⟩ := h
  exact ⟨st, List.mem_append_left _ hst, h⟩

theorem finds_eq_false {m : Meeting} {claimed : WebhookInbox}
    (he : (Meetings.handlerOf claimed.eventType).isSome = true) (h : finds meetingIdOf m claimed = false) :
    ¬ (m.meetingId = some (meetingIdOf claimed.eventKey) ∧ m.syncStatus = .active) := by
  rintro ⟨hid, ha⟩
  simp [finds, he, Meeting.sameMeetingId, hid, ZoomWebhookSupport.ensureActiveSyncStatus,
    MeetingSyncStatus.acceptsZoomRuntimeWebhook, ha] at h

/-- Whoever is about to complete an event comes from its handler, which returned. -/
theorem execute_of_next {i i' : Inbox.Store} {p : Inbox.Point} {e : Inbox.Input} {id : ℕ} {t : Uuid}
    {claimed : WebhookInbox}
    (h : Inbox.program.move i p e = some (i', some (.completeActiveClaim id t claimed))) :
    p = .execute id t claimed ∧ e.answer = .returned := by
  obtain ⟨hp, hr⟩ := Inbox.handler_returned h
  refine ⟨hp, ?_⟩
  unfold HandlePersistedZoomWebhookAction.execute at hr
  split at hr
  · exact hr
  · cases hr

/-- A worker that is about to complete a runtime event has run its handler: the
event was ignored, or it has brought its status about. -/
theorem handled_of_proc (h : (program E meetingIdOf).Run (start data operationId t₀) tr c)
    (hok : ∀ st ∈ tr, InTime st) {id : ℕ} {t : Uuid} {claimed : WebhookInbox}
    (hp : .inbox (.completeActiveClaim id t claimed) ∈ c.procs)
    (he : (Meetings.handlerOf claimed.eventType).isSome = true) :
    IgnoredBy meetingIdOf tr id t claimed ∨ Meetings.Reached claimed.eventType c.store.meeting.row := by
  induction h with
  | nil => simp [start] at hp
  | @snoc tr c c' a hr hs ih =>
    have hok' : ∀ st ∈ tr, InTime st := fun st hst => hok st (List.mem_append_left _ hst)
    have hlast : InTime ⟨c, a, c'⟩ := hok _ (by simp)
    obtain ⟨⟨-, hK⟩, hA⟩ := meeting_of_run hr hok'
    have older (hp : .inbox (.completeActiveClaim id t claimed) ∈ c.procs) :
        IgnoredBy meetingIdOf (tr ++ [⟨c, a, c'⟩]) id t claimed ∨
          Meetings.Reached claimed.eventType c'.store.meeting.row :=
      (ih hok' hp).imp .mono (reached_step hK hs hlast)
    rcases (program E meetingIdOf).step_cases hs with
      ⟨p, rfl, hentry, rfl⟩ | ⟨i, rfl, rfl⟩ | ⟨i, e, p, s, k, rfl, hpi, hm, rfl, hq⟩
    · rcases List.mem_append.mp hp with hp | hp
      · exact older hp
      · rw [← List.mem_singleton.mp hp] at hentry
        cases hentry
    · exact older (List.mem_of_mem_eraseIdx hp)
    · rcases hq _ hp with hp | rfl
      · exact older hp
      -- The worker has just left its handler.
      cases moved hm with
      | meeting p e k' hm hi hk => cases k' <;> cases hk
      | inbox p e k' hm hs hk hn =>
        obtain ⟨r, rfl, hr⟩ := Option.map_eq_some_iff.mp hk.symm
        cases hr
        obtain ⟨rfl, hret⟩ := execute_of_next hm
        exact .inl ⟨_, List.mem_append_right _ (List.mem_singleton_self _), _, ⟨i, rfl, hpi⟩,
          finds_eq_false he (hn _ _ _ rfl hret)⟩
      | found id t claimed e hf hs hk => cases hk
      | handled id' t' claimed' e k' hm hs hk =>
        obtain ⟨r, rfl, hr⟩ := Option.map_eq_some_iff.mp hk.symm
        cases hr
        obtain ⟨hp, hret⟩ := execute_of_next hm
        cases hp
        obtain ⟨handler, hh⟩ := Option.isSome_iff_exists.mp he
        have hfound := (hA _ (List.mem_of_getElem? hpi) (handler .transition) (by simp [Point.onMeeting, hh])).2.2
        have hst : c.store.meeting.row.status ≠ none := by
          rcases handlerOf_cases hh with rfl | rfl <;> exact hfound
        rcases transition_move (E := E) (m := c.store.meeting) (e := e) hh with ⟨⟨x, hx⟩, -⟩ | ht
        · cases hret.symm.trans hx
        · right
          rw [hs]
          exact Meetings.transition_reaches hh hst ht

/-- A worker that had read `claimed` has completed the event `r`. -/
structure CompletedBy (tr : List (Step Store Point Input)) (r : WebhookInbox) (claimToken : Uuid)
    (claimed : WebhookInbox) : Prop where
  event : claimed.eventKey = r.eventKey ∧ claimed.eventType = r.eventType
  completes : ∃ st ∈ tr, ∃ e, st.Fires (.inbox (.completeActiveClaim r.id claimToken claimed)) e ∧
    r ∉ st.pre.store.inbox.rows ∧ r ∈ st.post.store.inbox.rows

theorem CompletedBy.mono {tr' : List (Step Store Point Input)} {r : WebhookInbox} {t : Uuid}
    {claimed : WebhookInbox} (h : CompletedBy tr r t claimed) : CompletedBy (tr ++ tr') r t claimed := by
  obtain ⟨hev, st, hst, h⟩ := h
  exact ⟨hev, st, List.mem_append_left _ hst, h⟩

/-- A row is completed only by a worker that has read it. -/
theorem completed_cases (h : (program E meetingIdOf).Run (start data operationId t₀) tr c) {a : Act Point Input}
    (hs : (program E meetingIdOf).step c a = some c') {r : WebhookInbox} (hr : r ∈ c'.store.inbox.rows)
    (hc : r.state = .completed) : r ∈ c.store.inbox.rows ∨ ∃ t claimed,
      .inbox (.completeActiveClaim r.id t claimed) ∈ c.procs ∧ CompletedBy [⟨c, a, c'⟩] r t claimed := by
  obtain ⟨hI, hA⟩ := inbox_of_run h
  rcases (program E meetingIdOf).step_store hs with he | ⟨p, e, k, hf, hm⟩
  · exact .inl (he ▸ hr)
  rcases inboxComponent.move _ _ _ _ _ trivial hm with ⟨he, -⟩ | ⟨p', e', hp', -, hm'⟩
  · exact .inl (he ▸ hr)
  rcases (Inbox.move_step hm').origin (fun _ => .keep) hr with ⟨r₀, hr₀, heff⟩ | ⟨d, -, -, rfl⟩
  swap
  · cases hc
  obtain ⟨i, ha, hpi⟩ := hf
  cases heff with
  | keep => exact .inl hr₀
  | claimed => cases hc
  | gaveBack t n x retry =>
    simp only [ZoomWebhookInboxService.giveBack] at hc
    split at hc <;> cases hc
  | closed => cases hc
  | completed t claimed hp ho =>
    -- The worker is at its update, and it has read the row as it is.
    have hpoint : p = .inbox (.completeActiveClaim r₀.id t claimed) := by
      cases p with
      | meeting => cases hp'
      | inbox p => exact congrArg Point.inbox ((Option.some.inj hp').trans hp)
      | handling => cases (Option.some.inj hp').trans hp
    subst hpoint
    have hmem := List.mem_of_getElem? hpi
    obtain ⟨hstate, htoken, -⟩ := Inbox.unexpired_iff.mp ho
    have hread : r₀ = claimed := (hA _ hmem _ rfl).knows _ _ rfl r₀ hr₀ rfl htoken
    refine .inr ⟨t, claimed, hmem, ⟨?_, ?_⟩, _, List.mem_singleton_self _, e, ⟨i, ha, hpi⟩, fun hold => ?_, hr⟩
    · rw [← hread]
      rfl
    · rw [← hread]
      rfl
    · have hsame := hI.eq_of_id hold hr₀ rfl
      rw [← hsame, hc] at hstate
      cases hstate

/-- A runtime event that is Completed was ignored, or its status has been reached. -/
theorem completed_reached (h : (program E meetingIdOf).Run (start data operationId t₀) tr c)
    (hok : ∀ st ∈ tr, InTime st) {r : WebhookInbox} (hr : r ∈ c.store.inbox.rows) (hc : r.state = .completed)
    (he : (Meetings.handlerOf r.eventType).isSome = true) : ∃ t claimed, CompletedBy tr r t claimed ∧
      (IgnoredBy meetingIdOf tr r.id t claimed ∨ Meetings.Reached r.eventType c.store.meeting.row) := by
  induction h with
  | nil => cases hr
  | @snoc tr c c' a hrun hs ih =>
    have hok' : ∀ st ∈ tr, InTime st := fun st hst => hok st (List.mem_append_left _ hst)
    have hlast : InTime ⟨c, a, c'⟩ := hok _ (by simp)
    have hK := (meeting_of_run hrun hok').1.2
    rcases completed_cases hrun hs hr hc with hold | ⟨t, claimed, hp, hby⟩
    · obtain ⟨t, claimed, hby, h⟩ := ih hok' hold
      exact ⟨t, claimed, hby.mono, h.imp .mono (reached_step hK hs hlast)⟩
    · have hby' : CompletedBy (tr ++ [⟨c, a, c'⟩]) r t claimed := by
        obtain ⟨hev, st, hst, h⟩ := hby
        exact ⟨hev, st, List.mem_append_right _ hst, h⟩
      refine ⟨t, claimed, hby', ?_⟩
      rw [← hby.event.2] at he ⊢
      exact (handled_of_proc hrun hok' hp he).imp .mono (reached_step hK hs hlast)

theorem reached_run {tr' : List (Step Store Point Input)} {eventType : String}
    (h : (program E meetingIdOf).Run (start data operationId t₀) tr c) (hok : ∀ st ∈ tr, InTime st)
    (h' : (program E meetingIdOf).Run c tr' c') (hok' : ∀ st ∈ tr', InTime st)
    (hr : Meetings.Reached eventType c.store.meeting.row) : Meetings.Reached eventType c'.store.meeting.row := by
  induction h' with
  | nil => exact hr
  | @snoc tr' c₁ c₂ a hrun hs ih =>
    have hpre : ∀ st ∈ tr', InTime st := fun st hst => hok' st (List.mem_append_left _ hst)
    have hin : ∀ st ∈ tr ++ tr', InTime st := fun st hst =>
      (List.mem_append.mp hst).elim (hok st) (hpre st)
    have hK := (meeting_of_run (h.append _ hrun) hin).1.2
    exact reached_step hK hs (hok' _ (by simp)) (ih hpre)

/-- **The runtime status converges.** While no creation is answered late: an event
that is Completed was ignored by the worker that completed it, since that found no
Active meeting of its id, or the status that it reports has been reached; and what
has been reached stays. -/
theorem runtime_status_converges (h : (program E meetingIdOf).Run (start data operationId t₀) tr c)
    (hok : ∀ st ∈ tr, InTime st) :
    (∀ r ∈ c.store.inbox.rows, r.state = .completed →
      (r.eventType = "meeting.ended" → ∃ t claimed, CompletedBy tr r t claimed ∧
        (IgnoredBy meetingIdOf tr r.id t claimed ∨ c.store.meeting.row.status = some "ended")) ∧
      (r.eventType = "meeting.started" → ∃ t claimed, CompletedBy tr r t claimed ∧
        (IgnoredBy meetingIdOf tr r.id t claimed ∨ c.store.meeting.row.status = some "ended" ∨
          c.store.meeting.row.status = some "started"))) ∧
    (∀ tr' c', (program E meetingIdOf).Run c tr' c' → (∀ st ∈ tr', InTime st) →
      (c.store.meeting.row.status = some "ended" → c'.store.meeting.row.status = some "ended") ∧
      (c.store.meeting.row.status = some "started" →
        c'.store.meeting.row.status = some "ended" ∨ c'.store.meeting.row.status = some "started")) := by
  have ended {m : Meeting} : Meetings.Reached "meeting.ended" m ↔ m.status = some "ended" := by
    simp [Meetings.Reached]
  have started {m : Meeting} :
      Meetings.Reached "meeting.started" m ↔ m.status = some "ended" ∨ m.status = some "started" := by
    simp [Meetings.Reached]
  refine ⟨fun r hr hc => ⟨fun he => ?_, fun he => ?_⟩, fun tr' c' h' hok' => ⟨fun hs => ?_, fun hs => ?_⟩⟩
  · obtain ⟨t, claimed, hby, hor⟩ := completed_reached h hok hr hc (by rw [he]; rfl)
    rw [he, ended] at hor
    exact ⟨t, claimed, hby, hor⟩
  · obtain ⟨t, claimed, hby, hor⟩ := completed_reached h hok hr hc (by rw [he]; rfl)
    rw [he, started] at hor
    exact ⟨t, claimed, hby, hor⟩
  · exact ended.mp (reached_run h hok h' hok' (ended.mpr hs))
  · exact started.mp (reached_run h hok h' hok' (started.mpr (.inr hs)))

/-! ### Runs -/

/-- The acts of the processes on the meeting. -/
def onMeeting : Act Meetings.Point Daywright.Input → Act Point Input
  | .arrive p => .arrive (.meeting p)
  | .move i e => .move i (.meeting e)
  | .crash i => .crash i

def inboxInput (now : Time) (uuid : Uuid) : Input := .inbox ⟨now, uuid, .returned⟩

/-- A meeting.ended event is delivered, by the process `i`, and a worker processes it
up to its handler. -/
def deliverEnded (i : ℕ) : List (Act Point Input) :=
  [.arrive (.inbox (.accept ⟨"e1a7", "meeting.ended", "request-1", none⟩)),
    .move i (inboxInput 61000 ""), .move i (inboxInput 61000 ""), .move i (inboxInput 61000 ""),
    .move i (inboxInput 61000 ""), .arrive (.inbox (.process 1)), .move i (inboxInput 62000 "worker"),
    .move i (inboxInput 62000 ""), .move i (inboxInput 63000 ""), .move i (inboxInput 64000 "")]

/-- No step is one of the creation. -/
def notCreate (st : Step Store Point Input) : Bool :=
  st.mover.all fun p => match p with
    | .meeting (.create _) => false
    | _ => true

theorem inTime_of_notCreate {st : Step Store Point Input} (h : notCreate st = true) : InTime st := by
  rintro p e hf ⟨p', e', rfl, rfl, q, z, rfl, -⟩
  simp [notCreate, hf.mover] at h

/-- The end of a meeting that is Active. -/
theorem runtime_status_converges_active : ∃ tr c r, (program Meetings.Sample.env fun _ => 77).Run
      (start Meetings.Sample.storeData "op-create" 0) tr c ∧ r ∈ c.store.inbox.rows ∧ r.state = .completed ∧
    ∃ t claimed, CompletedBy tr r t claimed ∧
      (IgnoredBy (fun _ => 77) tr r.id t claimed ∨ c.store.meeting.row.status = some "ended") := by
  obtain ⟨tr, c, h, hq⟩ := (program Meetings.Sample.env fun _ => 77).exists_run_of_replay
    (Meetings.Sample.establish.map onMeeting ++ deliverEnded 1 ++ [.move 1 (inboxInput 65000 "")])
    (c := start Meetings.Sample.storeData "op-create" 0)
    (q := fun tr c => tr.all notCreate && c.store.inbox.rows.any fun r =>
      r.state == .completed && r.eventType == "meeting.ended") (by decide)
  simp only [Bool.and_eq_true, List.all_eq_true, List.any_eq_true, beq_iff_eq] at hq
  obtain ⟨hok, r, hr, hc, he⟩ := hq
  have hconv := runtime_status_converges h fun st hst => inTime_of_notCreate (hok st hst)
  exact ⟨tr, c, r, h, hr, hc, (hconv.1 r hr hc).1 he⟩

/-- The end of a meeting that is being updated is Completed and lost: the handler
ignores the event. -/
theorem ignored_while_updating : ¬ ∀ (E : Env) (meetingIdOf : String → ZoomId) (data : MeetingStoreData)
    (operationId : Uuid) (t₀ : Time) (tr : List (Step Store Point Input)) (c : Config Store Point),
    (program E meetingIdOf).Run (start data operationId t₀) tr c →
    (∀ st ∈ tr, st.post.store.meeting.row.syncStatus ≠ .deleted) →
    ∀ r ∈ c.store.inbox.rows, r.state = .completed → r.eventType = "meeting.ended" →
      c.store.meeting.row.meetingId = some (meetingIdOf r.eventKey) →
      c.store.meeting.row.status = some "ended" := by
  intro hall
  obtain ⟨tr, c, h, hq⟩ := (program Meetings.Sample.env fun _ => 77).exists_run_of_replay
    ((Meetings.Sample.establish ++ Meetings.Sample.startUpdate).map onMeeting ++ deliverEnded 2)
    (c := start Meetings.Sample.storeData "op-create" 0)
    (q := fun tr c => tr.all (fun st => st.post.store.meeting.row.syncStatus != .deleted) &&
      c.store.meeting.row.meetingId == some 77 && c.store.meeting.row.status == some "waiting" &&
      c.store.inbox.rows.any fun r => r.state == .completed && r.eventType == "meeting.ended") (by decide)
  simp only [Bool.and_eq_true, List.all_eq_true, List.any_eq_true, beq_iff_eq, bne_iff_ne] at hq
  obtain ⟨⟨⟨hdel, hid⟩, hwaiting⟩, r, hr, hc, he⟩ := hq
  have hended := hall _ _ _ _ _ tr c h hdel r hr hc he hid
  rw [hwaiting] at hended
  exact absurd hended (by decide)

end RuntimeEvents
end Daywright
