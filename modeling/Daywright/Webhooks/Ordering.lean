/-
# meeting.updated events in any order

Events of one meeting, handled one after the other in whatever order they arrive.
The provider's time of the last event that counted is the one watermark of the
row: an older event is dropped with all its fields (`next_of_stale`), any other
sets the fields it carries, from the event or, at the reconciliation cutoff, from
the meeting that Zoom returns. So a field ends with the value carried by the
greatest of the events that were not older than one handled before
(`final_value`), and not, if that was dropped, of all events (`order_matters`).

Key definitions: `UpdateEvent`, `handleAll`, `Accepted`, `carried`, `Agrees`.
Key theorems: `next_of_accepted`, `accepted_iff`, `final_value`.
-/
import Daywright.Meetings.Program
import Mathlib.Data.List.Induction
import Mathlib.Data.List.Nodup

namespace Daywright
namespace HandleMeetingUpdatedWebhook

open Php ZoomWebhookSupport ZoomMeetingUpdatedWebhookChanges ZoomMeetingUpdatedWebhookProcessor

/-- An event, and what its handling meets. -/
structure UpdateEvent where
  data : MeetingUpdatedWebhookData
  keys : (data.changes.map (·.1)).Nodup
  /-- The provider's time, in milliseconds. -/
  occurredAt : ℤ
  /-- What Zoom returns if it is asked. -/
  answer : Option ZoomMeeting
  now : Time

variable (E : Env)

def commitOf (m : Meeting) (ev : UpdateEvent) : Option Commit :=
  handleAlone E m ev.data (some ev.occurredAt) (some ev.answer) ev.now

/-- The row after the event. -/
def next (m : Meeting) (ev : UpdateEvent) : Meeting := ((commitOf E m ev).bind Commit.written).getD m

def handleAll (m : Meeting) (events : List UpdateEvent) : Meeting := events.foldl (next E) m

/-- The handling throws nothing, and Zoom has the meeting if it is asked. -/
structure Handled (m : Meeting) (ev : UpdateEvent) : Prop where
  returns : ∀ e, commitOf E m ev ≠ some (.throws e)
  found : requiresZoomReconciliation m (some ev.occurredAt) = true → ev.answer ≠ none

def AllHandled : Meeting → List UpdateEvent → Prop
  | _, [] => True
  | m, ev :: events => Handled E m ev ∧ AllHandled (next E m ev) events

/-- The event is older neither than the watermark nor than one handled before. -/
def Accepted (m : Meeting) (before : List UpdateEvent) (ev : UpdateEvent) : Prop :=
  (∀ w, m.lastZoomEventTimestamp = some w → w ≤ ev.occurredAt) ∧
    ∀ ev' ∈ before, ev'.occurredAt ≤ ev.occurredAt

/-- The fields that the event brings to the row `m`: its own, or those of the
meeting in Zoom. -/
def carried (m : Meeting) (ev : UpdateEvent) : Fields :=
  if requiresZoomReconciliation m (some ev.occurredAt) then (ev.answer.map fieldsFromZoom).getD []
  else ev.data.changes

/-- The row has the value, or one that the code takes to be the same. -/
def Agrees (m : Meeting) (name : String) (v : Value) : Prop :=
  m.attributes name = Meeting.column v ∨ hasChanged E m name v = some false

/-! ### One event -/

variable {E} {m m' : Meeting} {ev : UpdateEvent} {name : String} {v : Value}

theorem Agrees.congr (h : Agrees E m name v) (hm : m'.attributes name = m.attributes name) :
    Agrees E m' name v := by
  unfold Agrees at h ⊢
  rw [hm]
  refine h.imp_right fun h => ?_
  simp only [hasChanged] at h ⊢
  rw [hm]
  exact h

/-- With distinct names, each has its value after the update. -/
theorem attributes_fill_of_mem {fields : Fields} (hk : (fields.map (·.1)).Nodup) (hv : (name, v) ∈ fields) :
    (m.fill fields).attributes name = Meeting.column v := by
  rcases Meeting.fill_attributes fields name m with ⟨hn, -⟩ | ⟨f, hf, hname, h⟩
  · exact absurd (List.mem_map.mpr ⟨_, hv, rfl⟩) hn
  · rw [h, List.inj_on_of_nodup_map hk hf hv hname]

theorem attributes_fill_of_not_mem {fields : Fields} (hn : name ∉ fields.map (·.1)) :
    (m.fill fields).attributes name = m.attributes name := by
  rcases Meeting.fill_attributes fields name m with ⟨-, h⟩ | ⟨f, hf, rfl, -⟩
  · exact h
  · exact absurd (List.mem_map.mpr ⟨f, hf, rfl⟩) hn

/-- The meeting is Active and the event is about it. -/
structure Concerns (ev : UpdateEvent) (m : Meeting) : Prop where
  active : m.syncStatus = .active
  meetingId : m.meetingId = some ev.data.meetingId

theorem hasPendingUpdate_of_active (h : m.syncStatus = .active) : hasPendingUpdate m = false := by
  simp [hasPendingUpdate, h]

theorem isStale_iff : isStaleProviderEvent m (some ev.occurredAt) true = true ↔
    ∃ w, m.lastZoomEventTimestamp = some w ∧ ev.occurredAt < w := by
  simp [isStaleProviderEvent, Option.any_eq_true]

/-- An older event changes nothing. -/
theorem next_of_stale (h : isStaleProviderEvent m (some ev.occurredAt) true = true) : next E m ev = m := by
  unfold next commitOf handleAlone
  split
  · simp [buildContext, h, Outcome.stop]
  · rfl

/-- The handling of an event that counts: the snapshot is saved, or the changes are. -/
theorem commitOf_eq (hc : Concerns ev m) (hs : isStaleProviderEvent m (some ev.occurredAt) true = false) :
    commitOf E m ev = some (if requiresZoomReconciliation m (some ev.occurredAt) then
      processLockedMeeting E m ev.data (some ev.occurredAt)
        { captureContext m true with zoomMeeting := ev.answer } ev.now
      else processLockedMeeting E m ev.data (some ev.occurredAt) (captureContext m false) ev.now) := by
  have hsame : m.sameMeetingId ev.data.meetingId = true := by simp [Meeting.sameMeetingId, hc.meetingId]
  have hid : m.meetingId ≠ none := by simp [hc.meetingId]
  by_cases hr : requiresZoomReconciliation m (some ev.occurredAt) = true
  · simp [commitOf, handleAlone, hsame, buildContext, hs, hr, hid, Outcome.goOn]
  · simp [commitOf, handleAlone, hsame, buildContext, hs, hr, pendingUpdateMatchesEvent,
      hasPendingUpdate_of_active hc.active, Outcome.goOn]

theorem keys_fieldsFromZoom (z : ZoomMeeting) : ((fieldsFromZoom z).map (·.1)).Nodup := by
  simp [fieldsFromZoom]

theorem hasChanged_of_hasChanges : ∀ {fields : Fields}, hasChanges E m fields = some false →
    (name, v) ∈ fields → hasChanged E m name v = some false
  | f :: fields, h, hv => by
    unfold hasChanges at h
    split at h
    · cases h
    · cases h
    · rename_i hf
      rcases List.mem_cons.mp hv with rfl | hv
      · exact hf
      · exact hasChanged_of_hasChanges h hv

/-- What an event that counts does to the row. -/
structure Applied (E : Env) (m m' : Meeting) (ev : UpdateEvent) : Prop where
  active : m'.syncStatus = .active
  meetingId : m'.meetingId = m.meetingId
  watermark : m'.lastZoomEventTimestamp = some ev.occurredAt
  carried : ∀ name v, (name, v) ∈ carried m ev → Agrees E m' name v
  kept : ∀ name, name ∉ (HandleMeetingUpdatedWebhook.carried m ev).map (·.1) →
    m'.attributes name = m.attributes name

theorem next_of_accepted (hc : Concerns ev m) (hh : Handled E m ev)
    (hs : isStaleProviderEvent m (some ev.occurredAt) true = false) : Applied E m (next E m ev) ev := by
  have hp := hasPendingUpdate_of_active hc.active
  have ha : ensureActiveSyncStatus m = true := by
    simp [ensureActiveSyncStatus, MeetingSyncStatus.acceptsZoomRuntimeWebhook, hc.active]
  have hcommit := commitOf_eq (E := E) hc hs
  by_cases hr : requiresZoomReconciliation m (some ev.occurredAt) = true
  · obtain ⟨z, hz⟩ := Option.ne_none_iff_exists'.mp (hh.found hr)
    have hcarried : carried m ev = fieldsFromZoom z := by simp [carried, hr, hz]
    have hnext : next E m ev = reconciledEvent (m.fill (fieldsFromZoom z)) (some ev.occurredAt) ev.now := by
      simp [next, hcommit, hr, processLockedMeeting, hs, didNotChange, captureContext,
        MeetingUpdateWebhookContext.isMissingAtZoom, hz, hp, ha, saveZoomSnapshot]
    rw [hnext]
    refine ⟨by simp [reconciledEvent, hc.active], by simp [reconciledEvent], rfl, fun name v hv => .inl ?_,
      fun name hn => ?_⟩
    · rw [hcarried] at hv
      exact attributes_fill_of_mem (keys_fieldsFromZoom z) hv
    · rw [hcarried] at hn
      exact attributes_fill_of_not_mem hn
  · have hcarried : carried m ev = ev.data.changes := by simp [carried, hr]
    have hsave : commitOf E m ev = some (saveWebhookChanges E m ev.data (some ev.occurredAt)) := by
      simp [hcommit, hr, processLockedMeeting, hs, didNotChange, captureContext,
        MeetingUpdateWebhookContext.isMissingAtZoom, hp, ha]
    have hreturns := hh.returns
    rw [hsave] at hreturns
    cases hch : hasChanges E m ev.data.changes with
    | none =>
      simp [saveWebhookChanges, hch] at hreturns
    | some changed =>
      cases changed with
      | false =>
        have hnext : next E m ev = { m with lastZoomEventTimestamp := some ev.occurredAt } := by
          simp [next, hsave, saveWebhookChanges, hch]
        rw [hnext]
        refine ⟨hc.active, rfl, rfl, fun name v hv => ?_, fun name hn => rfl⟩
        rw [hcarried] at hv
        have : Agrees E m name v := .inr (hasChanged_of_hasChanges hch hv)
        exact this.congr rfl
      | true =>
        by_cases hcol : Meeting.hasColumns ev.data.changes = true
        · have hnext : next E m ev =
              { m.fill ev.data.changes with lastZoomEventTimestamp := some ev.occurredAt } := by
            simp [next, hsave, saveWebhookChanges, hch, hcol]
          rw [hnext]
          refine ⟨by simp [hc.active], by simp, rfl, fun name v hv => .inl ?_, fun name hn => ?_⟩
          · rw [hcarried] at hv
            exact attributes_fill_of_mem ev.keys hv
          · rw [hcarried] at hn
            exact attributes_fill_of_not_mem hn
        · simp [saveWebhookChanges, hch, hcol] at hreturns

/-! ### A sequence of events -/

variable {before events : List UpdateEvent}

theorem handleAll_append (m : Meeting) (before events : List UpdateEvent) :
    handleAll E m (before ++ events) = handleAll E (handleAll E m before) events := by
  simp [handleAll]

theorem AllHandled.append : ∀ {before : List UpdateEvent} {m : Meeting},
    AllHandled E m (before ++ events) ↔ AllHandled E m before ∧ AllHandled E (handleAll E m before) events
  | [], m => by simp [AllHandled, handleAll]
  | ev :: before, m => by
    have ih {m : Meeting} : AllHandled E m (before ++ events) ↔ _ := AllHandled.append
    simp only [List.cons_append, AllHandled, ih, and_assoc, handleAll, List.foldl_cons]

/-- Where the row stands after the events: an event is older than its watermark if
it was from the start, or is older than one of them. -/
structure After (m r : Meeting) (before : List UpdateEvent) : Prop where
  active : r.syncStatus = .active
  meetingId : r.meetingId = m.meetingId
  stale : ∀ ev : UpdateEvent, isStaleProviderEvent r (some ev.occurredAt) true = true ↔
    isStaleProviderEvent m (some ev.occurredAt) true = true ∨ ∃ ev' ∈ before, ev.occurredAt < ev'.occurredAt

theorem After.snoc {r : Meeting} (ha : After m r before) (hid : m.meetingId = some ev.data.meetingId)
    (hh : Handled E r ev) : After m (next E r ev) (before ++ [ev]) := by
  by_cases hs : isStaleProviderEvent r (some ev.occurredAt) true = true
  · rw [next_of_stale hs]
    refine ⟨ha.active, ha.meetingId, fun ev₁ => (ha.stale ev₁).trans ⟨fun h => ?_, fun h => ?_⟩⟩
    · exact h.imp_right fun ⟨ev', hev', h⟩ => ⟨ev', List.mem_append_left _ hev', h⟩
    · rcases h with h | ⟨ev', hev', h⟩
      · exact .inl h
      rcases List.mem_append.mp hev' with hev' | hev'
      · exact .inr ⟨ev', hev', h⟩
      -- the dropped event is itself older than the watermark
      · rw [List.mem_singleton.mp hev'] at h
        obtain ⟨w, hw, hlt⟩ := isStale_iff.mp hs
        exact (ha.stale ev₁).mp (isStale_iff.mpr ⟨w, hw, h.trans hlt⟩)
  · have happ := next_of_accepted ⟨ha.active, ha.meetingId.trans hid⟩ hh (eq_false_of_ne_true hs)
    refine ⟨happ.active, happ.meetingId.trans ha.meetingId, fun ev₁ => ?_⟩
    have hnew : isStaleProviderEvent (next E r ev) (some ev₁.occurredAt) true = true ↔
        ev₁.occurredAt < ev.occurredAt := by
      simp [isStaleProviderEvent, happ.watermark]
    rw [hnew]
    constructor
    · exact fun h => .inr ⟨ev, by simp, h⟩
    · intro h
      have old : isStaleProviderEvent r (some ev₁.occurredAt) true = true →
          ev₁.occurredAt < ev.occurredAt := by
        intro hold
        obtain ⟨w, hw, hlt⟩ := isStale_iff.mp hold
        by_contra hle
        exact hs (isStale_iff.mpr ⟨w, hw, lt_of_le_of_lt (not_lt.mp hle) hlt⟩)
      rcases h with h | ⟨ev', hev', h⟩
      · exact old ((ha.stale ev₁).mpr (.inl h))
      rcases List.mem_append.mp hev' with hev' | hev'
      · exact old ((ha.stale ev₁).mpr (.inr ⟨ev', hev', h⟩))
      · rw [List.mem_singleton.mp hev'] at h
        exact h

theorem after_handleAll (hm : m.syncStatus = .active)
    (hid : ∀ ev ∈ before, m.meetingId = some ev.data.meetingId) (hh : AllHandled E m before) :
    After m (handleAll E m before) before := by
  induction before using List.reverseRecOn with
  | nil => exact ⟨hm, rfl, fun ev => by simp [handleAll]⟩
  | append_singleton before ev ih =>
    obtain ⟨hb, hev, -⟩ := AllHandled.append.mp hh
    rw [handleAll_append]
    exact (ih (fun ev' h => hid ev' (List.mem_append_left _ h)) hb).snoc (hid ev (by simp)) hev

/-- The events that count are those that are accepted. -/
theorem accepted_iff (ha : After m (handleAll E m before) before) : Accepted m before ev ↔
    isStaleProviderEvent (handleAll E m before) (some ev.occurredAt) true = false := by
  rw [← Bool.not_eq_true, ha.stale ev, isStale_iff]
  simp only [Accepted, not_or, not_exists, not_and, not_lt]

/-- An event brings a value to the field. -/
def Brings (E : Env) (m : Meeting) (before : List UpdateEvent) (ev : UpdateEvent) (name : String) : Prop :=
  Accepted m before ev ∧ name ∈ (carried (handleAll E m before) ev).map (·.1)

/-- A field to which no later event brings a value keeps the one it has. -/
theorem attributes_of_not_brings (hm : m.syncStatus = .active)
    (hid : ∀ ev ∈ before ++ events, m.meetingId = some ev.data.meetingId)
    (hh : AllHandled E m (before ++ events))
    (hb : ∀ mid ev rest, events = mid ++ ev :: rest → ¬ Brings E m (before ++ mid) ev name) :
    (handleAll E m (before ++ events)).attributes name = (handleAll E m before).attributes name := by
  induction events using List.reverseRecOn with
  | nil => simp
  | append_singleton events ev ih =>
    rw [← List.append_assoc] at hid hh ⊢
    obtain ⟨hh', hev, -⟩ := AllHandled.append.mp hh
    have hid' : ∀ ev' ∈ before ++ events, m.meetingId = some ev'.data.meetingId :=
      fun ev' h => hid ev' (List.mem_append_left _ h)
    have ih := ih hid' hh' fun mid ev' rest he => hb mid ev' (rest ++ [ev]) (by simp [he])
    have ha := after_handleAll hm hid' hh'
    rw [← ih, handleAll_append]
    change (next E _ ev).attributes name = _
    by_cases hs : isStaleProviderEvent (handleAll E m (before ++ events)) (some ev.occurredAt) true = true
    · rw [next_of_stale hs]
    · have hs := eq_false_of_ne_true hs
      have happ := next_of_accepted ⟨ha.active, ha.meetingId.trans (hid ev (by simp))⟩ hev hs
      exact happ.kept name fun hn => hb events ev [] rfl ⟨(accepted_iff ha).mpr hs, hn⟩

/-- **The final value of a field** is the one that the greatest of the accepted
events that bring one brings, and without such an event the field is as it was. -/
theorem final_value (hm : m.syncStatus = .active)
    (hid : ∀ ev ∈ events, m.meetingId = some ev.data.meetingId) (hh : AllHandled E m events)
    (ht : (events.map (·.occurredAt)).Nodup) (name : String) :
    (∀ before ev after v, events = before ++ ev :: after → Accepted m before ev →
      (name, v) ∈ carried (handleAll E m before) ev →
      (∀ before' ev' after', events = before' ++ ev' :: after' → Brings E m before' ev' name →
        ev'.occurredAt ≤ ev.occurredAt) → Agrees E (handleAll E m events) name v) ∧
    ((∀ before ev after, events = before ++ ev :: after → ¬ Brings E m before ev name) →
      (handleAll E m events).attributes name = m.attributes name) := by
  constructor
  · intro before ev after v he hacc hv hgreatest
    have he' : events = (before ++ [ev]) ++ after := by simp [he]
    rw [he'] at hid hh
    obtain ⟨hh', hev, -⟩ := AllHandled.append.mp (AllHandled.append.mp hh).1
    have ha := after_handleAll hm (fun ev' h => hid ev' (by simp [h])) hh'
    have happ := next_of_accepted ⟨ha.active, ha.meetingId.trans (hid ev (by simp))⟩ hev
      ((accepted_iff ha).mp hacc)
    have hlast : handleAll E m (before ++ [ev]) = next E (handleAll E m before) ev := handleAll_append _ _ _
    rw [he']
    refine (happ.carried name v hv).congr ?_
    rw [← hlast]
    refine attributes_of_not_brings hm hid hh fun mid ev' rest hmid hbr => ?_
    -- a later event that counts would be greater
    have hle := hbr.1.2 ev (by simp)
    have hge := hgreatest (before ++ [ev] ++ mid) ev' rest (by simp [he', hmid]) hbr
    have heq : ev.occurredAt = ev'.occurredAt := le_antisymm hle hge
    rw [he', hmid, List.map_append, List.map_append, List.append_assoc] at ht
    have hn := (List.nodup_cons.mp ht.of_append_right).1
    exact hn (by simp [heq])
  · intro hb
    have hnone : (handleAll E m ([] ++ events)).attributes name = (handleAll E m []).attributes name :=
      attributes_of_not_brings hm (by simpa using hid) (by simpa using hh) hb
    simpa [handleAll] using hnone

/-- In the order of their times, all count. -/
theorem accepted_of_sorted (hs : events.Pairwise (·.occurredAt < ·.occurredAt))
    (hw : ∀ ev ∈ events, ∀ w, m.lastZoomEventTimestamp = some w → w ≤ ev.occurredAt)
    {after : List UpdateEvent} (he : events = before ++ ev :: after) : Accepted m before ev := by
  subst he
  refine ⟨hw ev (by simp), fun ev' hev' => le_of_lt ?_⟩
  exact (List.pairwise_append.mp hs).2.2 ev' hev' ev List.mem_cons_self

/-! ### Two events in either order -/

def returns : Commit → Bool
  | .throws _ => false
  | _ => true

theorem handled_of_returns (h : (commitOf E m ev).all returns = true)
    (hr : requiresZoomReconciliation m (some ev.occurredAt) = false) : Handled E m ev := by
  refine ⟨fun e he => ?_, fun hc => ?_⟩
  · rw [he] at h
    cases h
  · rw [hr] at hc
    cases hc

def topicEvent : UpdateEvent := ⟨Meetings.topicChanged, List.nodup_singleton _, 5000, none, 9000⟩

def agendaEvent : UpdateEvent := ⟨Meetings.agendaChanged, List.nodup_singleton _, 6000, none, 9000⟩

theorem allHandled_sample :
    AllHandled Meetings.Sample.env Meetings.Sample.meeting [agendaEvent, topicEvent] :=
  ⟨handled_of_returns (by decide) (by decide), handled_of_returns (by decide) (by decide), trivial⟩

theorem concerns_sample : ∀ ev ∈ [agendaEvent, topicEvent],
    Meetings.Sample.meeting.meetingId = some ev.data.meetingId := by
  intro ev hev
  simp only [List.mem_cons, List.not_mem_nil, or_false] at hev
  rcases hev with rfl | rfl <;> rfl

theorem final_value_sample :
    Agrees Meetings.Sample.env (handleAll Meetings.Sample.env Meetings.Sample.meeting [agendaEvent, topicEvent])
      "agenda" (.str "Demo") := by
  refine (final_value rfl concerns_sample allHandled_sample (by decide) "agenda").1 [] agendaEvent
    [topicEvent] (.str "Demo") rfl ⟨nofun, nofun⟩ (by decide) ?_
  · intro before ev after he _
    have hev : ev ∈ [agendaEvent, topicEvent] := by simp [he]
    simp only [List.mem_cons, List.not_mem_nil, or_false] at hev
    rcases hev with rfl | rfl <;> decide

/-- The older event comes last, and the field that only it carries is lost. -/
theorem order_matters : ¬ ∀ (E : Env) (m : Meeting) (events : List UpdateEvent), m.syncStatus = .active →
    hasPendingUpdate m = false → (∀ ev ∈ events, m.meetingId = some ev.data.meetingId) →
    AllHandled E m events → (events.map (·.occurredAt)).Nodup →
    ∀ name ∈ allowedFields, ∀ ev ∈ events, ∀ v, (name, v) ∈ ev.data.changes →
      (∀ ev' ∈ events, name ∈ ev'.data.changes.map (·.1) → ev'.occurredAt ≤ ev.occurredAt) →
      Agrees E (handleAll E m events) name v := by
  intro h
  have hlost := h Meetings.Sample.env Meetings.Sample.meeting [agendaEvent, topicEvent] rfl (by decide)
    concerns_sample allHandled_sample (by decide) "topic" (by decide) topicEvent (by simp)
    (.str "Retrospective") (by decide) (by
      intro ev hev _
      simp only [List.mem_cons, List.not_mem_nil, or_false] at hev
      rcases hev with rfl | rfl
      · rename_i hn
        exact absurd hn (by decide)
      · exact le_rfl)
  rcases hlost with h | h
  · exact absurd h (by decide)
  · exact absurd h (by decide)

end HandleMeetingUpdatedWebhook
end Daywright
