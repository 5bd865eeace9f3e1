/-
# What every step of the notifications preserves

`Effect` says once what a step can do to the tables, the queue and the log. From it
follow the invariant (`Inv`), that a notification which has become due is pending or
sent and that one which is sent has been delivered by the attempt that marked it, and
what an attempt knows on its way there (`Progress`).

Key definitions: `Effect`, `Inv`, `Progress`.
Key theorems: `act_effect`, `outline`.
-/
import Daywright.Notifications.Job

namespace Daywright
namespace Notifications

open Interleave Table

/-! ### The effect of a step -/

variable {sha256 : String → String} {s s' : Store} {p q : Point} {e : Input} {k : Option Point}

inductive Effect (sha256 : String → String) (s : Store) (p : Point) (e : Input) : Store → Prop
  | idle : Effect sha256 s p e s
  | transitioned (kind : MeetingNotification) (r : MeetingRow) (s' : Store) : p = .transition kind r.id →
      r ∈ s.meetings → transitionTo kind r e.now s = some s' → Effect sha256 s p e s'
  | dispatched (kind : MeetingNotification) (id : ℕ) :
      (p = .dispatchNotificationJob kind id ∨ ∃ cutoff ids full, p = .redispatch kind cutoff (id :: ids) full) →
      Effect sha256 s p e (dispatch kind id e.result.done e.now s)
  | reserved (j : QueuedJob) : p = .reserve j.id → j ∈ s.jobs → Effect sha256 s p e (reserved j.id e.now s)
  | loaded (w : Attempt) (r : MeetingRow) (asignees : List ℕ) : p = .load w r →
      w.kind.job.hasAlreadySentNotification r = false →
      Effect sha256 s p e { s with log := s.log ++ [.loaded w asignees] }
  | delivered (w : Attempt) (asignees : List ℕ) (user : ℕ) (channel : NotificationChannel)
      (remaining : List (ℕ × NotificationChannel)) : p = .send w asignees ((user, channel) :: remaining) →
      Effect sha256 s p e (deliver sha256 w user channel s)
  | marked (w : Attempt) : p = .markNotificationAsSent w → Effect sha256 s p e (mark w e.now s)
  | unlocked (w : Attempt) : (p = .releaseLock w ∨ p = .failed w) → Effect sha256 s p e (releaseLock w.uniqueId s)
  | deleted (w : Attempt) : (p = .delete w ∨ p = .fail w) → Effect sha256 s p e (deleteJob w.job s)
  | released (w : Attempt) : p = .threw w → Effect sha256 s p e (release w e.now s)
  | other (w : Write) : p = .other w → Effect sha256 s p e (w.apply s)

theorem act_effect : Effect sha256 s p e (act sha256 s p e).1 := by
  cases p with
  | webhook kind meetingId =>
    simp only [act]
    split <;> exact .idle
  | transition kind id =>
    simp only [act]
    split
    · split
      · exact .idle
      · rename_i s' hs
        obtain ⟨r, hr, ht⟩ := Option.bind_eq_some_iff.mp hs
        have hid : r.id = id := by simpa using List.find?_some hr
        exact .transitioned kind r s' (by rw [hid]) (List.mem_of_find?_eq_some hr) ht
    · exact .idle
  | dispatchNotificationJob kind id =>
    simp only [act]
    split
    · exact .dispatched kind id (.inl rfl)
    · exact .idle
  | check | page => exact .idle
  | redispatch kind cutoff ids full =>
    match ids, full with
    | [], none | [], some _ => exact .idle
    | id :: ids, full =>
      simp only [act]
      split
      · exact .dispatched kind id (.inr ⟨cutoff, ids, full, rfl⟩)
      · exact .idle
  | reserve job =>
    simp only [act]
    split
    · exact .idle
    · rename_i j hj
      have hid := List.find?_some hj
      simp only [Bool.and_eq_true, beq_iff_eq] at hid
      rw [← hid.1]
      exact .reserved j rfl (List.mem_of_find?_eq_some hj)
  | handle w =>
    simp only [act]
    split <;> exact .idle
  | load w r =>
    simp only [act]
    split
    · exact .idle
    · rename_i hs
      split
      · exact .idle
      · rename_i asignees _
        exact .loaded w r asignees rfl (by simpa using hs)
  | send w asignees remaining =>
    match remaining with
    | [] => exact .idle
    | (user, channel) :: remaining =>
      simp only [act]
      split
      · exact .delivered w asignees user channel remaining rfl
      · exact .idle
  | markNotificationAsSent w =>
    simp only [act]
    split
    · exact .marked w rfl
    · exact .idle
  | releaseLock w => exact .unlocked w (.inl rfl)
  | delete w => exact .deleted w (.inl rfl)
  | threw w =>
    simp only [act]
    split
    · exact .released w rfl
    · exact .idle
  | fail w => exact .deleted w (.inr rfl)
  | failed w => exact .unlocked w (.inr rfl)
  | other w => exact .other w rfl

/-- What a move is: a step, and the clock. -/
theorem moved (h : (program sha256).move s p e = some (s', k)) :
    s' = { (act sha256 s p e).1 with now := e.now } ∧ k = (act sha256 s p e).2 := by
  simp only [program, Option.ite_none_left_eq_some, Option.some.injEq, Prod.mk.injEq] at h
  exact ⟨h.2.1.symm, h.2.2.symm⟩

/-- Dispatching finds the lock in force, or takes it. -/
theorem dispatch_cases (kind : MeetingNotification) (id : ℕ) (queued : Bool) (now : Time) (s : Store) :
    ((∃ l ∈ s.locks, l.key = kind.uniqueId id ∧ now < l.expiresAt) ∧ dispatch kind id queued now s = s) ∨
    (∀ l ∈ s.locks, l.key = kind.uniqueId id → l.expiresAt ≤ now) ∧ ∃ lock : Lock, lock.key = kind.uniqueId id ∧
      dispatch kind id queued now s =
        { s with
          locks := lock :: s.locks.filter (·.key != kind.uniqueId id)
          jobs := if queued then s.jobs ++ [⟨s.lastJob + 1, kind, id, 0, now, none⟩] else s.jobs
          lastJob := if queued then s.lastJob + 1 else s.lastJob } := by
  simp only [dispatch]
  split
  · rename_i h
    obtain ⟨l, hl, hk⟩ := List.any_eq_true.mp h
    simp only [Bool.and_eq_true, beq_iff_eq, decide_eq_true_eq] at hk
    exact .inl ⟨⟨l, hl, hk⟩, rfl⟩
  · rename_i h
    simp only [List.any_eq_true, Bool.and_eq_true, beq_iff_eq, decide_eq_true_eq, not_exists, not_and, not_lt] at h
    refine .inr ⟨h, ⟨kind.uniqueId id, now + SendMeetingNotificationJob.uniqueFor⟩, rfl, ?_⟩
    cases queued <;> rfl

/-! ### The log -/

/-- The notification is noted as sent. -/
def Marked (s : Store) (kind : MeetingNotification) (meetingId : ℕ) : Prop :=
  ∃ w, w.kind = kind ∧ w.meetingId = meetingId ∧ .marked w ∈ s.log

/-- The attempt has delivered to each of the members it read, over each channel. -/
def Served (s : Store) (w : Attempt) : Prop :=
  ∃ asignees, .loaded w asignees ∈ s.log ∧
    ∀ user ∈ asignees, ∀ channel ∈ MeetingNotification.via, .delivered w user channel ∈ s.log

theorem transitionTo_some {kind : MeetingNotification} {r : MeetingRow} {now : Time}
    (h : transitionTo kind r now s = some s') : ∃ m, (kind.transition r.meeting now).written = some m ∧ s' =
      { s with
        meetings := updateWhere (·.id == r.id) ({ · with meeting := m, updatedAt := now }) s.meetings
        log := s.log ++ [.transitioned kind r.id] } := by
  obtain ⟨m, hm, rfl⟩ := Option.map_eq_some_iff.mp h
  exact ⟨m, hm, rfl⟩

theorem Effect.log_append (h : Effect sha256 s p e s') : ∃ l, s'.log = s.log ++ l := by
  cases h with
  | transitioned kind r s' _ _ ht =>
    obtain ⟨m, -, rfl⟩ := transitionTo_some ht
    exact ⟨_, rfl⟩
  | dispatched kind id _ =>
    refine ⟨[], ?_⟩
    rcases dispatch_cases kind id e.result.done e.now s with ⟨-, h⟩ | ⟨-, lock, -, h⟩ <;> simp [h]
  | loaded | marked => exact ⟨_, rfl⟩
  | delivered w asignees user channel remaining _ =>
    refine ⟨[.delivered w user channel], ?_⟩
    cases channel <;> rfl
  | other w _ => exact ⟨[], by cases w <;> simp [Write.apply]⟩
  | idle | reserved | unlocked | deleted | released => exact ⟨[], (List.append_nil _).symm⟩

theorem Effect.mem_log (h : Effect sha256 s p e s') {x : Event} (hx : x ∈ s.log) : x ∈ s'.log := by
  obtain ⟨l, hl⟩ := h.log_append
  rw [hl]
  exact List.mem_append_left _ hx

theorem Marked.mono {kind : MeetingNotification} {meetingId : ℕ} (h : Marked s kind meetingId)
    (hlog : ∀ x ∈ s.log, x ∈ s'.log) : Marked s' kind meetingId := by
  obtain ⟨w, hk, hm, hw⟩ := h
  exact ⟨w, hk, hm, hlog _ hw⟩

theorem Served.mono {w : Attempt} (h : Served s w) (hlog : ∀ x ∈ s.log, x ∈ s'.log) : Served s' w := by
  obtain ⟨asignees, hl, hd⟩ := h
  exact ⟨asignees, hlog _ hl, fun user hu channel hc => hlog _ (hd user hu channel hc)⟩

/-! ### The rows -/

/-- A notification is due, or has been sent. -/
def Due (kind : MeetingNotification) (r : MeetingRow) : Prop := kind.pendingAt r ≠ none ∨ kind.sentAt r ≠ none

theorem transition_written {kind : MeetingNotification} {r : MeetingRow} {m : Meeting} {now : Time}
    (h : (kind.transition r.meeting now).written = some m) : ∀ kind',
      kind'.pendingAt { r with meeting := m, updatedAt := now } =
        if kind' = kind then some now else kind'.pendingAt r := by
  intro kind'
  cases kind with
  | started =>
    change (HandleMeetingStartedWebhook.transitionToStarted r.meeting now).written = some m at h
    unfold HandleMeetingStartedWebhook.transitionToStarted at h
    split at h <;> cases h
    cases kind' <;> rfl
  | ended =>
    change (HandleMeetingEndedWebhook.transitionToEnded r.meeting now).written = some m at h
    unfold HandleMeetingEndedWebhook.transitionToEnded at h
    split at h <;> cases h
    cases kind' <;> rfl

theorem sentAt_mark (kind kind' : MeetingNotification) (now : Time) (r : MeetingRow) :
    kind'.sentAt (kind.job.markNotificationAsSent now r) = if kind' = kind then some now else kind'.sentAt r := by
  cases kind <;> cases kind' <;> rfl

theorem pendingAt_mark (kind kind' : MeetingNotification) (now : Time) (r : MeetingRow) :
    kind'.pendingAt (kind.job.markNotificationAsSent now r) = if kind' = kind then none else kind'.pendingAt r := by
  cases kind <;> cases kind' <;> rfl

theorem id_mark (kind : MeetingNotification) (now : Time) (r : MeetingRow) :
    (kind.job.markNotificationAsSent now r).id = r.id := by
  cases kind <;> rfl

/-- What a step to `s'` can do to a row. -/
inductive RowEffect (s' : Store) (r : MeetingRow) : MeetingRow → Prop
  | kept (r' : MeetingRow) : r'.id = r.id → (∀ kind : MeetingNotification, kind.sentAt r' = kind.sentAt r) →
      (∀ kind : MeetingNotification, kind.pendingAt r ≠ none → kind.pendingAt r' ≠ none) → RowEffect s' r r'
  | marked (w : Attempt) (now : Time) : .marked w ∈ s'.log → r.id = w.meetingId →
      RowEffect s' r (w.kind.job.markNotificationAsSent now r)

theorem RowEffect.refl (r : MeetingRow) : RowEffect s' r r := .kept r rfl (fun _ => rfl) fun _ h => h

theorem RowEffect.id_eq {r r' : MeetingRow} (h : RowEffect s' r r') : r'.id = r.id := by
  cases h with
  | kept r' hid _ _ => exact hid
  | marked w now _ _ => exact id_mark w.kind now r

theorem RowEffect.due {r r' : MeetingRow} {kind : MeetingNotification} (h : RowEffect s' r r') (hd : Due kind r) :
    Due kind r' := by
  cases h with
  | kept r' _ hs hp => exact hd.imp (hp kind) fun h => by rwa [hs]
  | marked w now _ _ =>
    by_cases hk : kind = w.kind
    · exact .inr (by simp [sentAt_mark, hk])
    · rw [Due, pendingAt_mark, sentAt_mark, if_neg hk, if_neg hk]
      exact hd

theorem RowEffect.sent {r r' : MeetingRow} {kind : MeetingNotification} (h : RowEffect s' r r')
    (hs : kind.sentAt r ≠ none) : kind.sentAt r' ≠ none := by
  cases h with
  | kept _ _ hsame _ => rwa [hsame kind]
  | marked w now _ _ =>
    rw [sentAt_mark]
    split
    · exact Option.some_ne_none _
    · exact hs

/-- A row was there before, or has just been created. -/
theorem Effect.meetings (hids : (s.meetings.map (·.id)).Nodup) (h : Effect sha256 s p e s') {r' : MeetingRow}
    (hr' : r' ∈ s'.meetings) : (∃ r ∈ s.meetings, RowEffect s' r r') ∨
      (∃ r, r' = created (s.lastMeeting + 1) r) ∧ s'.lastMeeting = s.lastMeeting + 1 := by
  have kept (hr : r' ∈ s.meetings) : (∃ r ∈ s.meetings, RowEffect s' r r') ∨
      (∃ r, r' = created (s.lastMeeting + 1) r) ∧ s'.lastMeeting = s.lastMeeting + 1 := .inl ⟨r', hr, .refl r'⟩
  cases h with
  | transitioned kind r s' _ hr ht =>
    obtain ⟨m, hm, rfl⟩ := transitionTo_some ht
    obtain ⟨r₀, hr₀, rfl⟩ := mem_updateWhere.mp hr'
    refine .inl ⟨r₀, hr₀, ?_⟩
    split
    · rename_i hid
      obtain rfl : r₀ = r := List.inj_on_of_nodup_map hids hr₀ hr (by simpa using hid)
      refine .kept _ rfl (fun kind' => by cases kind' <;> rfl) fun kind' hp => ?_
      rw [transition_written hm kind']
      split
      · simp
      · exact hp
    · exact .refl r₀
  | marked w _ =>
    obtain ⟨r₀, hr₀, rfl⟩ := mem_updateWhere.mp hr'
    refine .inl ⟨r₀, hr₀, ?_⟩
    split
    · rename_i hid
      exact .marked w e.now (List.mem_append_right _ (List.mem_singleton_self _)) (by simpa using hid)
    · exact .refl r₀
  | other w _ =>
    cases w with
    | createMeeting r =>
      rcases List.mem_append.mp hr' with hr' | hr'
      · exact .inl ⟨r', hr', .refl r'⟩
      · exact .inr ⟨⟨r, List.mem_singleton.mp hr'⟩, rfl⟩
    | updateMeeting r =>
      obtain ⟨r₀, hr₀, rfl⟩ := mem_updateWhere.mp hr'
      refine .inl ⟨r₀, hr₀, ?_⟩
      split
      · exact .kept _ rfl (fun kind => by cases kind <;> rfl) fun kind hp => by cases kind <;> exact hp
      · exact .refl r₀
    | deleteMeeting id => exact kept (List.mem_filter.mp hr').1
    | setAsignees | deleteNotification => exact kept hr'
  | dispatched kind id _ =>
    refine kept ?_
    rcases dispatch_cases kind id e.result.done e.now s with ⟨-, h⟩ | ⟨-, lock, -, h⟩ <;> rwa [h] at hr'
  | delivered w asignees user channel remaining _ => cases channel <;> exact kept hr'
  | idle | reserved | loaded | unlocked | deleted | released => exact kept hr'

theorem Effect.lastMeeting_le (h : Effect sha256 s p e s') : s.lastMeeting ≤ s'.lastMeeting := by
  cases h with
  | transitioned kind r s' _ _ ht =>
    obtain ⟨m, -, rfl⟩ := transitionTo_some ht
    exact le_rfl
  | dispatched kind id _ =>
    rcases dispatch_cases kind id e.result.done e.now s with ⟨-, h⟩ | ⟨-, lock, -, h⟩ <;> rw [h]
  | delivered w asignees user channel remaining _ => cases channel <;> exact le_rfl
  | other w _ => cases w <;> simp [Write.apply]
  | idle | reserved | loaded | marked | unlocked | deleted | released => exact le_rfl

/-! ### Invariant and progress -/

/-- The invariant of the store. -/
structure Inv (s : Store) : Prop where
  ids : (s.meetings.map (·.id)).Nodup
  bounded : ∀ r ∈ s.meetings, r.id ≤ s.lastMeeting
  due : ∀ kind id, .transitioned kind id ∈ s.log → id ≤ s.lastMeeting ∧ ∀ r ∈ s.meetings, r.id = id → Due kind r
  sent : ∀ r ∈ s.meetings, ∀ kind : MeetingNotification, kind.sentAt r ≠ none → Marked s kind r.id
  marked : ∀ w, .marked w ∈ s.log → w.meetingId ≤ s.lastMeeting ∧
    ∀ r ∈ s.meetings, r.id = w.meetingId → w.kind.sentAt r ≠ none
  served : ∀ w, .marked w ∈ s.log → Served s w

/-- What an attempt knows. -/
def Progress (s : Store) : Point → Prop
  | .load w r => r.id = w.meetingId ∧ r.id ≤ s.lastMeeting ∧
      (w.kind.sentAt r ≠ none → Marked s w.kind w.meetingId)
  | .send w asignees remaining => w.meetingId ≤ s.lastMeeting ∧ .loaded w asignees ∈ s.log ∧
      ∀ user ∈ asignees, ∀ channel ∈ MeetingNotification.via,
        (user, channel) ∈ remaining ∨ .delivered w user channel ∈ s.log
  | .markNotificationAsSent w => w.meetingId ≤ s.lastMeeting ∧ Served s w
  | .releaseLock w => Marked s w.kind w.meetingId
  | _ => True

theorem Progress.mono (h : Progress s p) (hlog : ∀ x ∈ s.log, x ∈ s'.log) (hlast : s.lastMeeting ≤ s'.lastMeeting) :
    Progress s' p := by
  cases p with
  | load w r => exact ⟨h.1, h.2.1.trans hlast, fun hs => (h.2.2 hs).mono hlog⟩
  | send w asignees remaining =>
    exact ⟨h.1.trans hlast, hlog _ h.2.1, fun user hu channel hc => (h.2.2 user hu channel hc).imp_right (hlog _)⟩
  | markNotificationAsSent w => exact ⟨h.1.trans hlast, h.2.mono hlog⟩
  | releaseLock w => exact Marked.mono h hlog
  | _ => trivial

/-- What a step puts into the log. -/
theorem Effect.of_mem_log (h : Effect sha256 s p e s') {x : Event} (hx : x ∈ s'.log) : x ∈ s.log ∨
    (∃ kind r, p = .transition kind r.id ∧ r ∈ s.meetings ∧ transitionTo kind r e.now s = some s' ∧
      x = .transitioned kind r.id) ∨
    (∃ w r asignees, p = .load w r ∧ x = .loaded w asignees) ∨
    (∃ w asignees user channel remaining, p = .send w asignees ((user, channel) :: remaining) ∧
      s' = deliver sha256 w user channel s ∧ x = .delivered w user channel) ∨
    ∃ w, p = .markNotificationAsSent w ∧ s' = mark w e.now s ∧ x = .marked w := by
  cases h with
  | transitioned kind r s' hp hr ht =>
    obtain ⟨m, -, rfl⟩ := transitionTo_some ht
    rcases List.mem_append.mp hx with hx | hx
    · exact .inl hx
    · exact .inr (.inl ⟨kind, r, hp, hr, ht, List.mem_singleton.mp hx⟩)
  | loaded w r asignees hp _ =>
    rcases List.mem_append.mp hx with hx | hx
    · exact .inl hx
    · exact .inr (.inr (.inl ⟨w, r, asignees, hp, List.mem_singleton.mp hx⟩))
  | delivered w asignees user channel remaining hp =>
    have hlog : (deliver sha256 w user channel s).log = s.log ++ [.delivered w user channel] := by cases channel <;> rfl
    rw [hlog] at hx
    rcases List.mem_append.mp hx with hx | hx
    · exact .inl hx
    · exact .inr (.inr (.inr (.inl ⟨w, asignees, user, channel, remaining, hp, rfl, List.mem_singleton.mp hx⟩)))
  | marked w hp =>
    rcases List.mem_append.mp hx with hx | hx
    · exact .inl hx
    · exact .inr (.inr (.inr (.inr ⟨w, hp, rfl, List.mem_singleton.mp hx⟩)))
  | dispatched kind id _ =>
    left
    rcases dispatch_cases kind id e.result.done e.now s with ⟨-, h⟩ | ⟨-, lock, -, h⟩ <;> rwa [h] at hx
  | other w _ => left; cases w <;> exact hx
  | idle | reserved | unlocked | deleted | released => exact .inl hx

theorem ids_updateWhere {rows : List MeetingRow} {f : MeetingRow → MeetingRow} {x : MeetingRow → Bool}
    (hids : (rows.map (·.id)).Nodup) (hf : ∀ r, (f r).id = r.id) : ((updateWhere x f rows).map (·.id)).Nodup := by
  rwa [map_updateWhere hf]

theorem Effect.ids (hids : (s.meetings.map (·.id)).Nodup) (hb : ∀ r ∈ s.meetings, r.id ≤ s.lastMeeting)
    (h : Effect sha256 s p e s') : (s'.meetings.map (·.id)).Nodup := by
  cases h with
  | transitioned kind r s' _ _ ht =>
    obtain ⟨m, -, rfl⟩ := transitionTo_some ht
    exact ids_updateWhere hids fun _ => rfl
  | marked w _ =>
    exact ids_updateWhere hids (id_mark w.kind e.now)
  | other w _ =>
    cases w with
    | createMeeting r =>
      rw [Write.apply, List.map_append, List.map_singleton]
      refine List.nodup_append.mpr ⟨hids, List.nodup_singleton _, fun a ha b hb' hab => ?_⟩
      obtain ⟨r₀, hr₀, rfl⟩ := List.mem_map.mp ha
      have hle := hb r₀ hr₀
      have hnew : r₀.id = s.lastMeeting + 1 := hab.trans (List.mem_singleton.mp hb')
      omega
    | updateMeeting r =>
      exact ids_updateWhere hids fun _ => rfl
    | deleteMeeting id => exact hids.sublist (List.filter_sublist.map _)
    | setAsignees | deleteNotification => exact hids
  | dispatched kind id _ =>
    rcases dispatch_cases kind id e.result.done e.now s with ⟨-, h⟩ | ⟨-, lock, -, h⟩ <;> rwa [h]
  | delivered w asignees user channel remaining _ => cases channel <;> exact hids
  | idle | reserved | loaded | unlocked | deleted | released => exact hids

theorem Inv.effect (hI : Inv s) (hp : Progress s p) (h : Effect sha256 s p e s') : Inv s' := by
  have hlog : ∀ x ∈ s.log, x ∈ s'.log := fun x hx => h.mem_log hx
  have hlast := h.lastMeeting_le
  have new {id : ℕ} (hid : id ≤ s.lastMeeting) {r : MeetingRow} (he : (created (s.lastMeeting + 1) r).id = id) :
      False := by
    have hnew : s.lastMeeting + 1 = id := he
    omega
  constructor
  case ids => exact h.ids hI.ids hI.bounded
  case bounded =>
    intro r' hr'
    rcases h.meetings hI.ids hr' with ⟨r, hr, hrow⟩ | ⟨⟨r, rfl⟩, hl⟩
    · rw [hrow.id_eq]
      exact (hI.bounded r hr).trans hlast
    · exact hl.ge
  case due =>
    intro kind id hx
    have older (hx : .transitioned kind id ∈ s.log) :
        id ≤ s'.lastMeeting ∧ ∀ r' ∈ s'.meetings, r'.id = id → Due kind r' := by
      obtain ⟨hid, hd⟩ := hI.due kind id hx
      refine ⟨hid.trans hlast, fun r' hr' he => ?_⟩
      rcases h.meetings hI.ids hr' with ⟨r, hr, hrow⟩ | ⟨⟨r, rfl⟩, -⟩
      · exact hrow.due (hd r hr (hrow.id_eq ▸ he))
      · exact (new hid he).elim
    rcases h.of_mem_log hx with
      hx | ⟨_, r, -, hr, ht, he⟩ | ⟨_, _, _, -, he⟩ | ⟨_, _, _, _, _, -, -, he⟩ | ⟨_, -, -, he⟩
    · exact older hx
    · cases he
      obtain ⟨m, hm, rfl⟩ := transitionTo_some ht
      refine ⟨hI.bounded r hr, fun r' hr' he => .inl ?_⟩
      have hrow : r' = if r.id == r.id then { r with meeting := m, updatedAt := e.now } else r := by
        refine eq_of_mem_updateWhere hI.ids ?_ hr hr' he
        exact fun _ => rfl
      rw [hrow, if_pos (beq_self_eq_true r.id), transition_written hm, if_pos rfl]
      exact Option.some_ne_none _
    all_goals cases he
  case sent =>
    intro r' hr' kind hs
    rcases h.meetings hI.ids hr' with ⟨r, hr, hrow⟩ | ⟨⟨r, rfl⟩, -⟩
    · cases hrow with
      | kept _ hid hsame _ =>
        rw [hid]
        exact (hI.sent r hr kind (by rwa [← hsame kind])).mono hlog
      | marked w now hw hid =>
        rw [sentAt_mark] at hs
        rw [id_mark]
        split at hs
        · rename_i hk
          exact ⟨w, hk.symm, hid.symm, hw⟩
        · exact (hI.sent r hr kind hs).mono hlog
    · exact absurd (by cases kind <;> rfl) hs
  case marked =>
    intro w hx
    have older (hx : .marked w ∈ s.log) : w.meetingId ≤ s'.lastMeeting ∧
        ∀ r' ∈ s'.meetings, r'.id = w.meetingId → w.kind.sentAt r' ≠ none := by
      obtain ⟨hid, hs⟩ := hI.marked w hx
      refine ⟨hid.trans hlast, fun r' hr' he => ?_⟩
      rcases h.meetings hI.ids hr' with ⟨r, hr, hrow⟩ | ⟨⟨r, rfl⟩, -⟩
      · exact hrow.sent (hs r hr (hrow.id_eq ▸ he))
      · exact (new hid he).elim
    rcases h.of_mem_log hx with
      hx | ⟨_, _, -, -, -, he⟩ | ⟨_, _, _, -, he⟩ | ⟨_, _, _, _, _, -, -, he⟩ | ⟨w', rfl, rfl, he⟩
    · exact older hx
    · cases he
    · cases he
    · cases he
    · cases he
      refine ⟨hp.1, fun r' hr' he => ?_⟩
      obtain ⟨r, -, rfl⟩ := mem_updateWhere.mp hr'
      by_cases hid : r.id = w.meetingId
      · rw [if_pos (beq_iff_eq.mpr hid), sentAt_mark, if_pos rfl]
        exact Option.some_ne_none _
      · rw [if_neg (by simpa using hid)] at he
        exact absurd he hid
  case served =>
    intro w hx
    rcases h.of_mem_log hx with
      hx | ⟨_, _, -, -, -, he⟩ | ⟨_, _, _, -, he⟩ | ⟨_, _, _, _, _, -, -, he⟩ | ⟨w', rfl, -, he⟩
    · exact (hI.served w hx).mono hlog
    · cases he
    · cases he
    · cases he
    · cases he
      exact hp.2.mono hlog

theorem Inv.clock (h : Inv s) (now : Time) : Inv { s with now } := ⟨h.ids, h.bounded, h.due, h.sent, h.marked, h.served⟩

/-- After a call an attempt stands where it goes on from, or has failed. -/
theorem andThen_cases (r : Result) (w : Attempt) (p : Point) :
    r.done = true ∧ r.andThen w p = p ∨ r.andThen w p = .threw w ∨ r.andThen w p = .fail w := by
  cases r with
  | returned => exact .inl ⟨rfl, rfl⟩
  | threw => exact .inr (.inl rfl)
  | timedOut => exact .inr (.inr rfl)

theorem Progress.andThen {w : Attempt} (h : e.result.done = true → Progress s p) :
    Progress s (e.result.andThen w p) := by
  rcases andThen_cases e.result w p with ⟨hd, he⟩ | he | he
  · rw [he]
    exact h hd
  · rw [he]
    trivial
  · rw [he]
    trivial

/-- A step leads to where its attempt knows what it has to. -/
theorem Progress.next (hI : Inv s) (hp : Progress s p) (hq : (act sha256 s p e).2 = some q) :
    Progress (act sha256 s p e).1 q := by
  cases p with
  | handle w =>
    simp only [act] at hq ⊢
    split at hq <;> cases hq
    · exact .andThen fun _ => trivial
    · rename_i r hr
      have hid : r.id = w.meetingId := by simpa using List.find?_some hr
      have hr := List.mem_of_find?_eq_some hr
      exact .andThen fun _ => ⟨hid, hI.bounded r hr, fun hs => hid ▸ hI.sent r hr w.kind hs⟩
  | load w r =>
    obtain ⟨hid, hle, hs⟩ := hp
    simp only [act] at hq ⊢
    split at hq
    · rename_i hsent
      cases hq
      rw [if_pos hsent]
      refine .andThen fun _ => hs ?_
      cases hk : w.kind <;> rw [hk] at hsent <;> exact Option.isSome_iff_ne_none.mp hsent
    · rename_i hsent
      rw [if_neg hsent]
      split at hq
      · cases hq
        exact .andThen fun _ => trivial
      · cases hq
        refine .andThen fun _ => ⟨hid ▸ hle, List.mem_append_right _ (List.mem_singleton_self _), ?_⟩
        exact fun user hu channel hc => .inl (List.mem_flatMap.mpr ⟨user, hu, List.mem_map_of_mem hc⟩)
  | send w asignees remaining =>
    obtain ⟨hle, hl, hd⟩ := hp
    match remaining, hq with
    | [], hq =>
      cases hq
      exact .andThen fun _ => ⟨hle, asignees, hl, fun user hu channel hc => (hd user hu channel hc).resolve_left nofun⟩
    | (user, channel) :: remaining, hq =>
      cases hq
      refine .andThen fun hdone => ?_
      simp only [act, if_pos hdone]
      have hlog : (deliver sha256 w user channel s).log = s.log ++ [.delivered w user channel] := by
        cases channel <;> rfl
      have hlast : (deliver sha256 w user channel s).lastMeeting = s.lastMeeting := by cases channel <;> rfl
      refine ⟨hlast ▸ hle, by rw [hlog]; exact List.mem_append_left _ hl, fun user' hu channel' hc => ?_⟩
      rw [hlog]
      rcases hd user' hu channel' hc with hd | hd
      · rcases List.mem_cons.mp hd with he | hd
        · cases he
          exact .inr (List.mem_append_right _ (List.mem_singleton_self _))
        · exact .inl hd
      · exact .inr (List.mem_append_left _ hd)
  | markNotificationAsSent w =>
    cases hq
    refine .andThen fun hdone => ?_
    simp only [act, if_pos hdone]
    exact ⟨w, rfl, rfl, List.mem_append_right _ (List.mem_singleton_self _)⟩
  | reserve job =>
    simp only [act] at hq ⊢
    split at hq <;> cases hq
    split <;> trivial
  | webhook kind meetingId =>
    simp only [act] at hq
    split at hq
    · cases hq
    · split at hq <;> cases hq
      trivial
  | transition kind id =>
    simp only [act] at hq
    split at hq
    · split at hq
      · cases hq
      · split at hq <;> cases hq
        trivial
    · cases hq
  | redispatch kind cutoff ids full =>
    match ids, full, hq with
    | [], some _, hq | _ :: _, _, hq => cases hq; trivial
    | [], none, hq => cases kind <;> cases hq; trivial
  | threw w =>
    simp only [act] at hq
    split at hq <;> cases hq
    trivial
  | check | page | releaseLock | fail => cases hq; trivial
  | dispatchNotificationJob | delete | failed | other => cases hq

theorem outline (sha256 : String → String) : Outline (program sha256) (fun _ _ _ => True) Inv Progress where
  entry s p _ hp := by
    cases p <;> trivial
  move s p e s' k hI hA _ h := by
    obtain ⟨rfl, rfl⟩ := moved h
    exact ⟨(hI.effect hA act_effect).clock e.now, fun q hq => (hA.next hI hq).mono (fun _ hx => hx) le_rfl⟩
  frame s p e s' k q hI _ _ h hq := by
    obtain ⟨rfl, -⟩ := moved h
    exact hq.mono (fun _ hx => act_effect.mem_log hx) act_effect.lastMeeting_le

theorem start_holds : Holds Inv Progress start := by
  have none {α : Type} {x : α} {P : Prop} (h : x ∈ ([] : List α)) : P := absurd h List.not_mem_nil
  exact ⟨⟨List.nodup_nil, fun _ => none, fun _ _ => none, fun _ => none, fun _ => none, fun _ => none⟩, fun _ => none⟩

/-- Along every run the invariant holds. -/
theorem inv_of_run {tr : List (Step Store Point Input)} {c : Config Store Point}
    (h : (program sha256).Run start tr c) : Inv c.store :=
  ((outline sha256).run start_holds h fun _ _ _ _ _ => trivial).1

end Notifications
end Daywright
