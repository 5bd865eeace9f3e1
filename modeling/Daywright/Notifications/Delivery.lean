/-
# A notification is not lost, and arrives once

Along every run, whatever crashes and whatever throws: a notification that has become
due is pending until an attempt has delivered it to each member it read, over each
channel, and until then `meetings:check-unsent-notifications` selects it
(`never_forgotten`). Attempts may be repeated, but of a notification a member has at most
one row, and exactly one once it is sent, unless the member deletes it
(`one_notification_each`).

Key theorems: `never_forgotten`, `one_notification_each`.
-/
import Daywright.Meetings.Create
import Daywright.Notifications.Outline

namespace Daywright
namespace Notifications

open Interleave Table CheckUnsentMeetingNotifications

variable {sha256 : String → String} {s s' : Store} {p q : Point} {e : Input} {k : Option Point}
  {tr : List (Step Store Point Input)} {c : Config Store Point} {kind : MeetingNotification} {r : MeetingRow}

/-- What is due and not sent is selected ten minutes later. -/
theorem stale_of_pending {t now : Time} {asignees : ℕ → Option (List ℕ)} (hs : kind.sentAt r = none)
    (hp : kind.pendingAt r = some t) (ht : t + minutes 10 < now) (ha : (asignees r.projectId).isSome = true) :
    stale kind (now - minutes 10) asignees r = true := by
  have hlt : t < now - minutes 10 := Nat.lt_sub_of_add_lt ht
  unfold stale
  rw [hs, hp, ha, Option.any_some, decide_eq_true hlt]
  rfl

theorem never_forgotten (h : (program sha256).Run start tr c) (hr : r ∈ c.store.meetings)
    (ht : .transitioned kind r.id ∈ c.store.log) :
    (kind.sentAt r ≠ none ∧ ∃ w, w.kind = kind ∧ w.meetingId = r.id ∧ Served c.store w) ∨
    ∃ t, kind.pendingAt r = some t ∧ ∀ now, t + minutes 10 < now → (c.store.asignees r.projectId).isSome = true →
      r ∈ staleNotificationMeetings kind (now - minutes 10) c.store := by
  have hI := inv_of_run h
  by_cases hs : kind.sentAt r = none
  · right
    have hd := ((hI.due kind r.id ht).2 r hr rfl).resolve_right (not_not_intro hs)
    obtain ⟨t, hp⟩ := Option.ne_none_iff_exists'.mp hd
    exact ⟨t, hp, fun now hnow ha => List.mem_filter.mpr ⟨hr, stale_of_pending hs hp hnow ha⟩⟩
  · obtain ⟨w, hk, hm, hw⟩ := hI.sent r hr kind hs
    exact .inl ⟨hs, w, hk, hm, hI.served w hw⟩

namespace Sample

/-- SHA-256 of the text that is signed below. -/
def digest (data : String) : String :=
  if data = "meeting:1" then "d656e55be73cf558d94f01798e57a1ad5066c4e777fd8f8d5e2b284d3c18db0f" else data

def row : MeetingRow where
  id := 1
  projectId := 7
  updatedAt := 0
  meeting := { CreateProjectMeeting.blankMeeting with
    meetingId := some 81
    status := some "waiting"
    syncStatus := .active }
  startedNotificationSentAt := none
  endedNotificationSentAt := none

/-- The input of a call that returns after `n` seconds. -/
def returns (n : ℕ) : Input := ⟨seconds n, .returned, true⟩

/-- A meeting of a project with two members has started. -/
def transition : List (Act Point Input) :=
  [.arrive (.other (.createMeeting row)), .move 0 (returns 0),
    .arrive (.other (.setAsignees 7 (some [3, 5]))), .move 0 (returns 0),
    .arrive (.webhook .started 81), .move 0 (returns 10), .move 0 (returns 10)]

def dispatch : List (Act Point Input) := [.move 0 (returns 11)]

/-- The first job is handed out, and its worker fails to deliver over the database. -/
def brokenOff : List (Act Point Input) :=
  [.arrive (.reserve 1), .move 0 (returns 12), .move 0 (returns 12), .move 0 (returns 12), .move 0 (returns 13),
    .move 0 ⟨seconds 14, .threw false, true⟩, .move 0 (returns 14)]

/-- An attempt at the first job that succeeds. -/
def attempt (n : ℕ) : List (Act Point Input) :=
  .arrive (.reserve 1) :: List.replicate 13 (.move 0 (returns n))

end Sample

/-- The worker of the webhook is killed before it dispatches the job. -/
theorem never_forgotten_killed : ∃ tr c r, (program Sample.digest).Run start tr c ∧ r ∈ c.store.meetings ∧
    c.procs.length = 0 ∧ c.store.jobs = [] ∧ MeetingNotification.started.pendingAt r = some (seconds 10) ∧
    (MeetingNotification.started.sentAt r ≠ none ∧
      (∃ w, w.kind = .started ∧ w.meetingId = r.id ∧ Served c.store w) ∨
    ∃ t, MeetingNotification.started.pendingAt r = some t ∧ ∀ now, t + minutes 10 < now →
      (c.store.asignees r.projectId).isSome = true →
      r ∈ staleNotificationMeetings .started (now - minutes 10) c.store) := by
  obtain ⟨tr, c, h, hq⟩ := (program Sample.digest).exists_run_of_replay (Sample.transition ++ [.crash 0]) (c := start)
    (q := fun _ c => c.store.meetings.any fun r => c.store.log.contains (.transitioned .started r.id) &&
      c.procs.length == 0 && c.store.jobs == [] && MeetingNotification.started.pendingAt r == some (seconds 10))
    (by decide +kernel)
  obtain ⟨r, hr, hq⟩ := List.any_eq_true.mp hq
  simp only [Bool.and_eq_true, List.contains_iff_mem, beq_iff_eq] at hq
  obtain ⟨⟨⟨ht, hc⟩, hj⟩, hp⟩ := hq
  exact ⟨tr, c, r, h, hr, hc, hj, hp, never_forgotten h hr ht⟩

/-! ### The notifications table -/

theorem Effect.notifications (h : Effect sha256 s p e s') : s'.notifications = s.notifications ∨
    (∃ w asignees user remaining, p = .send w asignees ((user, .database) :: remaining) ∧
      s' = deliver sha256 w user .database s) ∨
    ∃ n, p = .other (.deleteNotification n) ∧ s'.notifications = s.notifications.filter (· != n) := by
  cases h with
  | transitioned kind r s' _ _ ht =>
    obtain ⟨m, -, rfl⟩ := transitionTo_some ht
    exact .inl rfl
  | dispatched kind id _ =>
    left
    rcases dispatch_cases kind id e.result.done e.now s with ⟨-, h⟩ | ⟨-, lock, -, h⟩ <;> rw [h]
  | delivered w asignees user channel remaining hp =>
    cases channel with
    | database => exact .inr (.inl ⟨w, asignees, user, remaining, hp, rfl⟩)
    | mail | broadcast => exact .inl rfl
  | other w hp =>
    cases w with
    | deleteNotification n => exact .inr (.inr ⟨n, hp, rfl⟩)
    | _ => exact .inl rfl
  | idle | reserved | loaded | marked | unlocked | deleted | released => exact .inl rfl

theorem mem_send {n n' : NotificationRow} {rows : List NotificationRow} :
    n' ∈ DatabaseChannel.send n rows ↔ n' ∈ rows ∨ n' = n := by
  unfold DatabaseChannel.send
  split
  · rename_i hn
    have hn : n ∈ rows := by simpa using hn
    exact ⟨.inl, fun h => h.elim id fun h => h ▸ hn⟩
  · rw [List.mem_append, List.mem_singleton]

theorem nodup_send {n : NotificationRow} {rows : List NotificationRow} (h : rows.Nodup) :
    (DatabaseChannel.send n rows).Nodup := by
  unfold DatabaseChannel.send
  split
  · exact h
  · rename_i hn
    have hn : n ∉ rows := by simpa using hn
    exact List.nodup_append.mpr ⟨h, List.nodup_singleton n, fun a ha b hb hab => hn (by
      rwa [← List.mem_singleton.mp hb, ← hab])⟩

theorem Effect.nodup_notifications (h : Effect sha256 s p e s') (hd : s.notifications.Nodup) :
    s'.notifications.Nodup := by
  rcases h.notifications with he | ⟨w, asignees, user, remaining, -, rfl⟩ | ⟨n, -, he⟩
  · rwa [he]
  · exact nodup_send hd
  · rw [he]
    exact hd.filter _

/-- Once it has been delivered, the row is in the table. -/
def Arrived (sha256 : String → String) (n : NotificationRow) (s : Store) : Prop :=
  ∀ w user, notificationRow sha256 w user = n → .delivered w user .database ∈ s.log → n ∈ s.notifications

theorem Arrived.effect {n : NotificationRow} (hA : Arrived sha256 n s) (h : Effect sha256 s p e s')
    (hkeep : p ≠ .other (.deleteNotification n)) : Arrived sha256 n s' := by
  intro w user hn hw
  rcases h.of_mem_log hw with hw | ⟨_, _, -, -, -, he⟩ | ⟨_, _, _, -, he⟩ | ⟨_, _, _, _, _, -, rfl, he⟩ | ⟨_, -, -, he⟩
  · have hmem := hA w user hn hw
    rcases h.notifications with he | ⟨w', asignees, user', remaining, -, rfl⟩ | ⟨n', rfl, he⟩
    · rwa [he]
    · exact mem_send.mpr (.inl hmem)
    · rw [he, List.mem_filter]
      have hne : n ≠ n' := fun h => hkeep (h ▸ rfl)
      exact ⟨hmem, bne_iff_ne.mpr hne⟩
  · cases he
  · cases he
  · cases he
    exact mem_send.mpr (.inr hn.symm)
  · cases he

theorem nodup_of_run (h : (program sha256).Run start tr c) : c.store.notifications.Nodup := by
  have O : Outline (program sha256) (fun _ _ _ => True) (fun s => Inv s ∧ s.notifications.Nodup) Progress := by
    refine (outline sha256).strengthenStore (fun _ _ _ _ => trivial) fun s p e s' k _ _ hd _ h => ?_
    obtain ⟨rfl, -⟩ := moved h
    exact act_effect.nodup_notifications hd
  exact (O.run ⟨⟨start_holds.1, List.nodup_nil⟩, start_holds.2⟩ h fun _ _ _ _ _ => trivial).1.2

/-- The member does not delete the notification. -/
def Keeps (n : NotificationRow) (st : Step Store Point Input) : Prop :=
  st.Meets fun _ p _ => p ≠ .other (.deleteNotification n)

theorem arrived_of_run {n : NotificationRow} (h : (program sha256).Run start tr c) (hkeep : ∀ st ∈ tr, Keeps n st) :
    Arrived sha256 n c.store := by
  have O : Outline (program sha256) (fun _ p _ => p ≠ .other (.deleteNotification n))
      (fun s => Inv s ∧ Arrived sha256 n s) Progress := by
    refine (outline sha256).strengthenStore (fun _ _ _ _ => trivial) fun s p e s' k _ _ hA hok h => ?_
    obtain ⟨rfl, -⟩ := moved h
    have hA' : Arrived sha256 n (act sha256 s p e).1 := hA.effect act_effect hok
    exact hA'
  have hstart : Arrived sha256 n start.store := fun _ _ _ h => absurd h List.not_mem_nil
  exact (O.run ⟨⟨start_holds.1, hstart⟩, start_holds.2⟩ h hkeep).1.2

theorem one_notification_each (h : (program sha256).Run start tr c) (hr : r ∈ c.store.meetings)
    (hs : kind.sentAt r ≠ none) :
    (∀ n, c.store.notifications.count n ≤ 1) ∧
    ∃ w asignees, w.kind = kind ∧ w.meetingId = r.id ∧ .marked w ∈ c.store.log ∧ .loaded w asignees ∈ c.store.log ∧
      ∀ user ∈ asignees, (∀ st ∈ tr, Keeps (notificationRow sha256 w user) st) →
        c.store.notifications.count (notificationRow sha256 w user) = 1 := by
  have hd := nodup_of_run h
  have hI := inv_of_run h
  obtain ⟨w, hk, hm, hmarked⟩ := hI.sent r hr kind hs
  obtain ⟨asignees, hl, hserved⟩ := hI.served w hmarked
  refine ⟨List.nodup_iff_count_le_one.mp hd, w, asignees, hk, hm, hmarked, hl, fun user hu hkeep => ?_⟩
  have hmem := arrived_of_run h hkeep w user rfl (hserved user hu .database (by simp [MeetingNotification.via]))
  exact List.count_eq_one_of_mem hd hmem

/-- A member who was served twice has one notification. -/
theorem one_notification_each_twice : ∃ tr c r, (program Sample.digest).Run start tr c ∧ r ∈ c.store.meetings ∧
    c.store.notifications.length = 2 ∧ (∀ n, c.store.notifications.count n ≤ 1) ∧
    ∃ w asignees, w.kind = .started ∧ w.meetingId = r.id ∧ .marked w ∈ c.store.log ∧ .loaded w asignees ∈ c.store.log ∧
      ∀ user ∈ asignees, (∀ st ∈ tr, Keeps (notificationRow Sample.digest w user) st) →
        c.store.notifications.count (notificationRow Sample.digest w user) = 1 := by
  obtain ⟨tr, c, h, hq⟩ := (program Sample.digest).exists_run_of_replay
    (Sample.transition ++ Sample.dispatch ++ Sample.brokenOff ++ Sample.attempt 400) (c := start)
    (q := fun _ c => c.store.meetings.any fun r => c.store.notifications.length == 2 &&
      (MeetingNotification.started.sentAt r).isSome) (by decide +kernel)
  obtain ⟨r, hr, hq⟩ := List.any_eq_true.mp hq
  simp only [Bool.and_eq_true, beq_iff_eq] at hq
  exact ⟨tr, c, r, h, hr, hq.1, one_notification_each h hr (Option.isSome_iff_ne_none.mp hq.2)⟩

end Notifications
end Daywright
