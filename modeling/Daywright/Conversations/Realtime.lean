/-
# What a chat shows

Along every run, whatever is late, lost or repeated: a chat that has loaded shows what was
stored, in a project that was found under its slug (`shows_what_was_stored`). A message of
the project that it does not show is being deleted, or was stored after the first page was
read; then no event has brought it since the chat has loaded, be it that none has come, or
that it came before the page and went unheard (`nothing_missed`). It asks for one page at a
time (`one_request`). It shows a message twice at most, and once if no
event brings one from below its cursor (`shown_once`); if the messages come in their order,
the list is in order (`newest_first`).

Put together: a chat that has read to the end, and was brought everything else once it had
loaded, shows the messages of its project, each once (`in_sync`).

Key definitions: `OnTime`, `InOrder`, `Here`, `Neat`.
Key theorems: `shows_what_was_stored`, `nothing_missed`, `one_request`, `shown_once`,
`newest_first`, `in_sync`.
-/
import Daywright.Conversations.Reader

namespace Daywright
namespace Chat

open Interleave UseChatMessages UseRealtimeChat

variable {s s' : Store} {p q : Point} {e : Input} {i : ℕ} {chat : Chat} {data : List ConversationResource}
  {m : ConversationResource} {tr : List (Step Store Point Input)} {c : Config Store Point}

theorem loaded_of_run (h : program.Run start tr c) (hc : c.store.chats[i]? = some chat) (hd : chat.data = some data) :
    Loaded c.store i chat data := ((inv_of_run h).1.1.chats.sound i chat hc).loaded hd

/-! ### Nothing but what was stored -/

theorem shows_what_was_stored (h : program.Run start tr c) (hc : chat ∈ c.store.chats) (hd : chat.data = some data)
    (hm : m ∈ data) : ∃ row, .stored row ∈ c.store.log ∧ row.id = m.id ∧ row.message = m.message ∧
      row.createdAt = m.createdAt ∧ .bound chat.slug row.projectId ∈ c.store.log ∧
      ((∃ r ∈ c.store.conversations, r.id = m.id) ∨ .deleting m.id ∈ c.store.log ∨
        .purged row.projectId ∈ c.store.log) := by
  obtain ⟨i, hi⟩ := List.mem_iff_getElem?.mp hc
  have hT := (inv_of_run h).1.1.tables
  obtain ⟨row, hrow, hid, hmessage, hcreated, hb⟩ := (loaded_of_run h hi hd).known m hm
  refine ⟨row, hrow, hid, hmessage, hcreated, hb, ?_⟩
  rw [← hid]
  rcases hT.kept row hrow with ⟨r, hr, ha⟩ | hgone
  · exact .inl ⟨r, hr, id_of_anonymous ha⟩
  · exact .inr hgone

namespace Sample

/-- The input of a call that succeeds. -/
def fine : Input := ⟨5, true, true, "", fun _ => none, fun _ => none, id⟩

/-- A process comes behind `j` others and takes `n` steps. -/
def runs (p : Point) (j n : ℕ) : List (Act Point Input) := .arrive p :: List.replicate n (.move j fine)

/-- A message is stored, and its event queued. -/
def write (j : ℕ) : List (Act Point Input) := runs (.storeConversation "alpha" 7 (some "hi") none) j 4

def message (id : ℕ) : ConversationResource := ⟨id, some "hi", none, none, 5⟩

def alpha (data : List ConversationResource) (nextCursor : Option ℕ) (loadingMore : Bool) : Chat :=
  ⟨"alpha", some data, nextCursor, loadingMore, true⟩

/-- The event of a message is broadcast, and comes to the chat. -/
def deliver (id j : ℕ) : List (Act Point Input) :=
  runs (.broadcast (.newMessage id "alpha")) j 1 ++ runs (.newMessage 0 (message id)) j 1

/-- Of a project with `n` messages a chat is opened, and its first page read. -/
def opened (n : ℕ) : List (Act Point Input) :=
  runs (.other (.setProject "alpha" (some 1))) 0 1 ++ (List.replicate n (write 0)).flatten ++
    runs (.created "alpha") 0 3

def loaded (n : ℕ) : List (Act Point Input) := opened n ++ [.move 0 fine]

/-- The reader scrolls; after four steps the next page is there. -/
def scrolled (n : ℕ) : List (Act Point Input) := runs (.intersecting 0) 0 n

def destroy (id : ℕ) : List (Act Point Input) := runs (.destroy "alpha" id 7) 0 5

/-- The event of a deletion is broadcast, and comes to the chat. -/
def tell (id : ℕ) : List (Act Point Input) :=
  runs (.broadcast (.deleteConversation id "alpha")) 0 1 ++ runs (.deleteConversation 0 id) 0 1

/-- The event names no other project than the first. -/
def first : Event → Bool
  | .bound _ project | .read _ project _ _ => project == 1
  | .purged _ => false
  | _ => true

end Sample

/-- A message that has been deleted, in a chat that has not been told. -/
theorem shows_what_was_stored_deleted : ∃ tr c chat data m, program.Run start tr c ∧ chat ∈ c.store.chats ∧
    chat.data = some data ∧ m ∈ data ∧ c.store.conversations = [] ∧
    ∃ row, .stored row ∈ c.store.log ∧ row.id = m.id ∧ row.message = m.message ∧ row.createdAt = m.createdAt ∧
      .bound chat.slug row.projectId ∈ c.store.log ∧ ((∃ r ∈ c.store.conversations, r.id = m.id) ∨
        .deleting m.id ∈ c.store.log ∨ .purged row.projectId ∈ c.store.log) := by
  obtain ⟨tr, c, h, hq⟩ := program.exists_run_of_replay (Sample.loaded 1 ++ Sample.destroy 1) (c := start)
    (q := fun _ c => c.store.chats == [Sample.alpha [Sample.message 1] none false] && c.store.conversations == [])
    (by decide +kernel)
  simp only [Bool.and_eq_true, beq_iff_eq] at hq
  have hc : Sample.alpha [Sample.message 1] none false ∈ c.store.chats := by
    rw [hq.1]
    exact List.mem_singleton_self _
  exact ⟨tr, c, _, _, _, h, hc, rfl, List.mem_singleton_self _, hq.2,
    shows_what_was_stored h hc rfl (List.mem_singleton_self _)⟩

/-! ### Nothing missed -/

theorem nothing_missed (h : program.Run start tr c) (hc : c.store.chats[i]? = some chat) (hd : chat.data = some data)
    {project : ℕ} (hread : ∀ project' cursor n, .read i project' cursor n ∈ c.store.log → project' = project)
    {r : ConversationRow} (hr : r ∈ c.store.conversations) (hproject : r.projectId = project)
    (hcursor : ∀ k ∈ chat.nextCursor, k ≤ r.id) :
    (∃ m ∈ data, m.id = r.id) ∨ .deleting r.id ∈ c.store.log ∨
      (∃ n, .read i project none n ∈ c.store.log ∧ n < r.id) ∧ .came i r.id ∉ c.store.log :=
  (loaded_of_run h hc hd).complete project hread r hr hproject hcursor

/-- A message that is stored and comes while the first page is on its way. -/
theorem nothing_missed_early : ∃ tr c chat r, program.Run start tr c ∧ c.store.chats[0]? = some chat ∧
    chat.data = some [] ∧ r ∈ c.store.conversations ∧ ((∃ m ∈ ([] : List ConversationResource), m.id = r.id) ∨
      .deleting r.id ∈ c.store.log ∨
      (∃ n, .read 0 1 none n ∈ c.store.log ∧ n < r.id) ∧ .came 0 r.id ∉ c.store.log) := by
  obtain ⟨tr, c, h, hq⟩ := program.exists_run_of_replay
    (Sample.opened 0 ++ Sample.write 1 ++ Sample.deliver 1 1 ++ [.move 0 Sample.fine]) (c := start)
    (q := fun _ c => c.store.chats == [Sample.alpha [] none false] && c.store.log.all Sample.first &&
      c.store.conversations.any (·.projectId == 1)) (by decide +kernel)
  simp only [Bool.and_eq_true, beq_iff_eq, List.all_eq_true, List.any_eq_true] at hq
  obtain ⟨⟨hchats, hfirst⟩, r, hr, hproject⟩ := hq
  have hc : c.store.chats[0]? = some _ := congrArg (fun chats => chats[0]?) hchats
  have hread : ∀ project cursor n, .read 0 project cursor n ∈ c.store.log → project = 1 :=
    fun project cursor n hx => beq_iff_eq.mp (hfirst _ hx)
  exact ⟨tr, c, _, r, h, hc, rfl, hr, nothing_missed h hc rfl hread hr hproject (by simp [Sample.alpha])⟩

/-! ### One request at a time -/

/-- The chat and the cursor of a request. -/
def request : Point → Option (ℕ × Option ℕ)
  | .index i cursor | .getProjectConversations i _ cursor | .resolved i cursor _ | .rejected i cursor =>
    some (i, cursor)
  | _ => none

theorem Progress.request {cursor : Option ℕ} (hp : Progress s p) (h : request p = some (i, cursor)) :
    ∃ c, s.chats[i]? = some c ∧ Asks c cursor := by
  cases p with
  | index j k | rejected j k =>
    cases h
    exact hp
  | getProjectConversations j project k | resolved j k page =>
    cases h
    obtain ⟨c, hc, hA, -⟩ := hp
    exact ⟨c, hc, hA⟩
  | _ => cases h

/-- A request goes on, or comes back to its chat. -/
theorem act_loads (hi : loads p = some i) : (∃ q, (act s p e).2 = some q ∧ loads q = some i) ∨
    (∃ cursor, p = .rejected i cursor) ∨ ∃ cursor page, p = .resolved i cursor page := by
  cases p with
  | index j cursor =>
    left
    simp only [act]
    split
    · exact ⟨_, rfl, hi⟩
    · refine ⟨_, rfl, ?_⟩
      split <;> exact hi
  | getProjectConversations j project cursor =>
    refine .inl ⟨_, rfl, ?_⟩
    split <;> exact hi
  | rejected j cursor =>
    cases hi
    exact .inr (.inl ⟨cursor, rfl⟩)
  | resolved j cursor page =>
    cases hi
    exact .inr (.inr ⟨cursor, page, rfl⟩)
  | _ => cases hi

/-- Coming back, it leaves the chat free to ask again. -/
theorem settled (hI : Chats s) (hp : Progress s p)
    (hq : (∃ cursor, p = .rejected i cursor) ∨ ∃ cursor page, p = .resolved i cursor page)
    (hc : (act s p e).1.chats[i]? = some chat) : chat.loadingMore = false := by
  rcases hq with ⟨cursor, rfl⟩ | ⟨cursor, page, rfl⟩
  · obtain ⟨c, hi, hA⟩ := hp
    simp only [act, hi, Store.setChat] at hc
    rw [List.getElem?_set_self (List.getElem?_eq_some_iff.mp hi).1] at hc
    cases hc
    cases cursor with
    | none => exact ((hI.sound i c hi).waiting hA).loadingMore
    | some k => rfl
  · obtain ⟨c, hi, hA, -⟩ := hp
    simp only [act, hi, Store.setChat, Store.note] at hc
    rw [List.getElem?_set_self (List.getElem?_eq_some_iff.mp hi).1] at hc
    cases hc
    cases cursor with
    | none => exact ((hI.sound i c hi).waiting hA).loadingMore
    | some k => rfl

/-- Only the observer has a chat load more. -/
theorem Effect.loading (h : Effect s p e s') (hp : p ≠ .intersecting i) (hc : s'.chats[i]? = some chat)
    (hl : chat.loadingMore = true) : ∃ c, s.chats[i]? = some c ∧ c.loadingMore = true := by
  have set {j : ℕ} {c₁ c₁' : Chat} (hj : s.chats[j]? = some c₁) (hc : (s.chats.set j c₁')[i]? = some chat)
      (hl' : c₁'.loadingMore = true → c₁.loadingMore = true) : ∃ c, s.chats[i]? = some c ∧ c.loadingMore = true := by
    rcases get_set hc with ⟨rfl, rfl⟩ | ⟨-, hc⟩
    · exact ⟨c₁, hj, hl' hl⟩
    · exact ⟨chat, hc, hl⟩
  cases h with
  | opened slug =>
    rw [List.getElem?_append] at hc
    split at hc
    · exact ⟨chat, hc, hl⟩
    · rw [List.getElem?_singleton] at hc
      split at hc <;> cases hc
      cases hl
  | loaded j c₁ page _ hj | failed j c₁ _ hj | closed j c₁ _ hj | heard j c₁ m data _ hj
  | told j c₁ id data _ hj => exact set hj hc fun h => h
  | loadedMore j c₁ cursor page _ hj | failedMore j c₁ cursor _ hj =>
    exact set hj hc fun hl => absurd hl Bool.false_ne_true
  | asked j c₁ cursor hq hj =>
    rcases get_set hc with ⟨rfl, -⟩ | ⟨-, hc⟩
    · exact absurd hq hp
    · exact ⟨chat, hc, hl⟩
  | other w _ => cases w <;> exact ⟨chat, hc, hl⟩
  | idle | bound | uploaded | stored | queued | deleting | deleted | erased | sent | read | heardEarly
  | toldEarly => exact ⟨chat, hc, hl⟩

/-- When it does, there is a request. -/
theorem loading_of_act (hc : (act s p e).1.chats[i]? = some chat) (hl : chat.loadingMore = true) :
    (∃ c, s.chats[i]? = some c ∧ c.loadingMore = true) ∨ ∃ q, (act s p e).2 = some q ∧ loads q = some i := by
  by_cases hp : p = .intersecting i
  · subst hp
    cases hi : s.chats[i]? with
    | none =>
      simp only [act, hi] at hc
      cases hc
    | some c₀ =>
      simp only [act, hi, Store.setChat] at hc ⊢
      rw [List.getElem?_set_self (List.getElem?_eq_some_iff.mp hi).1] at hc
      unfold UseChatMessages.intersecting at hc ⊢
      split at hc
      · rename_i hobserver
        rw [if_pos hobserver]
        split at hc
        · cases hc
          exact .inl ⟨c₀, rfl, hl⟩
        · rename_i cursor _
          exact .inr ⟨.index i (some cursor), rfl, rfl⟩
      · cases hc
        exact .inl ⟨c₀, rfl, hl⟩
  · exact .inl (act_effect.loading hp hc hl)

/-- A request of the chat is lost. -/
def Loses (i : ℕ) (st : Step Store Point Input) : Prop :=
  ∃ j p, st.act = .crash j ∧ st.pre.procs[j]? = some p ∧ loads p = some i

/-- As long as it loses no request, a chat that is loading more waits for one. -/
theorem attended_of_run (h : program.Run start tr c) (hlost : ∀ st ∈ tr, ¬ Loses i st) :
    ∀ chat, c.store.chats[i]? = some chat → chat.loadingMore = true → ∃ p ∈ c.procs, loads p = some i := by
  induction h with
  | nil =>
    intro chat hc
    simp [start] at hc
  | @snoc tr c c' a hr hs ih =>
    have ih := ih fun st hst => hlost st (List.mem_append_left _ hst)
    have hlast := hlost ⟨c, a, c'⟩ (List.mem_append_right _ (List.mem_singleton_self _))
    intro chat hc hl
    cases a with
    | arrive p =>
      simp only [Program.step, Option.ite_none_right_eq_some, Option.some.injEq] at hs
      obtain ⟨-, rfl⟩ := hs
      obtain ⟨q, hq, hi⟩ := ih chat hc hl
      exact ⟨q, List.mem_append_left _ hq, hi⟩
    | crash j =>
      simp only [Program.step, Option.ite_none_right_eq_some, Option.some.injEq] at hs
      obtain ⟨-, rfl⟩ := hs
      obtain ⟨q, hq, hi⟩ := ih chat hc hl
      obtain ⟨j', hj'⟩ := List.mem_iff_getElem?.mp hq
      have hj : j' ≠ j := fun hj => hlast ⟨j, q, rfl, hj ▸ hj', hi⟩
      exact ⟨q, List.mem_eraseIdx_iff_getElem?.mpr ⟨j', hj, hj'⟩, hi⟩
    | move j e =>
      obtain ⟨p, hp⟩ : ∃ p, c.procs[j]? = some p := by
        cases hp : c.procs[j]? with
        | none => simp [Program.step, hp] at hs
        | some p => exact ⟨p, rfl⟩
      obtain ⟨k, hm, hothers, hnext⟩ := program.procs_of_step hp hs
      obtain ⟨hst, rfl⟩ := moved hm
      rw [hst] at hc
      have hI := (inv_of_run hr).1
      rcases loading_of_act hc hl with ⟨c₀, hc₀, hl₀⟩ | ⟨q, hq, hi⟩
      · obtain ⟨q, hq, hi⟩ := ih c₀ hc₀ hl₀
        obtain ⟨j', hj'⟩ := List.mem_iff_getElem?.mp hq
        by_cases hj : j' = j
        · subst hj
          cases hp.symm.trans hj'
          rcases act_loads hi with ⟨q', hq', hi'⟩ | hback
          · exact ⟨q', hnext q' hq', hi'⟩
          · have hfree := settled hI.1.chats (hI.2 p hq) hback hc
            rw [hfree] at hl
            cases hl
        · exact ⟨q, hothers j' q hj hj', hi⟩
      · exact ⟨q, hnext q hq, hi⟩

/-- There is one request of a chat at most, and while it is under way the chat keeps the
cursor it was made with; if none is lost, `loadingMore` says whether there is one for older
messages. -/
theorem one_request (h : program.Run start tr c) (hc : c.store.chats[i]? = some chat) :
    c.procs.countP (fun p => loads p == some i) ≤ 1 ∧
    (∀ p ∈ c.procs, ∀ cursor, request p = some (i, cursor) → chat.nextCursor = cursor ∧
      (cursor = none ↔ chat.data = none) ∧ (chat.loadingMore = true ↔ cursor ≠ none)) ∧
    ((∀ st ∈ tr, ¬ Loses i st) → chat.loadingMore = true → ∃ p ∈ c.procs, loads p = some i) := by
  obtain ⟨⟨hI, hP⟩, hB⟩ := inv_of_run h
  refine ⟨hB.countP_le_one fun p q hpq hp => ?_, fun p hp cursor hreq => ?_, fun hlost hl => ?_⟩
  · exact beq_eq_false_iff_ne.mpr (hpq i (beq_iff_eq.mp hp))
  · obtain ⟨chat', hc', hA⟩ := (hP p hp).request hreq
    cases hc.symm.trans hc'
    have hS := hI.chats.sound i chat hc
    refine ⟨hA.cursor hS, ?_⟩
    cases cursor with
    | none =>
      have hidle := (hS.waiting hA).loadingMore
      exact ⟨⟨fun _ => hA, fun _ => rfl⟩, fun hl => absurd (hidle.symm.trans hl) Bool.false_ne_true,
        fun hn => absurd rfl hn⟩
    | some k =>
      exact ⟨⟨fun hn => absurd hn (Option.some_ne_none k), fun hd => absurd hd hA.1⟩,
        fun _ => Option.some_ne_none k, fun _ => hA.2.2⟩
  · exact attended_of_run h hlost chat hc hl

/-- A chat whose reader has scrolled. -/
theorem one_request_scrolled : ∃ tr c chat, program.Run start tr c ∧ c.store.chats[0]? = some chat ∧
    c.procs.length = 1 ∧ c.procs.countP (fun p => loads p == some 0) ≤ 1 ∧
    (∀ p ∈ c.procs, ∀ cursor, request p = some (0, cursor) → chat.nextCursor = cursor ∧
      (cursor = none ↔ chat.data = none) ∧ (chat.loadingMore = true ↔ cursor ≠ none)) ∧
    ((∀ st ∈ tr, ¬ Loses 0 st) → chat.loadingMore = true → ∃ p ∈ c.procs, loads p = some 0) := by
  obtain ⟨tr, c, h, hq⟩ := program.exists_run_of_replay (Sample.loaded 11 ++ Sample.scrolled 2) (c := start)
    (q := fun _ c => c.store.chats ==
      [Sample.alpha ((List.range' 2 10).reverse.map Sample.message) (some 2) true] && c.procs.length == 1)
    (by decide +kernel)
  simp only [Bool.and_eq_true, beq_iff_eq] at hq
  have hc : c.store.chats[0]? = some _ := congrArg (fun chats => chats[0]?) hq.1
  exact ⟨tr, c, _, h, hc, hq.2, one_request h hc⟩

/-! ### Once, and in order -/

/-- No event brings the chat a message from below its cursor. -/
def inTime (i : ℕ) (s : Store) : Point → Bool
  | .newMessage j m => j != i || (s.chats[i]?).all fun c => c.nextCursor.all (· ≤ m.id)
  | _ => true

def OnTime (i : ℕ) (s : Store) (p : Point) (_ : Input) : Prop := inTime i s p = true

/-- Nor one that is older than what the chat shows. -/
def inOrder (i : ℕ) (s : Store) : Point → Bool
  | .newMessage j m =>
    j != i || (s.chats[i]?).all fun c => c.nextCursor.all (· ≤ m.id) && c.data.all fun data => data.all (·.id ≤ m.id)
  | _ => true

def InOrder (i : ℕ) (s : Store) (p : Point) (_ : Input) : Prop := inOrder i s p = true

instance : Decidable (OnTime i s p e) := inferInstanceAs (Decidable (inTime i s p = true))

instance : Decidable (InOrder i s p e) := inferInstanceAs (Decidable (inOrder i s p = true))

theorem cursor_le_of_onTime (hok : OnTime i s (.newMessage i m) e) (hc : s.chats[i]? = some chat) :
    ∀ k ∈ chat.nextCursor, k ≤ m.id := by
  have h : (chat.nextCursor.all (· ≤ m.id)) = true := by simpa [OnTime, inTime, hc] using hok
  exact fun k hk => of_decide_eq_true ((Option.all_eq_true _ _).mp h k hk)

theorem le_of_inOrder (hok : InOrder i s (.newMessage i m) e) (hc : s.chats[i]? = some chat)
    (hd : chat.data = some data) : (∀ k ∈ chat.nextCursor, k ≤ m.id) ∧ ∀ m' ∈ data, m'.id ≤ m.id := by
  have h : (chat.nextCursor.all (· ≤ m.id)) = true ∧ (data.all (·.id ≤ m.id)) = true := by
    simpa [InOrder, inOrder, hc, hd] using hok
  refine ⟨fun k hk => of_decide_eq_true ((Option.all_eq_true _ _).mp h.1 k hk), fun m' hm => ?_⟩
  exact of_decide_eq_true (List.all_eq_true.mp h.2 m' hm)

/-- Of what the chat was brought and told of the message, the last is that it has come. -/
def Here (log : List Event) (i id : ℕ) : Prop :=
  (log.reverse.find? fun x => x == .came i id || x == .went i id) = some (.came i id)

instance {log : List Event} {id : ℕ} : Decidable (Here log i id) := inferInstanceAs (Decidable (_ = _))

theorem Here.append {log new : List Event} {id : ℕ} (h : Here log i id ∨ .came i id ∈ new)
    (hnew : .went i id ∉ new) : Here (log ++ new) i id := by
  unfold Here at h ⊢
  rw [List.reverse_append, List.find?_append]
  cases hf : new.reverse.find? fun x => x == .came i id || x == .went i id with
  | none =>
    have hcame : .came i id ∉ new := by
      intro hx
      have hno := List.find?_eq_none.mp hf _ (List.mem_reverse.mpr hx)
      simp at hno
    exact h.resolve_right hcame
  | some x =>
    have hx := List.mem_reverse.mp (List.mem_of_find?_eq_some hf)
    have hp := List.find?_some hf
    simp only [Bool.or_eq_true, beq_iff_eq] at hp
    rcases hp with rfl | rfl
    · rfl
    · exact absurd hx hnew

/-- What the chat shows is shown once, and has come since the chat was told that it is gone. -/
def Neat (i : ℕ) (s : Store) : Prop :=
  ∀ c data, s.chats[i]? = some c → c.data = some data →
    Feed.Tidy (·.id) c.nextCursor data ∧ ∀ m ∈ data, Here s.log i m.id

def Orderly (i : ℕ) (s : Store) : Prop :=
  ∀ c data, s.chats[i]? = some c → c.data = some data → Feed.Newest (·.id) c.nextCursor data

theorem came_of_page {page : Feed.Page ConversationResource ℕ} (hm : m ∈ page.data) :
    Here (s.log ++ page.data.map fun m => .came i m.id) i m.id :=
  Here.append (.inr (List.mem_map_of_mem hm)) (by simp)

theorem Neat.turns (hK : Neat i s) (hp : Progress s p) (hok : OnTime i s p e) (ht : Turns s p s' i chat data) :
    Feed.Tidy (·.id) chat.nextCursor data ∧ ∀ m ∈ data, Here s'.log i m.id := by
  cases ht with
  | kept c new hc hd _ hcursor hlog hnew =>
    rw [hcursor, hlog]
    exact ⟨(hK c data hc hd).1, fun m hm => Here.append (.inl ((hK c data hc hd).2 m hm)) (hnew m.id).2⟩
  | first c page hq _ hchat hdata hlog =>
    subst hq hchat hdata
    rw [hlog]
    obtain ⟨_, _, _, project, n, hR⟩ := hp
    exact ⟨.first hR.sorted hR.low, fun m hm => came_of_page hm⟩
  | more c cursor page hq hc _ hnext hdata hlog =>
    subst hq
    obtain ⟨c₀, hc₀, ⟨hd, hcursor, -⟩, project, n, hR⟩ := hp
    cases hc.symm.trans hc₀
    obtain ⟨old, hd⟩ := Option.ne_none_iff_exists'.mp hd
    rw [shown, hd, Option.getD_some] at hdata
    obtain ⟨htidy, hhere⟩ := hK c old hc hd
    rw [hcursor] at htidy
    rw [hdata, hnext, hlog]
    refine ⟨htidy.more hR.sorted (fun m hm => hR.below m hm cursor rfl) hR.low fun k hk => (hR.next k hk).2 cursor rfl,
      fun m hm => ?_⟩
    rcases List.mem_append.mp hm with hm | hm
    · exact Here.append (.inl (hhere m hm)) (by simp)
    · exact came_of_page hm
  | heard c m old hq hc hd _ _ hcursor hdata hlog =>
    subst hq hdata
    obtain ⟨htidy, hhere⟩ := hK c old hc hd
    rw [hcursor, hlog]
    refine ⟨htidy.push (cursor_le_of_onTime hok hc), fun m' hm => ?_⟩
    rcases Feed.of_mem_push hm with hm | rfl
    · exact Here.append (.inl (hhere m' hm)) (by simp)
    · exact Here.append (.inr (List.mem_singleton_self _)) (by simp)
  | told c id old hq hc hd _ _ hcursor hdata hlog =>
    subst hdata
    obtain ⟨htidy, hhere⟩ := hK c old hc hd
    rw [hcursor, hlog]
    refine ⟨htidy.remove id, fun m hm => Here.append (.inl (hhere m (Feed.of_mem_remove hm))) ?_⟩
    have hne := htidy.notMem_remove hm
    simpa using hne

theorem Orderly.turns (hK : Orderly i s) (hp : Progress s p) (hok : InOrder i s p e) (ht : Turns s p s' i chat data) :
    Feed.Newest (·.id) chat.nextCursor data := by
  cases ht with
  | kept c new hc hd _ hcursor _ _ =>
    rw [hcursor]
    exact hK c data hc hd
  | first c page hq _ hchat hdata _ =>
    subst hq hchat hdata
    obtain ⟨_, _, _, project, n, hR⟩ := hp
    exact ⟨hR.sorted, hR.low⟩
  | more c cursor page hq hc _ hnext hdata _ =>
    subst hq
    obtain ⟨c₀, hc₀, ⟨hd, hcursor, -⟩, project, n, hR⟩ := hp
    cases hc.symm.trans hc₀
    obtain ⟨old, hd⟩ := Option.ne_none_iff_exists'.mp hd
    rw [shown, hd, Option.getD_some] at hdata
    have hnewest := hK c old hc hd
    rw [hcursor] at hnewest
    rw [hdata, hnext]
    exact hnewest.more hR.sorted (fun m hm => hR.below m hm cursor rfl) hR.low fun k hk => (hR.next k hk).2 cursor rfl
  | heard c m old hq hc hd _ _ hcursor hdata _ =>
    subst hq hdata
    obtain ⟨hlow, hnew⟩ := le_of_inOrder hok hc hd
    rw [hcursor]
    exact (hK c old hc hd).push hlow hnew
  | told c id old hq hc hd _ _ hcursor hdata _ =>
    subst hdata
    rw [hcursor]
    exact (hK c old hc hd).remove id

theorem neat_of_run (h : program.Run start tr c) (hok : ∀ st ∈ tr, st.Meets (OnTime i)) : Neat i c.store := by
  refine outline.run_store (fun s p e s' k _ hp hK hok h => ?_) start_holds Apart.nil ?_ h hok
  · obtain ⟨rfl, -⟩ := moved h
    intro chat data hc hd
    exact hK.turns hp hok (act_effect.turns hc hd)
  · intro chat data hc
    simp [start] at hc

theorem orderly_of_run (h : program.Run start tr c) (hok : ∀ st ∈ tr, st.Meets (InOrder i)) : Orderly i c.store := by
  refine outline.run_store (fun s p e s' k _ hp hK hok h => ?_) start_holds Apart.nil ?_ h hok
  · obtain ⟨rfl, -⟩ := moved h
    intro chat data hc hd
    exact hK.turns hp hok (act_effect.turns hc hd)
  · intro chat data hc
    simp [start] at hc

/-- A message is shown twice at most, and once if none comes from below the cursor. -/
theorem shown_once (h : program.Run start tr c) (hc : c.store.chats[i]? = some chat) :
    (∀ id, ((shown c.store.empty chat).map (·.id)).count id ≤ 2) ∧
    ((∀ st ∈ tr, st.Meets (OnTime i)) → ((shown c.store.empty chat).map (·.id)).Nodup) := by
  cases hd : chat.data with
  | none =>
    have hshared := (inv_of_run h).1.1.chats.shared.nodup
    rw [shown, hd, Option.getD_none]
    refine ⟨fun id => ?_, fun _ => hshared⟩
    exact (List.nodup_iff_count_le_one.mp hshared id).trans (by decide)
  | some data =>
    have hL := loaded_of_run h hc hd
    rw [shown, hd, Option.getD_some]
    exact ⟨hL.layered.count_le, fun hok => (neat_of_run h hok chat data hc hd).1.nodup⟩

/-- A message that comes from below the cursor, and once more with its page. -/
theorem shown_once_late : ∃ tr c chat, program.Run start tr c ∧ c.store.chats[0]? = some chat ∧
    ((shown c.store.empty chat).map (·.id)).count 1 = 2 ∧
    (∀ id, ((shown c.store.empty chat).map (·.id)).count id ≤ 2) ∧
    ((∀ st ∈ tr, st.Meets (OnTime 0)) → ((shown c.store.empty chat).map (·.id)).Nodup) := by
  obtain ⟨tr, c, h, hq⟩ := program.exists_run_of_replay
    (Sample.loaded 11 ++ Sample.deliver 1 0 ++ Sample.scrolled 4) (c := start)
    (q := fun _ c => c.store.chats ==
      [Sample.alpha ((1 :: (List.range' 1 11).reverse).map Sample.message) none false]) (by decide +kernel)
  have hc : c.store.chats[0]? = some _ := congrArg (fun chats => chats[0]?) (beq_iff_eq.mp hq)
  exact ⟨tr, c, _, h, hc, rfl, shown_once h hc⟩

theorem newest_first (h : program.Run start tr c) (hok : ∀ st ∈ tr, st.Meets (InOrder i))
    (hc : c.store.chats[i]? = some chat) (hd : chat.data = some data) : data.Pairwise fun a b => b.id < a.id :=
  (orderly_of_run h hok chat data hc hd).sorted

theorem newest_first_scrolled : ∃ tr c chat data, program.Run start tr c ∧ c.store.chats[0]? = some chat ∧
    chat.data = some data ∧ data.length = 12 ∧ (∀ st ∈ tr, st.Meets (InOrder 0)) ∧
    data.Pairwise fun a b => b.id < a.id := by
  obtain ⟨tr, c, h, hq⟩ := program.exists_run_of_replay
    (Sample.loaded 11 ++ Sample.scrolled 4 ++ Sample.write 0 ++ Sample.deliver 12 0) (c := start)
    (q := fun tr c => c.store.chats == [Sample.alpha ((List.range' 1 12).reverse.map Sample.message) none false] &&
      tr.all fun st => decide (st.Meets (InOrder 0))) (by decide +kernel)
  simp only [Bool.and_eq_true, beq_iff_eq, List.all_eq_true, decide_eq_true_eq] at hq
  have hc : c.store.chats[0]? = some _ := congrArg (fun chats => chats[0]?) hq.1
  exact ⟨tr, c, _, _, h, hc, rfl, rfl, hq.2, newest_first h hq.2 hc rfl⟩

/-! ### In sync -/

/-- A chat that has read to the end, and was brought everything else once it had loaded,
shows the messages of its project, each once. -/
theorem in_sync (h : program.Run start tr c) (hok : ∀ st ∈ tr, st.Meets (OnTime i))
    (hc : c.store.chats[i]? = some chat) (hd : chat.data = some data) (hend : chat.nextCursor = none)
    {project : ℕ} (hslug : ∀ project', .bound chat.slug project' ∈ c.store.log → project' = project)
    (hpurged : .purged project ∉ c.store.log)
    (hcame : ∀ r ∈ c.store.conversations, r.projectId = project →
      .came i r.id ∈ c.store.log ∨ ∀ n, .read i project none n ∈ c.store.log → r.id ≤ n)
    (hgone : ∀ id, .deleting id ∈ c.store.log → (∀ r ∈ c.store.conversations, r.id ≠ id) ∧ ¬ Here c.store.log i id) :
    (data.map (·.id)).Perm ((c.store.conversations.filter (·.projectId == project)).map (·.id)) := by
  have hI := (inv_of_run h).1.1
  obtain ⟨htidy, hhere⟩ := neat_of_run h hok chat data hc hd
  have hrows : ((c.store.conversations.filter (·.projectId == project)).map (·.id)).Nodup :=
    hI.tables.ids.sublist (List.filter_sublist.map _)
  refine (List.perm_ext_iff_of_nodup htidy.nodup hrows).mpr fun id => ⟨fun hid => ?_, fun hid => ?_⟩
  · obtain ⟨m, hm, rfl⟩ := List.mem_map.mp hid
    obtain ⟨row, hrow, hid, -, -, hb⟩ := (loaded_of_run h hc hd).known m hm
    have hproject := hslug row.projectId hb
    rcases hI.tables.kept row hrow with ⟨r, hr, ha⟩ | hdeleting | hp
    · have hmem : r ∈ c.store.conversations.filter (·.projectId == project) :=
        List.mem_filter.mpr ⟨hr, beq_iff_eq.mpr ((projectId_of_anonymous ha).trans hproject)⟩
      rw [← hid, ← id_of_anonymous ha]
      exact List.mem_map_of_mem hmem
    · rw [hid] at hdeleting
      exact absurd (hhere m hm) (hgone m.id hdeleting).2
    · rw [hproject] at hp
      exact absurd hp hpurged
  · obtain ⟨r, hr, rfl⟩ := List.mem_map.mp hid
    obtain ⟨hr, hproject⟩ := List.mem_filter.mp hr
    have hproject := beq_iff_eq.mp hproject
    have hread : ∀ project' cursor n, .read i project' cursor n ∈ c.store.log → project' = project := by
      intro project' cursor n hx
      obtain ⟨chat', hc', hb⟩ := hI.chats.read i project' cursor n hx
      cases hc.symm.trans hc'
      exact hslug project' hb
    have hcomplete := (loaded_of_run h hc hd).complete project hread r hr hproject (by simp [hend])
    rcases hcomplete with ⟨m, hm, hid⟩ | hdeleting | ⟨⟨n, hn, hlt⟩, hno⟩
    · exact List.mem_map.mpr ⟨m, hm, hid⟩
    · exact absurd rfl ((hgone r.id hdeleting).1 r hr)
    · rcases hcame r hr hproject with hx | hle
      · exact absurd hx hno
      · exact absurd (hle n hn) (Nat.not_le.mpr hlt)

namespace Sample

/-- The message of the event is gone, and the chat has been told. -/
def settled (s : Store) : Event → Bool
  | .deleting id => s.conversations.all (·.id != id) && !decide (Here s.log 0 id)
  | _ => true

end Sample

/-- Of two messages, one has come by its event, and the other has been deleted. -/
theorem in_sync_deleted : ∃ tr c chat data, program.Run start tr c ∧ c.store.chats[0]? = some chat ∧
    chat.data = some data ∧ c.store.lastId = 2 ∧ data = [Sample.message 2] ∧
    (data.map (·.id)).Perm ((c.store.conversations.filter (·.projectId == 1)).map (·.id)) := by
  obtain ⟨tr, c, h, hq⟩ := program.exists_run_of_replay
    (Sample.loaded 1 ++ Sample.write 0 ++ Sample.deliver 2 0 ++ Sample.destroy 1 ++ Sample.tell 1) (c := start)
    (q := fun tr c => c.store.chats == [Sample.alpha [Sample.message 2] none false] && c.store.lastId == 2 &&
      c.store.log.all Sample.first && c.store.log.all (Sample.settled c.store) &&
      (c.store.conversations.all fun r => c.store.log.contains (.came 0 r.id)) &&
      tr.all fun st => decide (st.Meets (OnTime 0))) (by decide +kernel)
  simp only [Bool.and_eq_true, beq_iff_eq, List.all_eq_true, decide_eq_true_eq, List.contains_iff_mem] at hq
  obtain ⟨⟨⟨⟨⟨hchats, hlast⟩, hfirst⟩, hsettled⟩, hcame⟩, hok⟩ := hq
  have hc : c.store.chats[0]? = some _ := congrArg (fun chats => chats[0]?) hchats
  refine ⟨tr, c, _, _, h, hc, rfl, hlast, rfl, in_sync h hok hc rfl rfl ?_ ?_ ?_ ?_⟩
  · exact fun project hx => beq_iff_eq.mp (hfirst _ hx)
  · exact fun hx => absurd (hfirst _ hx) Bool.false_ne_true
  · exact fun r hr _ => .inl (hcame r hr)
  · intro id hx
    have hgone := hsettled _ hx
    simpa [Sample.settled] using hgone

end Chat
end Daywright
