/-
# What every step of the chat does to the tables and the queue

`Effect` says once what a step can do to the tables, the queue, the chats and the log. From
it follows what the tables and the queue have to do with what was stored (`Tables`,
`Queue`), and what a page says that was read for a chat, however much later it comes in
(`ReadAs`).

Key definitions: `Effect`, `Notes`, `Tables`, `Queue`, `Known`, `ReadAs`.
Key theorems: `act_effect`, `Effect.notes`, `Tables.effect`, `Queue.effect`, `Tables.readAs`.
-/
import Daywright.Conversations.Chat

namespace Daywright
namespace Chat

open Interleave Table UseChatMessages UseRealtimeChat

variable {s s' : Store} {p q : Point} {e : Input} {k : Option Point}

/-! ### The effect of a step -/

/-- What a worker makes of the queue and the tables. -/
inductive Sends (s : Store) (e : Input) : Broadcast → Prop
  | newMessage (slug : String) (row : ConversationRow) : .newMessage row.id slug ∈ s.jobs → row ∈ s.conversations →
      Sends s e (.newMessage slug (ConversationResource.toArray e.users e.temporaryUrl row))
  | deleteConversation (slug : String) (id : ℕ) : .deleteConversation id slug ∈ s.jobs →
      Sends s e (.deleteConversation slug id)

inductive Effect (s : Store) (p : Point) (e : Input) : Store → Prop
  | idle : Effect s p e s
  | bound (slug : String) (project : ℕ) : s.projects slug = some project →
      Effect s p e (s.note [.bound slug project])
  | uploaded (project : ℕ) (slug : String) (actor : ℕ) (payload : CreateConversationData) (file : UploadedFile)
      (path : String) : p = .prepareConversationData project slug actor payload →
      payload.file = some (.uploaded file) → FileService.store project file e.hashName = some path →
      Effect s p e (Store.note [.uploaded path] { s with files := s.files ++ [path] })
  | stored (project : ℕ) (slug : String) (actor : ℕ) (data : CreateConversationData) (row : ConversationRow) :
      p = .createConversation project slug actor data →
      row = ConversationService.createConversation (s.lastId + 1) project actor e.now data →
      Effect s p e
        (Store.note [.stored row] { s with conversations := s.conversations ++ [row], lastId := s.lastId + 1 })
  | queued (conversation : ℕ) (slug : String) : p = .dispatchNewMessage conversation slug →
      Effect s p e { s with jobs := s.jobs ++ [.newMessage conversation slug] }
  | deleting (row : ConversationRow) (slug : String) : p = .dispatchDeleteConversation row slug →
      Effect s p e (Store.note [.deleting row.id] { s with jobs := s.jobs ++ [.deleteConversation row.id slug] })
  | deleted (row : ConversationRow) : p = .delete row →
      Effect s p e { s with conversations := s.conversations.filter (·.id != row.id) }
  | erased (file : Option String) (deferred : Bool) : p = .deleteFileIfExists file deferred →
      Effect s p e { s with files := s.files.filter (· != Conversation.resolveStoragePath e.urlPath file) }
  | sent (b : Broadcast) : Sends s e b → Effect s p e { s with broadcasts := s.broadcasts ++ [b] }
  | opened (slug : String) : p = .created slug → Effect s p e { s with chats := s.chats ++ [setup slug] }
  | read (i project : ℕ) (cursor : Option ℕ) : p = .getProjectConversations i project cursor →
      Effect s p e (s.note [.read i project cursor s.lastId])
  | loaded (i : ℕ) (c : Chat) (page : Feed.Page ConversationResource ℕ) : p = .resolved i none page →
      s.chats[i]? = some c →
      Effect s p e ((s.setChat i (loadConversations.resolved page c)).note (page.data.map fun m => .came i m.id))
  | loadedMore (i : ℕ) (c : Chat) (cursor : ℕ) (page : Feed.Page ConversationResource ℕ) :
      p = .resolved i (some cursor) page → s.chats[i]? = some c →
      Effect s p e
        ((s.setChat i (loadMoreConversations.resolved s.empty page c)).note (page.data.map fun m => .came i m.id))
  | failed (i : ℕ) (c : Chat) : p = .rejected i none → s.chats[i]? = some c →
      Effect s p e (s.setChat i (loadConversations.rejected c))
  | failedMore (i : ℕ) (c : Chat) (cursor : ℕ) : p = .rejected i (some cursor) → s.chats[i]? = some c →
      Effect s p e (s.setChat i (loadMoreConversations.rejected c))
  | asked (i : ℕ) (c : Chat) (cursor : ℕ) : p = .intersecting i → s.chats[i]? = some c → c.loadingMore = false →
      c.nextCursor = some cursor → Effect s p e (s.setChat i { c with loadingMore := true })
  | closed (i : ℕ) (c : Chat) : p = .beforeDestroy i → s.chats[i]? = some c →
      Effect s p e (s.setChat i (disconnectScrollObserver c))
  | heard (i : ℕ) (c : Chat) (m : ConversationResource) (data : List ConversationResource) : p = .newMessage i m →
      s.chats[i]? = some c → .newMessage c.slug m ∈ s.broadcasts → c.data = some data →
      Effect s p e ((s.setChat i { c with data := some (listenForNewMessage m data) }).note [.came i m.id])
  | heardEarly (i : ℕ) (c : Chat) (m : ConversationResource) : p = .newMessage i m → s.chats[i]? = some c →
      c.data = none → Effect s p e { s with empty := listenForNewMessage m s.empty }
  | told (i : ℕ) (c : Chat) (id : ℕ) (data : List ConversationResource) : p = .deleteConversation i id →
      s.chats[i]? = some c → .deleteConversation c.slug id ∈ s.broadcasts → c.data = some data →
      Effect s p e ((s.setChat i { c with data := some (listenToDeleteConversation id data) }).note [.went i id])
  | toldEarly (i : ℕ) (c : Chat) (id : ℕ) : p = .deleteConversation i id → s.chats[i]? = some c →
      c.data = none → Effect s p e { s with empty := listenToDeleteConversation id s.empty }
  | other (w : Write) : p = .other w → Effect s p e (w.apply s)

theorem setChat_self {i : ℕ} {c : Chat} (h : s.chats[i]? = some c) : s.setChat i c = s := by
  obtain ⟨hi, rfl⟩ := List.getElem?_eq_some_iff.mp h
  rw [Store.setChat, List.set_getElem_self]

theorem note_nil : s.note [] = s := by rw [Store.note, List.append_nil]

theorem act_effect : Effect s p e (act s p e).1 := by
  cases p with
  | storeConversation slug actor message file =>
    simp only [act]
    split
    · rename_i project payload hp hd
      exact .bound slug project hp
    · exact .idle
  | prepareConversationData project slug actor payload =>
    simp only [act]
    split
    · rename_i file hf
      split
      · exact .idle
      · rename_i path hpath
        dsimp only
        split
        · exact .uploaded project slug actor payload file path rfl hf hpath
        · exact .idle
    · exact .idle
  | createConversation project slug actor data =>
    simp only [act]
    split
    · exact .stored project slug actor data _ rfl rfl
    · exact .idle
  | dispatchNewMessage conversation slug =>
    simp only [act]
    split
    · exact .queued conversation slug rfl
    · exact .idle
  | destroy slug conversation actor =>
    simp only [act]
    split
    · exact .idle
    · split <;> exact .idle
  | dispatchDeleteConversation row slug =>
    simp only [act]
    split
    · exact .deleting row slug rfl
    · exact .idle
  | delete row =>
    simp only [act]
    split
    · exact .deleted row rfl
    · exact .idle
  | deleteFileIfExists file deferred =>
    simp only [act]
    split
    · exact .erased file deferred rfl
    · exact .idle
  | broadcast job =>
    simp only [act]
    split
    · rename_i hj
      cases job with
      | newMessage conversation slug =>
        dsimp only
        split
        · exact .idle
        · rename_i row hrow
          have hid : row.id = conversation := by simpa using List.find?_some hrow
          exact .sent _ (.newMessage slug row (hid ▸ hj.1) (List.mem_of_find?_eq_some hrow))
      | deleteConversation id slug => exact .sent _ (.deleteConversation slug id hj.1)
    · exact .idle
  | created slug => exact .opened slug rfl
  | index i cursor =>
    simp only [act]
    split
    · exact .idle
    · rename_i slug project h
      obtain ⟨c, -, h⟩ := Option.bind_eq_some_iff.mp h
      obtain ⟨project', hp, h⟩ := Option.map_eq_some_iff.mp h
      cases h
      exact .bound _ _ hp
  | getProjectConversations i project cursor => exact .read i project cursor rfl
  | resolved i cursor page =>
    simp only [act]
    split
    · exact .idle
    · rename_i c hc
      cases cursor with
      | none => exact .loaded i c page rfl hc
      | some cursor => exact .loadedMore i c cursor page rfl hc
  | rejected i cursor =>
    simp only [act]
    split
    · exact .idle
    · rename_i c hc
      cases cursor with
      | none => exact .failed i c rfl hc
      | some cursor => exact .failedMore i c cursor rfl hc
  | intersecting i =>
    simp only [act]
    split
    · exact .idle
    · rename_i c hc
      unfold UseChatMessages.intersecting
      split
      · rename_i h
        simp only [Bool.and_eq_true, Bool.not_eq_true'] at h
        split
        · rw [setChat_self hc]
          exact .idle
        · rename_i cursor hcursor
          exact .asked i c cursor rfl hc h.2 hcursor
      · rw [setChat_self hc]
        exact .idle
  | beforeDestroy i =>
    simp only [act]
    split
    · exact .idle
    · rename_i c hc
      exact .closed i c rfl hc
  | newMessage i m =>
    simp only [act]
    split
    · exact .idle
    · rename_i c hc
      split
      · rename_i hb
        unfold Store.mutate
        cases hd : c.data with
        | none =>
          rw [Option.isSome_none, if_neg Bool.false_ne_true, note_nil]
          exact .heardEarly i c m rfl hc hd
        | some data => exact .heard i c m data rfl hc hb hd
      · exact .idle
  | deleteConversation i id =>
    simp only [act]
    split
    · exact .idle
    · rename_i c hc
      split
      · rename_i hb
        unfold Store.mutate
        cases hd : c.data with
        | none =>
          rw [Option.isSome_none, if_neg Bool.false_ne_true, note_nil]
          exact .toldEarly i c id rfl hc hd
        | some data => exact .told i c id data rfl hc hb hd
      · exact .idle
  | other w => exact .other w rfl

theorem andThen_some {r : Point} (h : e.andThen r = some q) : e.done = true ∧ q = r := by
  unfold Input.andThen at h
  split at h
  · rename_i he
    cases h
    exact ⟨((Bool.and_eq_true _ _).mp he).1, rfl⟩
  · cases h

/-- Where a step leads. -/
inductive Continues (s : Store) (p : Point) (e : Input) (s' : Store) : Point → Prop
  | prepare (slug : String) (project actor : ℕ) (message : Option String) (file : Option UploadedFile)
      (payload : CreateConversationData) :
      CreateConversationData.fromArray message (file.map .uploaded) = some payload →
      .bound slug project ∈ s'.log → Continues s p e s' (.prepareConversationData project slug actor payload)
  | uploaded (project : ℕ) (slug : String) (actor : ℕ) (payload : CreateConversationData) (file : UploadedFile)
      (path : String) : p = .prepareConversationData project slug actor payload →
      payload.file = some (.uploaded file) → FileService.store project file e.hashName = some path →
      s' = Store.note [.uploaded path] { s with files := s.files ++ [path] } →
      Continues s p e s' (.createConversation project slug actor (payload.withStoredFile path))
  | plain (project : ℕ) (slug : String) (actor : ℕ) (payload : CreateConversationData) :
      p = .prepareConversationData project slug actor payload → (∀ file, payload.file ≠ some (.uploaded file)) →
      s' = s → Continues s p e s' (.createConversation project slug actor payload)
  | announce (project : ℕ) (slug : String) (actor : ℕ) (data : CreateConversationData) (row : ConversationRow) :
      p = .createConversation project slug actor data →
      row = ConversationService.createConversation (s.lastId + 1) project actor e.now data → .stored row ∈ s'.log →
      Continues s p e s' (.dispatchNewMessage row.id slug)
  | dispatch (row : ConversationRow) (slug : String) : row ∈ s.conversations →
      Continues s p e s' (.dispatchDeleteConversation row slug)
  | delete (row : ConversationRow) (slug : String) : p = .dispatchDeleteConversation row slug →
      .deleting row.id ∈ s'.log → Continues s p e s' (.delete row)
  | erase (row : ConversationRow) : p = .delete row → s'.conversations = s.conversations.filter (·.id != row.id) →
      Continues s p e s' (.deleteFileIfExists row.file true)
  | again (file : Option String) : p = .deleteFileIfExists file true →
      Continues s p e s' (.deleteFileIfExists file false)
  | load (slug : String) : p = .created slug → s'.chats = s.chats ++ [UseChatMessages.setup slug] →
      Continues s p e s' (.index s.chats.length none)
  | read (i project : ℕ) (cursor : Option ℕ) (c : Chat) : p = .index i cursor → s.chats[i]? = some c →
      s'.chats = s.chats → .bound c.slug project ∈ s'.log →
      Continues s p e s' (.getProjectConversations i project cursor)
  | refuse (i : ℕ) (cursor : Option ℕ) :
      (p = .index i cursor ∨ ∃ project, p = .getProjectConversations i project cursor) →
      s'.chats = s.chats → Continues s p e s' (.rejected i cursor)
  | respond (i project : ℕ) (cursor : Option ℕ) : p = .getProjectConversations i project cursor →
      s' = s.note [.read i project cursor s.lastId] →
      Continues s p e s' (.resolved i cursor (ConversationController.index e.users e.temporaryUrl
        (ConversationRepository.getProjectConversations project ConversationIndexRequest.perPage cursor
          s.conversations)))
  | loadMore (i : ℕ) (c : Chat) (cursor : ℕ) : p = .intersecting i → s.chats[i]? = some c → c.loadingMore = false →
      c.nextCursor = some cursor → s' = s.setChat i { c with loadingMore := true } →
      Continues s p e s' (.index i (some cursor))

theorem act_continues (hq : (act s p e).2 = some q) : Continues s p e (act s p e).1 q := by
  cases p with
  | storeConversation slug actor message file =>
    simp only [act] at hq ⊢
    split at hq
    · rename_i project payload _ hd
      obtain ⟨-, rfl⟩ := andThen_some hq
      exact .prepare slug project actor message file payload hd
        (List.mem_append_right _ (List.mem_singleton_self _))
    · cases hq
  | prepareConversationData project slug actor payload =>
    simp only [act] at hq ⊢
    split at hq
    · rename_i file hf
      split at hq
      · cases hq
      · rename_i path hpath
        obtain ⟨hdone, rfl⟩ := andThen_some hq
        rw [if_pos hdone]
        exact .uploaded project slug actor payload file path rfl hf hpath rfl
    · rename_i hf
      cases hq
      exact .plain project slug actor payload rfl hf rfl
  | createConversation project slug actor data =>
    simp only [act] at hq ⊢
    obtain ⟨hdone, rfl⟩ := andThen_some hq
    rw [if_pos hdone]
    exact .announce project slug actor data _ rfl rfl (List.mem_append_right _ (List.mem_singleton_self _))
  | destroy slug conversation actor =>
    simp only [act] at hq ⊢
    split at hq
    · cases hq
    · split at hq
      · cases hq
      · rename_i row hrow
        simp only at hq
        split at hq
        · obtain ⟨-, rfl⟩ := andThen_some hq
          exact .dispatch row slug (List.mem_of_find?_eq_some hrow)
        · cases hq
  | dispatchDeleteConversation row slug =>
    simp only [act] at hq ⊢
    obtain ⟨hdone, rfl⟩ := andThen_some hq
    rw [if_pos hdone]
    exact .delete row slug rfl (List.mem_append_right _ (List.mem_singleton_self _))
  | delete row =>
    simp only [act] at hq ⊢
    obtain ⟨hdone, rfl⟩ := andThen_some hq
    rw [if_pos hdone]
    exact .erase row rfl rfl
  | deleteFileIfExists file deferred =>
    simp only [act] at hq
    split at hq
    · rename_i hd
      subst hd
      cases hq
      exact .again file rfl
    · cases hq
  | created slug =>
    cases hq
    exact .load slug rfl rfl
  | index i cursor =>
    simp only [act] at hq ⊢
    split at hq
    · cases hq
      exact .refuse i cursor (.inl rfl) rfl
    · rename_i slug project h
      obtain ⟨c, hc, h⟩ := Option.bind_eq_some_iff.mp h
      obtain ⟨project', -, h⟩ := Option.map_eq_some_iff.mp h
      cases h
      cases hq
      split
      · exact .read i _ cursor c rfl hc rfl (List.mem_append_right _ (List.mem_singleton_self _))
      · exact .refuse i cursor (.inl rfl) rfl
  | getProjectConversations i project cursor =>
    simp only [act] at hq ⊢
    cases hq
    split
    · exact .respond i project cursor rfl rfl
    · exact .refuse i cursor (.inr ⟨project, rfl⟩) rfl
  | intersecting i =>
    simp only [act] at hq ⊢
    split at hq
    · cases hq
    · rename_i c hc
      obtain ⟨cursor, hcursor, rfl⟩ := Option.map_eq_some_iff.mp hq
      unfold UseChatMessages.intersecting at hcursor ⊢
      split at hcursor
      · rename_i hobserver
        rw [if_pos hobserver]
        simp only [Bool.and_eq_true, Bool.not_eq_true'] at hobserver
        split at hcursor
        · cases hcursor
        · rename_i k hk
          cases hcursor
          simp only [hk]
          exact .loadMore i c cursor rfl hc hobserver.2 hk (by rw [hk])
      · cases hcursor
  | broadcast job =>
    simp only [act] at hq
    split at hq
    · cases job with
      | newMessage =>
        dsimp only at hq
        split at hq <;> cases hq
      | deleteConversation => cases hq
    · cases hq
  | resolved i cursor page | rejected i cursor | beforeDestroy i =>
    simp only [act] at hq
    split at hq <;> cases hq
  | newMessage i m | deleteConversation i id =>
    simp only [act] at hq
    split at hq
    · cases hq
    · split at hq <;> cases hq
  | dispatchNewMessage | other => cases hq

theorem moved (h : program.move s p e = some (s', k)) : s' = (act s p e).1 ∧ k = (act s p e).2 := by
  have h : act s p e = (s', k) := Option.some.inj h
  rw [h]
  exact ⟨rfl, rfl⟩

/-- What a step notes. -/
inductive Notes (s : Store) (p : Point) (e : Input) (s' : Store) : Event → Prop
  | bound (slug : String) (project : ℕ) : s.projects slug = some project → Notes s p e s' (.bound slug project)
  | uploaded (project : ℕ) (slug : String) (actor : ℕ) (payload : CreateConversationData) (file : UploadedFile)
      (path : String) : p = .prepareConversationData project slug actor payload →
      FileService.store project file e.hashName = some path → Notes s p e s' (.uploaded path)
  | stored (project : ℕ) (slug : String) (actor : ℕ) (data : CreateConversationData) (row : ConversationRow) :
      p = .createConversation project slug actor data →
      row = ConversationService.createConversation (s.lastId + 1) project actor e.now data →
      s'.lastId = s.lastId + 1 → row ∈ s'.conversations → Notes s p e s' (.stored row)
  | deleting (row : ConversationRow) (slug : String) : p = .dispatchDeleteConversation row slug →
      Notes s p e s' (.deleting row.id)
  | purged (project : ℕ) : p = .other (.deleteProject project) → Notes s p e s' (.purged project)
  | read (i project : ℕ) (cursor : Option ℕ) : p = .getProjectConversations i project cursor →
      Notes s p e s' (.read i project cursor s.lastId)
  | loaded (i : ℕ) (c : Chat) (cursor : Option ℕ) (page : Feed.Page ConversationResource ℕ)
      (m : ConversationResource) : p = .resolved i cursor page → s.chats[i]? = some c → m ∈ page.data →
      Notes s p e s' (.came i m.id)
  | heard (i : ℕ) (c : Chat) (m : ConversationResource) : p = .newMessage i m → s.chats[i]? = some c →
      .newMessage c.slug m ∈ s.broadcasts → Notes s p e s' (.came i m.id)
  | told (i : ℕ) (c : Chat) (id : ℕ) : p = .deleteConversation i id → s.chats[i]? = some c →
      .deleteConversation c.slug id ∈ s.broadcasts → Notes s p e s' (.went i id)

theorem Effect.notes (h : Effect s p e s') : ∃ new, s'.log = s.log ++ new ∧ ∀ x ∈ new, Notes s p e s' x := by
  have silent {s₁ : Store} (hs : s₁.log = s.log) : ∃ new, s₁.log = s.log ++ new ∧ ∀ x ∈ new, Notes s p e s₁ x :=
    ⟨[], by rw [hs, List.append_nil], fun x hx => absurd hx List.not_mem_nil⟩
  have one {s₁ : Store} {x : Event} (hs : s₁.log = s.log ++ [x]) (hx : Notes s p e s₁ x) :
      ∃ new, s₁.log = s.log ++ new ∧ ∀ x ∈ new, Notes s p e s₁ x :=
    ⟨[x], hs, fun y hy => List.mem_singleton.mp hy ▸ hx⟩
  cases h with
  | bound slug project hp => exact one rfl (.bound slug project hp)
  | uploaded project slug actor payload file path hp _ hpath =>
    exact one rfl (.uploaded project slug actor payload file path hp hpath)
  | stored project slug actor data row hp hrow =>
    exact one rfl (.stored project slug actor data row hp hrow rfl
      (List.mem_append_right _ (List.mem_singleton_self row)))
  | deleting row slug hp => exact one rfl (.deleting row slug hp)
  | read i project cursor hp => exact one rfl (.read i project cursor hp)
  | loaded i c page hp hc =>
    refine ⟨_, rfl, fun x hx => ?_⟩
    obtain ⟨m, hm, rfl⟩ := List.mem_map.mp hx
    exact .loaded i c none page m hp hc hm
  | loadedMore i c cursor page hp hc =>
    refine ⟨_, rfl, fun x hx => ?_⟩
    obtain ⟨m, hm, rfl⟩ := List.mem_map.mp hx
    exact .loaded i c (some cursor) page m hp hc hm
  | heard i c m data hp hc hb _ => exact one rfl (.heard i c m hp hc hb)
  | told i c id data hp hc hb _ => exact one rfl (.told i c id hp hc hb)
  | other w hp =>
    cases w with
    | deleteProject project => exact one rfl (.purged project hp)
    | setProject | deleteUser => exact silent rfl
  | idle | queued | deleted | erased | sent | opened | failed | failedMore | asked | closed | heardEarly
  | toldEarly => exact silent rfl

theorem Effect.mem_log (h : Effect s p e s') {x : Event} (hx : x ∈ s.log) : x ∈ s'.log := by
  obtain ⟨new, hnew, -⟩ := h.notes
  rw [hnew]
  exact List.mem_append_left _ hx

theorem Effect.of_mem_log (h : Effect s p e s') {x : Event} (hx : x ∈ s'.log) : x ∈ s.log ∨ Notes s p e s' x := by
  obtain ⟨new, hnew, hall⟩ := h.notes
  rw [hnew] at hx
  exact (List.mem_append.mp hx).imp_right (hall x)

/-! ### The tables -/

/-- A row without its author, who may be deleted. -/
def anonymous (r : ConversationRow) : ConversationRow := { r with userId := none }

theorem id_of_anonymous {r r' : ConversationRow} (h : anonymous r = anonymous r') : r.id = r'.id := by
  have h := congrArg ConversationRow.id h
  exact h

theorem projectId_of_anonymous {r r' : ConversationRow} (h : anonymous r = anonymous r') :
    r.projectId = r'.projectId := by
  have h := congrArg ConversationRow.projectId h
  exact h

theorem file_of_anonymous {r r' : ConversationRow} (h : anonymous r = anonymous r') : r.file = r'.file := by
  have h := congrArg ConversationRow.file h
  exact h

/-- A row was there, or has just been stored. -/
theorem Effect.of_mem_rows (h : Effect s p e s') {r' : ConversationRow} (hr : r' ∈ s'.conversations) :
    (∃ r ∈ s.conversations, anonymous r' = anonymous r) ∨ .stored r' ∈ s'.log ∧ r'.id = s.lastId + 1 := by
  have kept (hr : r' ∈ s.conversations) : (∃ r ∈ s.conversations, anonymous r' = anonymous r) ∨
      .stored r' ∈ s'.log ∧ r'.id = s.lastId + 1 := .inl ⟨r', hr, rfl⟩
  cases h with
  | stored project slug actor data row hp hrow =>
    rcases List.mem_append.mp hr with hr | hr
    · exact kept hr
    · rw [List.mem_singleton.mp hr]
      exact .inr ⟨List.mem_append_right _ (List.mem_singleton_self _), by rw [hrow]; rfl⟩
  | deleted row hp => exact kept (List.mem_filter.mp hr).1
  | other w hp =>
    cases w with
    | setProject => exact kept hr
    | deleteProject project => exact kept (List.mem_filter.mp hr).1
    | deleteUser user =>
      obtain ⟨r, hmem, rfl⟩ := mem_updateWhere.mp hr
      refine .inl ⟨r, hmem, ?_⟩
      split <;> rfl
  | idle | bound | uploaded | queued | deleting | erased | sent | opened | read | loaded | loadedMore | failed
  | failedMore | asked | closed | heard | heardEarly | told | toldEarly => exact kept hr

/-- A row stays, unless it is deleted, or its project. -/
theorem Effect.rows (h : Effect s p e s') {r : ConversationRow} (hr : r ∈ s.conversations) :
    (∃ r' ∈ s'.conversations, anonymous r' = anonymous r) ∨ (∃ row, p = .delete row ∧ row.id = r.id) ∨
      .purged r.projectId ∈ s'.log := by
  have kept (hr : r ∈ s'.conversations) : (∃ r' ∈ s'.conversations, anonymous r' = anonymous r) ∨
      (∃ row, p = .delete row ∧ row.id = r.id) ∨ .purged r.projectId ∈ s'.log := .inl ⟨r, hr, rfl⟩
  cases h with
  | stored => exact kept (List.mem_append_left _ hr)
  | deleted row hp =>
    by_cases hid : row.id = r.id
    · exact .inr (.inl ⟨row, hp, hid⟩)
    · exact kept (List.mem_filter.mpr ⟨hr, bne_iff_ne.mpr (Ne.symm hid)⟩)
  | other w hp =>
    cases w with
    | setProject => exact kept hr
    | deleteProject project =>
      by_cases hproject : r.projectId = project
      · exact .inr (.inr (List.mem_append_right _ (hproject ▸ List.mem_singleton_self _)))
      · exact kept (List.mem_filter.mpr ⟨hr, bne_iff_ne.mpr hproject⟩)
    | deleteUser user =>
      refine .inl ⟨_, mem_updateWhere.mpr ⟨r, hr, rfl⟩, ?_⟩
      split <;> rfl
  | idle | bound | uploaded | queued | deleting | erased | sent | opened | read | loaded | loadedMore | failed
  | failedMore | asked | closed | heard | heardEarly | told | toldEarly => exact kept hr

theorem Effect.lastId_le (h : Effect s p e s') : s.lastId ≤ s'.lastId := by
  cases h with
  | stored => exact Nat.le_succ _
  | other w _ => cases w <;> exact le_rfl
  | _ => exact le_rfl

/-- What the table has to do with what was stored. -/
structure Tables (s : Store) : Prop where
  ids : (s.conversations.map (·.id)).Nodup
  stored : ∀ row, .stored row ∈ s.log → row.id ≤ s.lastId
  unique : ∀ row row', .stored row ∈ s.log → .stored row' ∈ s.log → row.id = row'.id → row = row'
  rows : ∀ r ∈ s.conversations, ∃ row, .stored row ∈ s.log ∧ anonymous r = anonymous row
  kept : ∀ row, .stored row ∈ s.log → (∃ r ∈ s.conversations, anonymous r = anonymous row) ∨
    .deleting row.id ∈ s.log ∨ .purged row.projectId ∈ s.log

theorem Tables.bounded (hT : Tables s) {r : ConversationRow} (hr : r ∈ s.conversations) : r.id ≤ s.lastId := by
  obtain ⟨row, hrow, ha⟩ := hT.rows r hr
  rw [id_of_anonymous ha]
  exact hT.stored row hrow

/-- The row that was stored under an id. -/
theorem Tables.row_of_id (hT : Tables s) {r row : ConversationRow} (hr : r ∈ s.conversations)
    (hrow : .stored row ∈ s.log) (hid : r.id = row.id) : anonymous r = anonymous row := by
  obtain ⟨row', hrow', ha⟩ := hT.rows r hr
  have heq : row' = row := hT.unique row' row hrow' hrow ((id_of_anonymous ha).symm.trans hid)
  rw [ha, heq]

/-- The step to delete a row follows its event. -/
def Deleting (s : Store) (p : Point) : Prop := ∀ row, p = .delete row → .deleting row.id ∈ s.log

theorem Effect.ids (hT : Tables s) (h : Effect s p e s') : (s'.conversations.map (·.id)).Nodup := by
  cases h with
  | stored project slug actor data row hp hrow =>
    rw [Store.note, List.map_append, List.map_singleton]
    refine List.nodup_append.mpr ⟨hT.ids, List.nodup_singleton _, fun a ha b hb hab => ?_⟩
    obtain ⟨r, hr, rfl⟩ := List.mem_map.mp ha
    have hle := hT.bounded hr
    have hid : row.id = s.lastId + 1 := by rw [hrow]; rfl
    have hb := List.mem_singleton.mp hb
    omega
  | deleted row hp => exact hT.ids.sublist (List.filter_sublist.map _)
  | other w hp =>
    cases w with
    | setProject => exact hT.ids
    | deleteProject project => exact hT.ids.sublist (List.filter_sublist.map _)
    | deleteUser user =>
      have hmap : (updateWhere (·.userId == some user) ({ · with userId := none }) s.conversations).map (·.id) =
          s.conversations.map (·.id) := map_updateWhere fun _ => rfl
      exact hmap.symm ▸ hT.ids
  | idle | bound | uploaded | queued | deleting | erased | sent | opened | read | loaded | loadedMore | failed
  | failedMore | asked | closed | heard | heardEarly | told | toldEarly => exact hT.ids

theorem Tables.effect (hT : Tables s) (hp : Deleting s p) (h : Effect s p e s') : Tables s' := by
  have hlast := h.lastId_le
  have new {row : ConversationRow} (hrow : .stored row ∈ s'.log) : .stored row ∈ s.log ∨
      row.id = s.lastId + 1 ∧ s'.lastId = s.lastId + 1 ∧ row ∈ s'.conversations := by
    rcases h.of_mem_log hrow with hrow | hrow
    · exact .inl hrow
    · cases hrow with
      | stored project slug actor data _ _ hrow hl hmem => exact .inr ⟨by rw [hrow]; rfl, hl, hmem⟩
  constructor
  case ids => exact h.ids hT
  case stored =>
    intro row hrow
    rcases new hrow with hrow | ⟨hid, hl, -⟩
    · exact (hT.stored row hrow).trans hlast
    · omega
  case unique =>
    intro row row' hrow hrow' hid
    rcases h.of_mem_log hrow with ho | ho <;> rcases h.of_mem_log hrow' with ho' | ho'
    · exact hT.unique row row' ho ho' hid
    · have hle := hT.stored row ho
      cases ho' with
      | stored project slug actor data _ _ he _ _ =>
        have : row'.id = s.lastId + 1 := by rw [he]; rfl
        omega
    · have hle := hT.stored row' ho'
      cases ho with
      | stored project slug actor data _ _ he _ _ =>
        have : row.id = s.lastId + 1 := by rw [he]; rfl
        omega
    · cases ho with
      | stored project slug actor data _ hp he _ _ =>
        cases ho' with
        | stored project' slug' actor' data' _ hp' he' _ _ =>
          cases hp.symm.trans hp'
          rw [he, he']
  case rows =>
    intro r' hr'
    rcases h.of_mem_rows hr' with ⟨r, hr, ha⟩ | ⟨hrow, -⟩
    · obtain ⟨row, hrow, ha'⟩ := hT.rows r hr
      exact ⟨row, h.mem_log hrow, ha.trans ha'⟩
    · exact ⟨r', hrow, rfl⟩
  case kept =>
    intro row hrow
    rcases new hrow with hrow | ⟨-, -, hmem⟩
    · rcases hT.kept row hrow with ⟨r, hr, ha⟩ | hd | hd
      · rcases h.rows hr with ⟨r', hr', ha'⟩ | ⟨row', hp', hid⟩ | hpurged
        · exact .inl ⟨r', hr', ha'.trans ha⟩
        · right
          left
          rw [← id_of_anonymous ha, ← hid]
          exact h.mem_log (hp row' hp')
        · right
          right
          rwa [← projectId_of_anonymous ha]
      · exact .inr (.inl (h.mem_log hd))
      · exact .inr (.inr (h.mem_log hd))
    · exact .inl ⟨row, hmem, rfl⟩

/-! ### The queue -/

/-- The message was stored, and its project found under the slug. -/
def Announced (log : List Event) (slug : String) (id : ℕ) : Prop :=
  ∃ row, .stored row ∈ log ∧ row.id = id ∧ .bound slug row.projectId ∈ log

/-- What is said of a message is what was stored. -/
def Known (log : List Event) (slug : String) (m : ConversationResource) : Prop :=
  ∃ row, .stored row ∈ log ∧ row.id = m.id ∧ row.message = m.message ∧ row.createdAt = m.createdAt ∧
    .bound slug row.projectId ∈ log

theorem Announced.mono {log log' : List Event} {slug : String} {id : ℕ} (h : Announced log slug id)
    (hlog : ∀ x ∈ log, x ∈ log') : Announced log' slug id := by
  obtain ⟨row, hrow, hid, hb⟩ := h
  exact ⟨row, hlog _ hrow, hid, hlog _ hb⟩

theorem Known.mono {log log' : List Event} {slug : String} {m : ConversationResource} (h : Known log slug m)
    (hlog : ∀ x ∈ log, x ∈ log') : Known log' slug m := by
  obtain ⟨row, hrow, hid, hm, hc, hb⟩ := h
  exact ⟨row, hlog _ hrow, hid, hm, hc, hlog _ hb⟩

/-- The resource of a row that is in the table. -/
theorem Tables.known (hT : Tables s) {r : ConversationRow} (hr : r ∈ s.conversations) {slug : String}
    (hb : .bound slug r.projectId ∈ s.log) (users : ℕ → Option UserSummary) (temporaryUrl : String → Option String) :
    Known s.log slug (ConversationResource.toArray users temporaryUrl r) := by
  obtain ⟨row, hrow, ha⟩ := hT.rows r hr
  have hm := congrArg ConversationRow.message ha
  have hc := congrArg ConversationRow.createdAt ha
  refine ⟨row, hrow, (id_of_anonymous ha).symm, hm.symm, hc.symm, ?_⟩
  rwa [← projectId_of_anonymous ha]

/-- What the queued events and the broadcasts have to do with what happened. -/
structure Queue (s : Store) : Prop where
  newMessage : ∀ id slug, .newMessage id slug ∈ s.jobs → Announced s.log slug id
  deleteConversation : ∀ id slug, .deleteConversation id slug ∈ s.jobs → .deleting id ∈ s.log
  heard : ∀ slug m, .newMessage slug m ∈ s.broadcasts → Known s.log slug m
  told : ∀ slug id, .deleteConversation slug id ∈ s.broadcasts → .deleting id ∈ s.log

theorem Queue.grow (hQ : Queue s) (hlog : ∀ x ∈ s.log, x ∈ s'.log)
    (hjobs : ∀ j ∈ s'.jobs, j ∈ s.jobs ∨ (∃ id slug, j = .newMessage id slug ∧ Announced s'.log slug id) ∨
      ∃ id slug, j = .deleteConversation id slug ∧ .deleting id ∈ s'.log)
    (hcasts : ∀ b ∈ s'.broadcasts, b ∈ s.broadcasts ∨ (∃ slug m, b = .newMessage slug m ∧ Known s'.log slug m) ∨
      ∃ slug id, b = .deleteConversation slug id ∧ .deleting id ∈ s'.log) : Queue s' := by
  constructor
  case newMessage =>
    intro id slug hj
    rcases hjobs _ hj with hj | ⟨_, _, he, h⟩ | ⟨_, _, he, -⟩
    · exact (hQ.newMessage id slug hj).mono hlog
    · cases he
      exact h
    · cases he
  case deleteConversation =>
    intro id slug hj
    rcases hjobs _ hj with hj | ⟨_, _, he, -⟩ | ⟨_, _, he, h⟩
    · exact hlog _ (hQ.deleteConversation id slug hj)
    · cases he
    · cases he
      exact h
  case heard =>
    intro slug m hb
    rcases hcasts _ hb with hb | ⟨_, _, he, h⟩ | ⟨_, _, he, -⟩
    · exact (hQ.heard slug m hb).mono hlog
    · cases he
      exact h
    · cases he
  case told =>
    intro slug id hb
    rcases hcasts _ hb with hb | ⟨_, _, he, -⟩ | ⟨_, _, he, h⟩
    · exact hlog _ (hQ.told slug id hb)
    · cases he
    · cases he
      exact h

theorem Sends.known (hT : Tables s) (hQ : Queue s) {b : Broadcast} (h : Sends s e b) :
    (∃ slug m, b = .newMessage slug m ∧ Known s.log slug m) ∨
    ∃ slug id, b = .deleteConversation slug id ∧ .deleting id ∈ s.log := by
  cases h with
  | newMessage slug row hj hr =>
    obtain ⟨row', hrow', hid, hb⟩ := hQ.newMessage _ _ hj
    have ha := hT.row_of_id hr hrow' hid.symm
    rw [← projectId_of_anonymous ha] at hb
    exact .inl ⟨slug, _, rfl, hT.known hr hb e.users e.temporaryUrl⟩
  | deleteConversation slug id hj => exact .inr ⟨slug, id, rfl, hQ.deleteConversation _ _ hj⟩

theorem Queue.effect (hT : Tables s) (hQ : Queue s)
    (hp : ∀ id slug, p = .dispatchNewMessage id slug → Announced s.log slug id) (h : Effect s p e s') : Queue s' := by
  have hlog : ∀ x ∈ s.log, x ∈ s'.log := fun x hx => h.mem_log hx
  have still (hj : s'.jobs = s.jobs) (hb : s'.broadcasts = s.broadcasts) : Queue s' :=
    hQ.grow hlog (fun _ h => .inl (hj ▸ h)) fun _ h => .inl (hb ▸ h)
  cases h with
  | queued conversation slug hq =>
    refine hQ.grow hlog (fun j hj => ?_) fun _ h => .inl h
    refine (List.mem_append.mp hj).imp_right fun hj => .inl ⟨conversation, slug, List.mem_singleton.mp hj, ?_⟩
    exact hp conversation slug hq
  | deleting row slug hq =>
    refine hQ.grow hlog (fun j hj => ?_) fun _ h => .inl h
    refine (List.mem_append.mp hj).imp_right fun hj => .inr ⟨row.id, slug, List.mem_singleton.mp hj, ?_⟩
    exact List.mem_append_right _ (List.mem_singleton_self _)
  | sent b hb =>
    refine hQ.grow hlog (fun _ h => .inl h) fun b' hb' => ?_
    refine (List.mem_append.mp hb').imp_right fun hb' => ?_
    rw [List.mem_singleton.mp hb']
    exact hb.known hT hQ
  | other w hq => cases w <;> exact still rfl rfl
  | idle | bound | uploaded | stored | deleted | erased | opened | read | loaded | loadedMore | failed
  | failedMore | asked | closed | heard | heardEarly | told | toldEarly => exact still rfl rfl

/-! ### A page -/

/-- A page that was read for the chat, when `n` was the last id. -/
structure ReadAs (s : Store) (i : ℕ) (slug : String) (cursor : Option ℕ) (page : Feed.Page ConversationResource ℕ)
    (project n : ℕ) : Prop where
  read : .read i project cursor n ∈ s.log
  le : n ≤ s.lastId
  known : ∀ m ∈ page.data, Known s.log slug m
  sorted : page.data.Pairwise fun a b => b.id < a.id
  below : ∀ m ∈ page.data, ∀ k ∈ cursor, m.id < k
  low : ∀ m ∈ page.data, ∀ k ∈ page.nextCursor, k ≤ m.id
  next : ∀ k ∈ page.nextCursor, k ≤ n ∧ ∀ k' ∈ cursor, k < k'
  cursor_le : ∀ k ∈ cursor, k ≤ n
  complete : ∀ r ∈ s.conversations, r.projectId = project → r.id ≤ n → (∀ k ∈ cursor, r.id < k) →
    (∀ k ∈ page.nextCursor, k ≤ r.id) → ∃ m ∈ page.data, m.id = r.id

theorem ReadAs.effect {i : ℕ} {slug : String} {cursor : Option ℕ} {page : Feed.Page ConversationResource ℕ}
    {project n : ℕ} (hR : ReadAs s i slug cursor page project n) (h : Effect s p e s') :
    ReadAs s' i slug cursor page project n := by
  refine ⟨h.mem_log hR.read, hR.le.trans h.lastId_le, fun m hm => (hR.known m hm).mono fun _ hx => h.mem_log hx,
    hR.sorted, hR.below, hR.low, hR.next, hR.cursor_le, fun r' hr' hproject hn hcursor hlow => ?_⟩
  rcases h.of_mem_rows hr' with ⟨r, hr, ha⟩ | ⟨-, hid⟩
  · rw [id_of_anonymous ha] at hn hcursor hlow ⊢
    exact hR.complete r hr ((projectId_of_anonymous ha).symm.trans hproject) hn hcursor hlow
  · have hle := hR.le
    omega

/-- What the request for a page reads. -/
theorem Tables.readAs (hT : Tables s) {i project : ℕ} {slug : String} {cursor : Option ℕ}
    (hb : .bound slug project ∈ s.log) (hcursor : ∀ k ∈ cursor, k ≤ s.lastId) (users : ℕ → Option UserSummary)
    (temporaryUrl : String → Option String) :
    ReadAs (s.note [.read i project cursor s.lastId]) i slug cursor
      (ConversationController.index users temporaryUrl (ConversationRepository.getProjectConversations project
        ConversationIndexRequest.perPage cursor s.conversations)) project s.lastId := by
  have hnodup : ((s.conversations.filter (·.projectId == project)).map (·.id)).Nodup :=
    hT.ids.sublist (List.filter_sublist.map _)
  have hlog : ∀ x ∈ s.log, x ∈ (s.note [.read i project cursor s.lastId]).log :=
    fun _ hx => List.mem_append_left _ hx
  constructor
  case read => exact List.mem_append_right _ (List.mem_singleton_self _)
  case le => exact le_rfl
  case known =>
    intro m hm
    obtain ⟨r, hr, rfl⟩ := List.mem_map.mp hm
    obtain ⟨hr, hproject⟩ := List.mem_filter.mp (Feed.of_mem_page hr).1
    rw [← beq_iff_eq.mp hproject] at hb
    exact (hT.known hr hb users temporaryUrl).mono hlog
  case sorted => exact List.pairwise_map.mpr ((Feed.pairwise_page hnodup).imp fun h => h)
  case below =>
    intro m hm
    obtain ⟨r, hr, rfl⟩ := List.mem_map.mp hm
    exact (Feed.of_mem_page hr).2
  case low =>
    intro m hm k hk
    obtain ⟨r, hr, rfl⟩ := List.mem_map.mp hm
    have hle := Feed.nextCursor_le hnodup hk hr
    exact hle
  case next =>
    intro k hk
    obtain ⟨r, hr, rfl, hlt⟩ := Feed.nextCursor_mem hk
    exact ⟨hT.bounded (List.mem_filter.mp hr).1, hlt⟩
  case cursor_le => exact hcursor
  case complete =>
    intro r hr hproject _ hlt hlow
    have hmem : r ∈ s.conversations.filter (·.projectId == project) :=
      List.mem_filter.mpr ⟨hr, beq_iff_eq.mpr hproject⟩
    have hpage := Feed.mem_page hnodup (by decide : 0 < ConversationIndexRequest.perPage) hmem hlt hlow
    exact ⟨_, List.mem_map_of_mem hpage, rfl⟩

end Chat
end Daywright
