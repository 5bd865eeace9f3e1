/-
# What is known of a chat

A chat that has loaded shows what was stored, what it has read behind what it has heard,
and it accounts for the rows of its project down to its cursor: a row is shown, its
deletion is under way, or it was stored after the first page was read and no event has
brought it since the chat has loaded (`Complete`); what comes before that page is lost. A
chat that has not loaded has no cursor (`Waiting`). A chat has one request under way at most
(`loads`), so that nothing else moves the cursor a page was asked for with.

Key definitions: `Complete`, `Loaded`, `Waiting`, `Chats`, `Progress`, `loads`.
Key theorems: `Chats.effect`, `Effect.asks`, `outline`, `inv_of_run`.
-/
import Daywright.Conversations.Outline

namespace Daywright
namespace Chat

open Interleave Table UseChatMessages UseRealtimeChat

variable {s s' : Store} {p q : Point} {e : Input} {k : Option Point} {i : ℕ} {c c' : Chat}
  {data data' : List ConversationResource} {low low' : Option ℕ}

/-! ### What a chat accounts for -/

/-- The message is shown, its deletion is under way, or it was stored after the first page
was read and has not come to the chat that has loaded. -/
def Accounted (log : List Event) (i project : ℕ) (data : List ConversationResource) (id : ℕ) : Prop :=
  (∃ m ∈ data, m.id = id) ∨ .deleting id ∈ log ∨
    (∃ n, .read i project none n ∈ log ∧ n < id) ∧ .came i id ∉ log

/-- If the chat has read one project only. -/
def Complete (s : Store) (i : ℕ) (low : Option ℕ) (data : List ConversationResource) : Prop :=
  ∀ project, (∀ project' cursor n, .read i project' cursor n ∈ s.log → project' = project) →
    ∀ r ∈ s.conversations, r.projectId = project → (∀ k ∈ low, k ≤ r.id) → Accounted s.log i project data r.id

structure Loaded (s : Store) (i : ℕ) (c : Chat) (data : List ConversationResource) : Prop where
  known : ∀ m ∈ data, Known s.log c.slug m
  layered : Feed.Layered (·.id) c.nextCursor data
  bounded : ∀ k ∈ c.nextCursor, k ≤ s.lastId
  begun : ∃ project n, .read i project none n ∈ s.log ∧ n ≤ s.lastId
  complete : Complete s i c.nextCursor data

structure Waiting (s : Store) (i : ℕ) (c : Chat) : Prop where
  nextCursor : c.nextCursor = none
  loadingMore : c.loadingMore = false
  came : ∀ id, .came i id ∉ s.log

def Sound (s : Store) (i : ℕ) (c : Chat) : Prop :=
  match c.data with
  | none => Waiting s i c
  | some data => Loaded s i c data

theorem Sound.waiting (h : Sound s i c) (hd : c.data = none) : Waiting s i c := by
  unfold Sound at h
  rwa [hd] at h

theorem Sound.loaded (h : Sound s i c) (hd : c.data = some data) : Loaded s i c data := by
  unfold Sound at h
  rwa [hd] at h

theorem Waiting.sound (h : Waiting s i c) (hd : c.data = none) : Sound s i c := by
  unfold Sound
  rwa [hd]

theorem Loaded.sound (h : Loaded s i c data) (hd : c.data = some data) : Sound s i c := by
  unfold Sound
  rwa [hd]

/-- What is known of the chats, and of the array they share. -/
structure Chats (s : Store) : Prop where
  sound : ∀ i c, s.chats[i]? = some c → Sound s i c
  came : ∀ i id, .came i id ∈ s.log → i < s.chats.length ∧ id ≤ s.lastId
  read : ∀ i project cursor n, .read i project cursor n ∈ s.log →
    ∃ c, s.chats[i]? = some c ∧ .bound c.slug project ∈ s.log
  shared : Feed.Tidy (·.id) none s.empty

/-- A step may bring a message to the list, and take one out whose deletion is under way. -/
theorem Complete.effect (hC : Complete s i low data) (h : Effect s p e s')
    (hbegun : ∃ project n, .read i project none n ∈ s.log ∧ n ≤ s.lastId)
    (hcame : ∀ id, .came i id ∈ s.log → id ≤ s.lastId)
    (hnew : ∀ id, .came i id ∈ s'.log → .came i id ∈ s.log ∨ ∃ m ∈ data', m.id = id)
    (hdata : ∀ m ∈ data, (∃ m' ∈ data', m'.id = m.id) ∨ .deleting m.id ∈ s'.log) : Complete s' i low data' := by
  intro project hreads r' hr' hproject hlow
  have hreads : ∀ project' cursor n, .read i project' cursor n ∈ s.log → project' = project :=
    fun project' cursor n hx => hreads project' cursor n (h.mem_log hx)
  -- Whatever has not come to the chat since the first page is accounted for.
  have missing {n id : ℕ} (hread : .read i project none n ∈ s.log) (hn : n < id) (hold : .came i id ∉ s.log) :
      Accounted s'.log i project data' id := by
    by_cases hc : .came i id ∈ s'.log
    · exact .inl ((hnew id hc).resolve_left hold)
    · exact .inr (.inr ⟨⟨n, h.mem_log hread, hn⟩, hc⟩)
  rcases h.of_mem_rows hr' with ⟨r, hr, ha⟩ | ⟨-, hid⟩
  · rw [id_of_anonymous ha] at hlow ⊢
    rcases hC project hreads r hr ((projectId_of_anonymous ha).symm.trans hproject) hlow with
      ⟨m, hm, hid⟩ | hd | ⟨⟨n, hread, hn⟩, hc⟩
    · rw [← hid]
      exact (hdata m hm).imp_right .inl
    · exact .inr (.inl (h.mem_log hd))
    · exact missing hread hn hc
  · obtain ⟨project', n, hread, hn⟩ := hbegun
    have heq := hreads project' none n hread
    have hnew : s.lastId < r'.id := by omega
    refine missing (heq ▸ hread) (hn.trans_lt hnew) fun hc => ?_
    exact absurd (hcame _ hc) (Nat.not_le.mpr hnew)

/-- Behind a page that was asked for with the cursor, the next cursor takes its place. -/
theorem Complete.lower (hC : Complete s i low data) {slug : String} {page : Feed.Page ConversationResource ℕ}
    {project n : ℕ} (hR : ReadAs s i slug low page project n) (hpage : ∀ m ∈ page.data, m ∈ data) :
    Complete s i page.nextCursor data := by
  intro project' hreads r hr hproject hlow
  by_cases hold : ∀ k ∈ low, k ≤ r.id
  · exact hC project' hreads r hr hproject hold
  · obtain ⟨k, hold⟩ := not_forall.mp hold
    obtain ⟨hk, hlt⟩ := Classical.not_imp.mp hold
    have hlt := Nat.lt_of_not_le hlt
    have heq := hreads project low n hR.read
    have hle := hR.cursor_le k hk
    have hbelow : ∀ k' ∈ low, r.id < k' := fun k' hk' => by
      rw [Option.mem_unique hk' hk]
      exact hlt
    obtain ⟨m, hm, hid⟩ := hR.complete r hr (hproject.trans heq.symm) (by omega) hbelow hlow
    exact .inl ⟨m, hpage m hm, hid⟩

/-- What the first page accounts for. -/
theorem ReadAs.first {slug : String} {page : Feed.Page ConversationResource ℕ} {project n : ℕ}
    (hR : ReadAs s i slug none page project n) (hcame : ∀ id, .came i id ∈ s.log → ∃ m ∈ page.data, m.id = id) :
    Complete s i page.nextCursor page.data := by
  intro project' hreads r hr hproject hlow
  have heq := hreads project none n hR.read
  by_cases hn : r.id ≤ n
  · exact .inl (hR.complete r hr (hproject.trans heq.symm) hn (by simp) hlow)
  · by_cases hc : .came i r.id ∈ s.log
    · exact .inl (hcame _ hc)
    · exact .inr (.inr ⟨⟨n, heq ▸ hR.read, by omega⟩, hc⟩)

/-! ### Requests -/

/-- The chat is waiting for the page. -/
def Asks (c : Chat) : Option ℕ → Prop
  | none => c.data = none
  | some cursor => c.data ≠ none ∧ c.nextCursor = some cursor ∧ c.loadingMore = true

/-- What a process knows. -/
def Progress (s : Store) : Point → Prop
  | .prepareConversationData project slug _ _ | .createConversation project slug _ _ => .bound slug project ∈ s.log
  | .dispatchNewMessage conversation slug => Announced s.log slug conversation
  | .delete row => .deleting row.id ∈ s.log
  | .index i cursor | .rejected i cursor => ∃ c, s.chats[i]? = some c ∧ Asks c cursor
  | .getProjectConversations i project cursor =>
    ∃ c, s.chats[i]? = some c ∧ Asks c cursor ∧ .bound c.slug project ∈ s.log
  | .resolved i cursor page =>
    ∃ c, s.chats[i]? = some c ∧ Asks c cursor ∧ ∃ project n, ReadAs s i c.slug cursor page project n
  | _ => True

/-- The chat whose request the process is. -/
def loads : Point → Option ℕ
  | .index i _ | .getProjectConversations i _ _ | .resolved i _ _ | .rejected i _ => some i
  | _ => none

theorem Asks.cursor (h : Asks c low) (hS : Sound s i c) : c.nextCursor = low := by
  cases low with
  | none => exact (hS.waiting h).nextCursor
  | some cursor => exact h.2.1

/-- A chat that asks has no other reason to ask. -/
theorem Asks.not_free (h : Asks c low) (hS : Sound s i c) (hloading : c.loadingMore = false) : c.nextCursor = none := by
  cases low with
  | none => exact (hS.waiting h).nextCursor
  | some cursor => exact absurd (hloading.symm.trans h.2.2) Bool.false_ne_true

/-- The list changes in place. -/
theorem Asks.mutate (h : Asks c low) (hd : c.data = some data) : Asks { c with data := some data' } low := by
  cases low with
  | none =>
    rw [Asks, hd] at h
    cases h
  | some cursor => exact ⟨Option.some_ne_none _, h.2⟩

/-! ### A step -/

/-- The list of a chat that has loaded changes in place. -/
theorem Loaded.mutate (hL : Loaded s i c data) (h : Effect s p e s')
    (hcame : ∀ id, .came i id ∈ s.log → id ≤ s.lastId) (hslug : c'.slug = c.slug)
    (hcursor : c'.nextCursor = c.nextCursor)
    (hnew : ∀ id, .came i id ∈ s'.log → .came i id ∈ s.log ∨ ∃ m ∈ data', m.id = id)
    (hdata : ∀ m ∈ data, (∃ m' ∈ data', m'.id = m.id) ∨ .deleting m.id ∈ s'.log)
    (hknown : ∀ m ∈ data', m ∈ data ∨ Known s'.log c.slug m) (hlayered : Feed.Layered (·.id) c.nextCursor data') :
    Loaded s' i c' data' := by
  obtain ⟨project, n, hread, hn⟩ := hL.begun
  refine ⟨fun m hm => ?_, hcursor ▸ hlayered, fun k hk => (hL.bounded k (hcursor ▸ hk)).trans h.lastId_le,
    ⟨project, n, h.mem_log hread, hn.trans h.lastId_le⟩, ?_⟩
  · rw [hslug]
    rcases hknown m hm with hm | hm
    · exact (hL.known m hm).mono fun _ hx => h.mem_log hx
    · exact hm
  · rw [hcursor]
    exact hL.complete.effect h hL.begun hcame hnew hdata

theorem get_set {j : ℕ} (h : (s.chats.set j c')[i]? = some c) :
    i = j ∧ c = c' ∨ i ≠ j ∧ s.chats[i]? = some c := by
  by_cases hij : j = i
  · subst hij
    rw [List.getElem?_set_self'] at h
    obtain ⟨_, -, h⟩ := Option.map_eq_some_iff.mp h
    exact .inl ⟨rfl, h.symm⟩
  · rw [List.getElem?_set_ne hij] at h
    exact .inr ⟨Ne.symm hij, h⟩

/-- What a step does to the list of a chat that has loaded by then. -/
inductive Turns (s : Store) (p : Point) (s' : Store) (i : ℕ) (c' : Chat) (data' : List ConversationResource) : Prop
  | kept (c : Chat) (new : List Event) : s.chats[i]? = some c → c.data = some data' → c'.slug = c.slug →
      c'.nextCursor = c.nextCursor → s'.log = s.log ++ new → (∀ id, .came i id ∉ new ∧ .went i id ∉ new) →
      Turns s p s' i c' data'
  | first (c : Chat) (page : Feed.Page ConversationResource ℕ) : p = .resolved i none page → s.chats[i]? = some c →
      c' = loadConversations.resolved page c → data' = page.data →
      s'.log = s.log ++ page.data.map (fun m => .came i m.id) → Turns s p s' i c' data'
  | more (c : Chat) (cursor : ℕ) (page : Feed.Page ConversationResource ℕ) : p = .resolved i (some cursor) page →
      s.chats[i]? = some c → c'.slug = c.slug → c'.nextCursor = page.nextCursor →
      data' = shown s.empty c ++ page.data → s'.log = s.log ++ page.data.map (fun m => .came i m.id) →
      Turns s p s' i c' data'
  | heard (c : Chat) (m : ConversationResource) (data : List ConversationResource) : p = .newMessage i m →
      s.chats[i]? = some c → c.data = some data → .newMessage c.slug m ∈ s.broadcasts → c'.slug = c.slug →
      c'.nextCursor = c.nextCursor → data' = listenForNewMessage m data → s'.log = s.log ++ [.came i m.id] →
      Turns s p s' i c' data'
  | told (c : Chat) (id : ℕ) (data : List ConversationResource) : p = .deleteConversation i id →
      s.chats[i]? = some c → c.data = some data → .deleteConversation c.slug id ∈ s.broadcasts → c'.slug = c.slug →
      c'.nextCursor = c.nextCursor → data' = listenToDeleteConversation id data → s'.log = s.log ++ [.went i id] →
      Turns s p s' i c' data'

theorem Effect.turns (h : Effect s p e s') (hc' : s'.chats[i]? = some c') (hd' : c'.data = some data') :
    Turns s p s' i c' data' := by
  have kept {c : Chat} {new : List Event} (hc : s.chats[i]? = some c) (hd : c.data = some data')
      (hs : c'.slug = c.slug) (hcursor : c'.nextCursor = c.nextCursor) (hlog : s'.log = s.log ++ new)
      (hnew : ∀ id, .came i id ∉ new ∧ .went i id ∉ new) : Turns s p s' i c' data' :=
    .kept c new hc hd hs hcursor hlog hnew
  have silent {c : Chat} (hc : s.chats[i]? = some c) (hd : c.data = some data') (hs : c'.slug = c.slug)
      (hcursor : c'.nextCursor = c.nextCursor) (hlog : s'.log = s.log) : Turns s p s' i c' data' :=
    .kept c [] hc hd hs hcursor (by rw [hlog, List.append_nil]) (by simp)
  cases h with
  | idle | queued | deleted | erased | sent | heardEarly | toldEarly => exact silent hc' hd' rfl rfl rfl
  | bound | uploaded | stored | deleting | read => exact kept hc' hd' rfl rfl rfl (by simp)
  | opened slug =>
    rw [List.getElem?_append] at hc'
    split at hc'
    · exact silent hc' hd' rfl rfl rfl
    · rw [List.getElem?_singleton] at hc'
      split at hc' <;> cases hc'
      cases hd'
  | loaded j c page hq hc =>
    rcases get_set hc' with ⟨rfl, rfl⟩ | ⟨hne, hc'⟩
    · exact .first c page hq hc rfl (Option.some.inj hd').symm rfl
    · exact kept hc' hd' rfl rfl rfl (by simp [Ne.symm hne])
  | loadedMore j c cursor page hq hc =>
    rcases get_set hc' with ⟨rfl, rfl⟩ | ⟨hne, hc'⟩
    · exact .more c cursor page hq hc rfl rfl (Option.some.inj hd').symm rfl
    · exact kept hc' hd' rfl rfl rfl (by simp [Ne.symm hne])
  | failed j c hq hc =>
    rcases get_set hc' with ⟨rfl, rfl⟩ | ⟨hne, hc'⟩
    · cases hd'
    · exact silent hc' hd' rfl rfl rfl
  | failedMore j c cursor hq hc =>
    rcases get_set hc' with ⟨rfl, rfl⟩ | ⟨hne, hc'⟩
    · exact silent hc hd' rfl rfl rfl
    · exact silent hc' hd' rfl rfl rfl
  | asked j c cursor hq hc =>
    rcases get_set hc' with ⟨rfl, rfl⟩ | ⟨hne, hc'⟩
    · exact silent hc hd' rfl rfl rfl
    · exact silent hc' hd' rfl rfl rfl
  | closed j c hq hc =>
    rcases get_set hc' with ⟨rfl, rfl⟩ | ⟨hne, hc'⟩
    · exact silent hc hd' rfl rfl rfl
    · exact silent hc' hd' rfl rfl rfl
  | heard j c m data hq hc hb hd =>
    rcases get_set hc' with ⟨rfl, rfl⟩ | ⟨hne, hc'⟩
    · exact .heard c m data hq hc hd hb rfl rfl (Option.some.inj hd').symm rfl
    · exact kept hc' hd' rfl rfl rfl (by simp [hne])
  | told j c id data hq hc hb hd =>
    rcases get_set hc' with ⟨rfl, rfl⟩ | ⟨hne, hc'⟩
    · exact .told c id data hq hc hd hb rfl rfl (Option.some.inj hd').symm rfl
    · exact kept hc' hd' rfl rfl rfl (by simp [hne])
  | other w hq =>
    cases w with
    | setProject | deleteUser => exact silent hc' hd' rfl rfl rfl
    | deleteProject project => exact kept hc' hd' rfl rfl rfl (by simp)

/-- A chat that has loaded accounts for what it has to after the step, too. -/
theorem Turns.loaded (hQ : Queue s) (hI : Chats s) (hp : Progress s p) (h : Effect s p e s')
    (ht : Turns s p s' i c' data') : Loaded s' i c' data' := by
  have hcame (id : ℕ) (hx : .came i id ∈ s.log) : id ≤ s.lastId := (hI.came i id hx).2
  cases ht with
  | kept c new hc hd hslug hcursor hlog hnew =>
    have hL := (hI.sound i c hc).loaded hd
    refine hL.mutate h hcame hslug hcursor (fun id hx => .inl ?_) (fun m hm => .inl ⟨m, hm, rfl⟩)
      (fun m hm => .inl hm) hL.layered
    rw [hlog] at hx
    exact (List.mem_append.mp hx).resolve_right (hnew id).1
  | first c page hq hc hc' hdata hlog =>
    subst hq hc' hdata
    obtain ⟨c₀, hc₀, hA, project, n, hR⟩ := hp
    cases hc.symm.trans hc₀
    have hW := (hI.sound i c hc).waiting hA
    have hR := hR.effect h
    have hC : Complete s' i page.nextCursor page.data := by
      refine hR.first fun id hx => ?_
      rw [hlog] at hx
      obtain ⟨m, hm, hx⟩ := List.mem_map.mp ((List.mem_append.mp hx).resolve_left (hW.came id))
      cases hx
      exact ⟨m, hm, rfl⟩
    exact ⟨hR.known, .first hR.sorted hR.low, fun k hk => (hR.next k hk).1.trans hR.le,
      ⟨project, n, hR.read, hR.le⟩, hC⟩
  | more c cursor page hq hc hslug hnext hdata hlog =>
    subst hq
    obtain ⟨c₀, hc₀, ⟨hd, hcursor, -⟩, project, n, hR⟩ := hp
    cases hc.symm.trans hc₀
    obtain ⟨data, hd⟩ := Option.ne_none_iff_exists'.mp hd
    rw [shown, hd, Option.getD_some] at hdata
    subst hdata
    have hL := (hI.sound i c hc).loaded hd
    have hR := hR.effect h
    have hC : Complete s' i (some cursor) (data ++ page.data) := by
      refine (hcursor ▸ hL.complete).effect h hL.begun hcame (fun id hx => ?_)
        fun m hm => .inl ⟨m, List.mem_append_left _ hm, rfl⟩
      rw [hlog] at hx
      rcases List.mem_append.mp hx with hx | hx
      · exact .inl hx
      · obtain ⟨m, hm, hx⟩ := List.mem_map.mp hx
        cases hx
        exact .inr ⟨m, List.mem_append_right _ hm, rfl⟩
    have hlayered : Feed.Layered (·.id) page.nextCursor (data ++ page.data) := by
      have hlow := hL.layered
      rw [hcursor] at hlow
      exact hlow.more hR.sorted (fun m hm => hR.below m hm cursor rfl) hR.low fun k hk => (hR.next k hk).2 cursor rfl
    have hknown : ∀ m ∈ data ++ page.data, Known s'.log c.slug m := by
      intro m hm
      rcases List.mem_append.mp hm with hm | hm
      · exact (hL.known m hm).mono fun _ hx => h.mem_log hx
      · exact hR.known m hm
    obtain ⟨project', n', hread, hn⟩ := hL.begun
    rw [← hslug] at hknown
    rw [← hnext] at hlayered
    refine ⟨hknown, hlayered, fun k hk => (hR.next k (hnext ▸ hk)).1.trans hR.le,
      ⟨project', n', h.mem_log hread, hn.trans h.lastId_le⟩, ?_⟩
    rw [hnext]
    exact hC.lower hR fun m hm => List.mem_append_right _ hm
  | heard c m data hq hc hd hb hslug hcursor hdata hlog =>
    subst hdata
    have hL := (hI.sound i c hc).loaded hd
    have hknown := (hQ.heard _ _ hb).mono fun _ hx => h.mem_log hx
    refine hL.mutate h hcame hslug hcursor (fun id hx => ?_) (fun m' hm => .inl ⟨m', Feed.mem_push hm, rfl⟩)
      (fun m' hm => ?_) (hL.layered.push m)
    · rw [hlog] at hx
      refine (List.mem_append.mp hx).imp_right fun hx => ?_
      cases List.mem_singleton.mp hx
      exact Feed.exists_mem_push m data
    · refine (Feed.of_mem_push hm).imp_right fun he => ?_
      rw [he]
      exact hknown
  | told c id data hq hc hd hb hslug hcursor hdata hlog =>
    subst hdata
    have hL := (hI.sound i c hc).loaded hd
    refine hL.mutate h hcame hslug hcursor (fun id' hx => .inl ?_) (fun m hm => ?_)
      (fun m hm => .inl (Feed.of_mem_remove hm)) (hL.layered.remove id)
    · rw [hlog] at hx
      exact (List.mem_append.mp hx).resolve_right (by simp)
    · by_cases hid : m.id = id
      · right
        rw [hid]
        exact h.mem_log (hQ.told _ _ hb)
      · exact .inl ⟨m, Feed.mem_remove hm hid, rfl⟩

/-- A chat that has not loaded has just been created, or was waiting before. -/
theorem Effect.waiting (hI : Chats s) (hp : Progress s p) (h : Effect s p e s') (hc' : s'.chats[i]? = some c')
    (hd' : c'.data = none) : Waiting s' i c' := by
  have kept {c : Chat} {new : List Event} (hc : s.chats[i]? = some c) (hd : c.data = none)
      (hcursor : c'.nextCursor = c.nextCursor) (hloading : c.loadingMore = false → c'.loadingMore = false)
      (hlog : s'.log = s.log ++ new) (hnew : ∀ id, .came i id ∉ new) : Waiting s' i c' := by
    have hW := (hI.sound i c hc).waiting hd
    refine ⟨hcursor.trans hW.nextCursor, hloading hW.loadingMore, fun id hx => ?_⟩
    rw [hlog] at hx
    exact (List.mem_append.mp hx).elim (hW.came id) (hnew id)
  have silent {c : Chat} (hc : s.chats[i]? = some c) (hd : c.data = none) (hcursor : c'.nextCursor = c.nextCursor)
      (hloading : c.loadingMore = false → c'.loadingMore = false) (hlog : s'.log = s.log) : Waiting s' i c' := by
    have hlog : s'.log = s.log ++ [] := by rw [hlog, List.append_nil]
    exact kept hc hd hcursor hloading hlog fun _ => List.not_mem_nil
  cases h with
  | idle | queued | deleted | erased | sent | heardEarly | toldEarly => exact silent hc' hd' rfl id rfl
  | bound | uploaded | stored | deleting | read => exact kept hc' hd' rfl id rfl (by simp)
  | opened slug =>
    rw [List.getElem?_append] at hc'
    split at hc'
    · exact silent hc' hd' rfl id rfl
    · rename_i hi
      rw [List.getElem?_singleton] at hc'
      split at hc' <;> cases hc'
      exact ⟨rfl, rfl, fun id hx => hi (hI.came i id hx).1⟩
  | loaded j c page hq hc =>
    rcases get_set hc' with ⟨rfl, rfl⟩ | ⟨hne, hc'⟩
    · cases hd'
    · exact kept hc' hd' rfl id rfl (by simp [Ne.symm hne])
  | loadedMore j c cursor page hq hc =>
    rcases get_set hc' with ⟨rfl, rfl⟩ | ⟨hne, hc'⟩
    · cases hd'
    · exact kept hc' hd' rfl id rfl (by simp [Ne.symm hne])
  | failed j c hq hc =>
    rcases get_set hc' with ⟨rfl, rfl⟩ | ⟨hne, hc'⟩
    · subst hq
      obtain ⟨c₀, hc₀, hA⟩ := hp
      cases hc.symm.trans hc₀
      have hW := (hI.sound i c hc).waiting hA
      exact ⟨rfl, hW.loadingMore, hW.came⟩
    · exact silent hc' hd' rfl id rfl
  | failedMore j c cursor hq hc =>
    rcases get_set hc' with ⟨rfl, rfl⟩ | ⟨hne, hc'⟩
    · exact silent hc hd' rfl (fun _ => rfl) rfl
    · exact silent hc' hd' rfl id rfl
  | asked j c cursor hq hc hloading hcursor =>
    rcases get_set hc' with ⟨rfl, rfl⟩ | ⟨hne, hc'⟩
    · have hnone := ((hI.sound i c hc).waiting hd').nextCursor
      rw [hnone] at hcursor
      cases hcursor
    · exact silent hc' hd' rfl id rfl
  | closed j c hq hc =>
    rcases get_set hc' with ⟨rfl, rfl⟩ | ⟨hne, hc'⟩
    · exact silent hc hd' rfl id rfl
    · exact silent hc' hd' rfl id rfl
  | heard j c m data hq hc hb hd =>
    rcases get_set hc' with ⟨rfl, rfl⟩ | ⟨hne, hc'⟩
    · cases hd'
    · exact kept hc' hd' rfl id rfl (by simp [hne])
  | told j c id data hq hc hb hd =>
    rcases get_set hc' with ⟨rfl, rfl⟩ | ⟨hne, hc'⟩
    · cases hd'
    · exact kept hc' hd' rfl (fun h => h) rfl (by simp)
  | other w hq =>
    cases w with
    | setProject | deleteUser => exact silent hc' hd' rfl id rfl
    | deleteProject project => exact kept hc' hd' rfl id rfl (by simp)

theorem Effect.sound (hQ : Queue s) (hI : Chats s) (hp : Progress s p) (h : Effect s p e s')
    (hc' : s'.chats[i]? = some c') : Sound s' i c' := by
  cases hd' : c'.data with
  | none => exact (h.waiting hI hp hc' hd').sound hd'
  | some data' => exact ((h.turns hc' hd').loaded hQ hI hp h).sound hd'

theorem Effect.length_le (h : Effect s p e s') : s.chats.length ≤ s'.chats.length := by
  cases h with
  | opened slug => exact (List.length_append ▸ Nat.le_add_right _ _)
  | loaded | loadedMore | failed | failedMore | asked | closed | heard | told =>
    exact List.length_set.ge
  | other w _ => cases w <;> exact le_rfl
  | _ => exact le_rfl

theorem Effect.slug (h : Effect s p e s') (hc : s.chats[i]? = some c) :
    ∃ c', s'.chats[i]? = some c' ∧ c'.slug = c.slug := by
  have set {j : ℕ} {c₁ c₁' : Chat} (hj : s.chats[j]? = some c₁) (hs : c₁'.slug = c₁.slug) :
      ∃ c', (s.chats.set j c₁')[i]? = some c' ∧ c'.slug = c.slug := by
    by_cases hij : j = i
    · subst hij
      cases hj.symm.trans hc
      exact ⟨c₁', List.getElem?_set_self (List.getElem?_eq_some_iff.mp hc).1, hs⟩
    · exact ⟨c, by rw [List.getElem?_set_ne hij]; exact hc, rfl⟩
  cases h with
  | opened slug =>
    exact ⟨c, by rw [List.getElem?_append_left (List.getElem?_eq_some_iff.mp hc).1]; exact hc, rfl⟩
  | loaded j c₁ page _ hj | loadedMore j c₁ cursor page _ hj | failed j c₁ _ hj | failedMore j c₁ cursor _ hj
  | asked j c₁ cursor _ hj | closed j c₁ _ hj | heard j c₁ m data _ hj | told j c₁ id data _ hj => exact set hj rfl
  | other w hq => cases w <;> exact ⟨c, hc, rfl⟩
  | idle | bound | uploaded | stored | queued | deleting | deleted | erased | sent | read | heardEarly
  | toldEarly => exact ⟨c, hc, rfl⟩

theorem Chats.effect (hT : Tables s) (hQ : Queue s) (hI : Chats s) (hp : Progress s p) (h : Effect s p e s') :
    Chats s' := by
  have bounded {slug : String} {m : ConversationResource} (hk : Known s.log slug m) : m.id ≤ s.lastId := by
    obtain ⟨row, hrow, hid, -⟩ := hk
    exact hid ▸ hT.stored row hrow
  have index {i : ℕ} {c : Chat} (hc : s.chats[i]? = some c) : i < s'.chats.length :=
    (List.getElem?_eq_some_iff.mp hc).1.trans_le h.length_le
  constructor
  case sound => exact fun i c' hc' => h.sound hQ hI hp hc'
  case came =>
    intro i id hx
    rcases h.of_mem_log hx with hx | hx
    · obtain ⟨hi, hid⟩ := hI.came i id hx
      exact ⟨hi.trans_le h.length_le, hid.trans h.lastId_le⟩
    · cases hx with
      | loaded _ c cursor page m hq hc hm =>
        subst hq
        obtain ⟨c₀, -, -, project, n, hR⟩ := hp
        exact ⟨index hc, (bounded (hR.known m hm)).trans h.lastId_le⟩
      | heard _ c m hq hc hb => exact ⟨index hc, (bounded (hQ.heard _ _ hb)).trans h.lastId_le⟩
  case read =>
    intro i project cursor n hx
    have grow {c : Chat} (hc : s.chats[i]? = some c) (hb : .bound c.slug project ∈ s.log) :
        ∃ c, s'.chats[i]? = some c ∧ .bound c.slug project ∈ s'.log := by
      obtain ⟨c', hc', hs⟩ := h.slug hc
      exact ⟨c', hc', hs ▸ h.mem_log hb⟩
    rcases h.of_mem_log hx with hx | hx
    · obtain ⟨c, hc, hb⟩ := hI.read i project cursor n hx
      exact grow hc hb
    · cases hx with
      | read _ _ _ hq =>
        subst hq
        obtain ⟨c, hc, -, hb⟩ := hp
        exact grow hc hb
  case shared =>
    cases h with
    | heardEarly j c m => exact hI.shared.push (by simp)
    | toldEarly j c id => exact hI.shared.remove id
    | other w _ => cases w <;> exact hI.shared
    | _ => exact hI.shared

/-- A chat goes on waiting for its page, whatever the others do. -/
theorem Effect.asks (hI : Chats s) (h : Effect s p e s') (hc : s.chats[i]? = some c) (hA : Asks c low)
    (hne : loads p ≠ some i) : ∃ c', s'.chats[i]? = some c' ∧ c'.slug = c.slug ∧ Asks c' low := by
  have set {j : ℕ} {c₁ c₁' : Chat} (hj : s.chats[j]? = some c₁) (hs : c₁'.slug = c₁.slug)
      (hA' : j = i → Asks c₁ low → Asks c₁' low) :
      ∃ c', (s.chats.set j c₁')[i]? = some c' ∧ c'.slug = c.slug ∧ Asks c' low := by
    by_cases hij : j = i
    · subst hij
      cases hj.symm.trans hc
      exact ⟨c₁', List.getElem?_set_self (List.getElem?_eq_some_iff.mp hc).1, hs, hA' rfl hA⟩
    · exact ⟨c, by rw [List.getElem?_set_ne hij]; exact hc, rfl, hA⟩
  have other {j : ℕ} (hj : loads p = some j) (hij : j = i) : False := hne (hij ▸ hj)
  cases h with
  | opened slug =>
    exact ⟨c, by rw [List.getElem?_append_left (List.getElem?_eq_some_iff.mp hc).1]; exact hc, rfl, hA⟩
  | loaded j c₁ page hq hj => exact set hj rfl fun hij => (other (hq ▸ rfl) hij).elim
  | loadedMore j c₁ cursor page hq hj => exact set hj rfl fun hij => (other (hq ▸ rfl) hij).elim
  | failed j c₁ hq hj => exact set hj rfl fun hij => (other (hq ▸ rfl) hij).elim
  | failedMore j c₁ cursor hq hj => exact set hj rfl fun hij => (other (hq ▸ rfl) hij).elim
  | asked j c₁ cursor hq hj hloading hcursor =>
    refine set hj rfl fun hij hA => ?_
    rw [hA.not_free (hI.sound j c₁ hj) hloading] at hcursor
    cases hcursor
  | closed j c₁ hq hj => exact set hj rfl fun _ hA => by cases low <;> exact hA
  | heard j c₁ m data hq hj hb hd => exact set hj rfl fun _ hA => hA.mutate hd
  | told j c₁ id data hq hj hb hd => exact set hj rfl fun _ hA => hA.mutate hd
  | other w hq => cases w <;> exact ⟨c, hc, rfl, hA⟩
  | idle | bound | uploaded | stored | queued | deleting | deleted | erased | sent | read | heardEarly
  | toldEarly => exact ⟨c, hc, rfl, hA⟩

/-- The two processes are not requests of one chat. -/
def Alone (p q : Point) : Prop := ∀ i, loads p = some i → loads q ≠ some i

theorem Progress.frame (hI : Chats s) (h : Effect s p e s') (hpq : Alone p q) (hq : Progress s q) :
    Progress s' q := by
  have hlog : ∀ x ∈ s.log, x ∈ s'.log := fun _ hx => h.mem_log hx
  have alone {i : ℕ} (hi : loads q = some i) : loads p ≠ some i := fun hj => hpq i hj hi
  cases q with
  | prepareConversationData | createConversation | delete => exact hlog _ hq
  | dispatchNewMessage => exact hq.mono hlog
  | index i cursor | rejected i cursor =>
    obtain ⟨c, hc, hA⟩ := hq
    obtain ⟨c', hc', -, hA'⟩ := h.asks hI hc hA (alone rfl)
    exact ⟨c', hc', hA'⟩
  | getProjectConversations i project cursor =>
    obtain ⟨c, hc, hA, hb⟩ := hq
    obtain ⟨c', hc', hs, hA'⟩ := h.asks hI hc hA (alone rfl)
    exact ⟨c', hc', hA', hs ▸ hlog _ hb⟩
  | resolved i cursor page =>
    obtain ⟨c, hc, hA, project, n, hR⟩ := hq
    obtain ⟨c', hc', hs, hA'⟩ := h.asks hI hc hA (alone rfl)
    exact ⟨c', hc', hA', project, n, hs ▸ hR.effect h⟩
  | _ => trivial

/-! ### Runs -/

structure Inv (s : Store) : Prop where
  tables : Tables s
  queue : Queue s
  chats : Chats s

theorem Progress.deleting (hp : Progress s p) : Deleting s p := by
  rintro row rfl
  exact hp

theorem Inv.effect (hI : Inv s) (hp : Progress s p) (h : Effect s p e s') : Inv s' := by
  refine ⟨hI.tables.effect hp.deleting h, hI.queue.effect hI.tables (fun id slug hq => ?_) h,
    hI.chats.effect hI.tables hI.queue hp h⟩
  subst hq
  exact hp

/-- The cursor of a request is an id of the table. -/
theorem Asks.cursor_le (hA : Asks c low) (hS : Sound s i c) : ∀ k ∈ low, k ≤ s.lastId := by
  intro k hk
  have hcursor := hA.cursor hS
  cases hd : c.data with
  | none =>
    rw [(hS.waiting hd).nextCursor] at hcursor
    rw [← hcursor] at hk
    cases hk
  | some data => exact (hS.loaded hd).bounded k (hcursor ▸ hk)

/-- A step leads to where its process knows what it has to. -/
theorem Progress.next (hI : Inv s) (hp : Progress s p) (h : Effect s p e s') (hq : Continues s p e s' q) :
    Progress s' q := by
  have hlog : ∀ x ∈ s.log, x ∈ s'.log := fun _ hx => h.mem_log hx
  cases hq with
  | prepare slug project actor message file payload _ hb => exact hb
  | uploaded project slug actor payload file path hq _ _ _ =>
    subst hq
    exact hlog _ hp
  | plain project slug actor payload hq _ _ =>
    subst hq
    exact hlog _ hp
  | announce project slug actor data row hq hrow hstored =>
    subst hq hrow
    exact ⟨_, hstored, rfl, hlog _ hp⟩
  | dispatch | erase | again => trivial
  | delete row slug _ hd => exact hd
  | load slug _ hchats => exact ⟨setup slug, by simp [hchats], rfl⟩
  | read i project cursor c hq hc hchats hb =>
    subst hq
    obtain ⟨c', hc', hA⟩ := hp
    cases hc.symm.trans hc'
    exact ⟨c, by rwa [hchats], hA, hb⟩
  | refuse i cursor hq hchats =>
    rcases hq with rfl | ⟨project, rfl⟩
    · obtain ⟨c, hc, hA⟩ := hp
      exact ⟨c, by rwa [hchats], hA⟩
    · obtain ⟨c, hc, hA, -⟩ := hp
      exact ⟨c, by rwa [hchats], hA⟩
  | respond i project cursor hq hs =>
    subst hq hs
    obtain ⟨c, hc, hA, hb⟩ := hp
    have hcursor := hA.cursor_le (hI.chats.sound i c hc)
    exact ⟨c, hc, hA, project, s.lastId, hI.tables.readAs hb hcursor e.users e.temporaryUrl⟩
  | loadMore i c cursor _ hc _ hcursor hs =>
    subst hs
    have hd : c.data ≠ none := by
      intro hd
      rw [((hI.chats.sound i c hc).waiting hd).nextCursor] at hcursor
      cases hcursor
    refine ⟨{ c with loadingMore := true }, ?_, hd, hcursor, rfl⟩
    exact List.getElem?_set_self (List.getElem?_eq_some_iff.mp hc).1

theorem loads_of_entry (h : p.entry = true) : loads p = none := by
  cases p <;> first | rfl | cases h

theorem Progress.asking (hp : Progress s p) (hi : loads p = some i) : ∃ c low, s.chats[i]? = some c ∧ Asks c low := by
  cases p with
  | index j cursor | rejected j cursor =>
    cases hi
    obtain ⟨c, hc, hA⟩ := hp
    exact ⟨c, cursor, hc, hA⟩
  | getProjectConversations j project cursor | resolved j cursor page =>
    cases hi
    obtain ⟨c, hc, hA, -⟩ := hp
    exact ⟨c, cursor, hc, hA⟩
  | _ => cases hi

/-- A request is one step of a request, or a chat's that has just been created or has reason to ask. -/
theorem Continues.loads (hq : Continues s p e s' q) (hi : loads q = some i) : loads p = some i ∨
    i = s.chats.length ∨ ∃ c cursor, s.chats[i]? = some c ∧ c.loadingMore = false ∧ c.nextCursor = some cursor := by
  cases hq with
  | load slug _ _ =>
    cases hi
    exact .inr (.inl rfl)
  | read j project cursor c hq =>
    subst hq
    exact .inl hi
  | refuse j cursor hq =>
    left
    rcases hq with rfl | ⟨project, rfl⟩ <;> exact hi
  | respond j project cursor hq =>
    subst hq
    exact .inl hi
  | loadMore j c cursor _ hc hloading hcursor _ =>
    cases hi
    exact .inr (.inr ⟨c, cursor, hc, hloading, hcursor⟩)
  | _ => cases hi

theorem outline : ApartOutline program Inv Progress Alone where
  symm p q h i hq hp := h i hp hq
  entry s p _ hp := by
    cases p <;> trivial
  arrive s p q _ hp _ := by
    intro i hi
    rw [loads_of_entry hp] at hi
    cases hi
  move s p e s' k hI hp h := by
    obtain ⟨rfl, rfl⟩ := moved h
    exact ⟨hI.effect hp act_effect, fun q hq => hp.next hI act_effect (act_continues hq)⟩
  goOn s p e s' p' q hI hp hq hpq h := by
    obtain ⟨-, hp'⟩ := moved h
    intro i hi hqi
    obtain ⟨c, low, hc, hA⟩ := hq.asking hqi
    rcases (act_continues hp'.symm).loads hi with hpi | hlen | ⟨c', cursor, hc', hloading, hcursor⟩
    · exact hpq i hpi hqi
    · have hlt := (List.getElem?_eq_some_iff.mp hc).1
      omega
    · cases hc.symm.trans hc'
      rw [hA.not_free (hI.chats.sound i c hc) hloading] at hcursor
      cases hcursor
  frame s p e s' k q hI hp hq hpq h := by
    obtain ⟨rfl, -⟩ := moved h
    exact hq.frame hI.chats act_effect hpq

theorem start_holds : Holds Inv Progress start := by
  have none {α : Type} {x : α} {P : Prop} (h : x ∈ ([] : List α)) : P := absurd h List.not_mem_nil
  have hT : Tables start.store := ⟨List.nodup_nil, fun _ => none, fun _ _ => none, fun _ => none, fun _ => none⟩
  have hQ : Queue start.store := ⟨fun _ _ => none, fun _ _ => none, fun _ _ => none, fun _ _ => none⟩
  have hC : Chats start.store :=
    ⟨by simp [start], fun _ _ => none, fun _ _ _ _ => none, List.nodup_nil, fun _ => none⟩
  exact ⟨⟨hT, hQ, hC⟩, fun _ => none⟩

theorem inv_of_run {tr : List (Step Store Point Input)} {c : Config Store Point} (h : program.Run start tr c) :
    Holds Inv Progress c ∧ Apart Alone c.procs := outline.run start_holds Apart.nil h

end Chat
end Daywright
