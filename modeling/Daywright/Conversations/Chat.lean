/-
# The chat of a project

A message is stored as a row of `conversations`, and an event goes to the queue
(`storeConversation`); a worker reads the row again and broadcasts it over the channel of the
project's slug. To delete a message, its event is queued first, then the row is deleted, and
then its file (`deleteConversation`). A queued event may be broadcast more than once, late, or
never, in any order, and so may a broadcast reach a browser.

In the browser each chat that has been opened asks for the newest page, appends the older
ones as the reader scrolls (`useChatMessages`), and listens to both channels
(`useRealtimeChat`), for as long as the page lives: closing a chat stops the scrolling only.
Until its first page has come, and after it has failed to, a chat shows the array of
`EMPTY_CURSOR_CONVERSATIONS`, which all chats share.

The projects behind the slugs, the users and the storage's links are up to the rest of
the program.

Key definitions: `ConversationService`, `ConversationRepository`, `UseChatMessages`,
`UseRealtimeChat`, `Chat.program`.
-/
import Daywright.Conversations.Mentions
import Daywright.Feed
import Daywright.Interleave
import Daywright.Table
import Daywright.Zoom

namespace Daywright

/-- A row of `conversations`. -/
structure ConversationRow where
  id : ℕ
  projectId : ℕ
  userId : Option ℕ
  message : Option String
  file : Option String
  createdAt : Time
  deriving DecidableEq, Repr

/-! ### Storing a message -/

structure UploadedFile where
  isValid : Bool
  size : ℕ
  deriving DecidableEq, Repr

/-- `UploadedFile|string`. -/
inductive Attachment where
  | uploaded (file : UploadedFile)
  | path (path : String)
  deriving DecidableEq, Repr

structure CreateConversationData where
  message : Option String
  file : Option Attachment
  deriving DecidableEq, Repr

namespace CreateConversationData

/-- `none`: it throws. -/
def fromArray (message : Option String) (file : Option Attachment) : Option CreateConversationData :=
  let normalizedMessage := message.filter (· != "")
  let normalizedFile := file.filter (· != .path "")
  if normalizedMessage.isNone && normalizedFile.isNone then none else some ⟨normalizedMessage, normalizedFile⟩

def withStoredFile (path : String) (d : CreateConversationData) : CreateConversationData :=
  { d with file := some (.path path) }

/-- The path among the attributes. -/
def storedFile (d : CreateConversationData) : Option String :=
  match d.file with
  | some (.path path) => some path
  | _ => none

end CreateConversationData

/-- `FileService::store` with `FileType::CONVERSATION`; `none`: the file is rejected. -/
def FileService.store (id : ℕ) (file : UploadedFile) (hashName : String) : Option String :=
  if !file.isValid || file.size == 0 then none
  else some ("conversations/" ++ toString id ++ "_" ++ hashName)

namespace ConversationService

/-- The row that `createConversation` inserts. -/
def createConversation (id project actor : ℕ) (now : Time) (data : CreateConversationData) : ConversationRow where
  id := id
  projectId := project
  userId := some actor
  message := data.message.map fun m => Conversation.setMessageAttribute (some m)
  file := data.storedFile
  createdAt := now

end ConversationService

/-! ### The file of a message -/

namespace Conversation

/-- `str_starts_with($file, 'http')` -/
def isUrl (file : String) : Bool := "http".toList.isPrefixOf file.toList

/-- `urlPath` is `parse_url` with `PHP_URL_PATH`. -/
def resolveStoragePath (urlPath : String → String) (filePath : Option String) : String :=
  match filePath with
  | none => ""
  | some file =>
    if file = "" ∨ file = "0" then ""
    else if isUrl file then
      let path := urlPath file
      if path = "0" then "" else String.ofList (path.toList.dropWhile (· == '/'))
    else file

/-- `getFileUrlAttribute`; a link that cannot be signed is left out. -/
def fileUrl (temporaryUrl : String → Option String) (file : Option String) : Option String :=
  let file := file.getD ""
  if file = "" then none else if isUrl file then some file else temporaryUrl file

end Conversation

structure UserSummary where
  id : ℕ
  uuid : String
  name : String
  username : Option String
  avatar : Option String
  deriving DecidableEq, Repr

/-- What the API and the channel say of a message. -/
structure ConversationResource where
  id : ℕ
  message : Option String
  file : Option String
  user : Option UserSummary
  createdAt : Time
  deriving DecidableEq, Repr

def ConversationResource.toArray (users : ℕ → Option UserSummary) (temporaryUrl : String → Option String)
    (row : ConversationRow) : ConversationResource where
  id := row.id
  message := row.message
  file := (Conversation.fileUrl temporaryUrl row.file).filter fun url => url != "" && url != "0"
  user := row.userId.bind users
  createdAt := row.createdAt

/-! ### Listing the messages -/

/-- Without a `per_page`. -/
def ConversationIndexRequest.perPage : ℕ := 10

def ConversationRepository.getProjectConversations (project perPage : ℕ) (cursor : Option ℕ)
    (conversations : List ConversationRow) : Feed.Page ConversationRow ℕ :=
  Feed.cursorPaginate (·.id) perPage cursor (conversations.filter (·.projectId == project))

/-- `getCursorPaginatedData` of the response of `ConversationController::index`. -/
def ConversationController.index (users : ℕ → Option UserSummary) (temporaryUrl : String → Option String)
    (page : Feed.Page ConversationRow ℕ) : Feed.Page ConversationResource ℕ :=
  ⟨page.data.map (ConversationResource.toArray users temporaryUrl), page.nextCursor⟩

/-! ### A chat in the browser -/

/-- The state of a chat that has been opened. -/
structure Chat where
  slug : String
  /-- `none`: the array of `EMPTY_CURSOR_CONVERSATIONS`. -/
  data : Option (List ConversationResource)
  nextCursor : Option ℕ
  loadingMore : Bool
  /-- Whether there is a `scrollObserver`. -/
  scrollObserver : Bool
  deriving DecidableEq, Repr

namespace UseChatMessages

/-- A chat that is created and mounted. -/
def setup (slug : String) : Chat := ⟨slug, none, none, false, true⟩

/-- `conversations.value.data` -/
def shown (empty : List ConversationResource) (c : Chat) : List ConversationResource := c.data.getD empty

def loadConversations.resolved (page : Feed.Page ConversationResource ℕ) (c : Chat) : Chat :=
  { c with data := some page.data, nextCursor := page.nextCursor }

def loadConversations.rejected (c : Chat) : Chat := { c with data := none, nextCursor := none }

def loadMoreConversations.resolved (empty : List ConversationResource) (page : Feed.Page ConversationResource ℕ)
    (c : Chat) : Chat :=
  { c with data := some (shown empty c ++ page.data), nextCursor := page.nextCursor, loadingMore := false }

def loadMoreConversations.rejected (c : Chat) : Chat := { c with loadingMore := false }

/-- The observer's callback when the sentinel intersects: the chat, and the cursor it asks with. -/
def intersecting (c : Chat) : Chat × Option ℕ :=
  if c.scrollObserver && !c.loadingMore then
    match c.nextCursor with
    | none => (c, none)
    | some cursor => ({ c with loadingMore := true }, some cursor)
  else (c, none)

def disconnectScrollObserver (c : Chat) : Chat := { c with scrollObserver := false }

end UseChatMessages

namespace UseRealtimeChat

def listenForNewMessage (e : ConversationResource) (data : List ConversationResource) : List ConversationResource :=
  Feed.push (·.id) e data

def listenToDeleteConversation (conversationId : ℕ) (data : List ConversationResource) :
    List ConversationResource := Feed.remove (·.id) conversationId data

end UseRealtimeChat

/-! ### The processes -/

namespace Chat

open Interleave Table

/-- A queued event. -/
inductive Job where
  | newMessage (conversation : ℕ) (projectSlug : String)
  | deleteConversation (conversationId : ℕ) (projectSlug : String)
  deriving DecidableEq, Repr

/-- An event that has been broadcast, over the channel of the slug. -/
inductive Broadcast where
  | newMessage (projectSlug : String) (conversation : ConversationResource)
  | deleteConversation (projectSlug : String) (conversationId : ℕ)
  deriving DecidableEq, Repr

/-- What happened, in the order it did. -/
inductive Event where
  /-- A request found the project under the slug. -/
  | bound (slug : String) (project : ℕ)
  | uploaded (path : String)
  | stored (row : ConversationRow)
  /-- The event of a deletion was queued. -/
  | deleting (conversation : ℕ)
  /-- The rows of the project went with it. -/
  | purged (project : ℕ)
  /-- A page was read for a chat, when `lastId` was the last id of the table. -/
  | read (chat project : ℕ) (cursor : Option ℕ) (lastId : ℕ)
  /-- A page or an event brought the message to a chat that had loaded. -/
  | came (chat conversation : ℕ)
  /-- Such a chat was told that the message is deleted. -/
  | went (chat conversation : ℕ)
  deriving DecidableEq, Repr

structure Store where
  /-- The projects by their slugs. -/
  projects : String → Option ℕ
  conversations : List ConversationRow
  /-- The last id given to a conversation. -/
  lastId : ℕ
  files : List String
  jobs : List Job
  broadcasts : List Broadcast
  /-- `EMPTY_CURSOR_CONVERSATIONS.data` -/
  empty : List ConversationResource
  chats : List Chat
  log : List Event

/-- What the rest of the program does to the tables. -/
inductive Write where
  | setProject (slug : String) (project : Option ℕ)
  | deleteProject (project : ℕ)
  | deleteUser (user : ℕ)
  deriving DecidableEq, Repr

def Write.apply (s : Store) : Write → Store
  | setProject slug project =>
    { s with projects := fun slug' => if slug' = slug then project else s.projects slug' }
  | deleteProject project =>
    { s with
      conversations := s.conversations.filter (·.projectId != project)
      log := s.log ++ [.purged project] }
  | deleteUser user =>
    { s with conversations := updateWhere (·.userId == some user) ({ · with userId := none }) s.conversations }

/-- Where a process stands. -/
inductive Point where
  -- `ConversationController::store`.
  | storeConversation (slug : String) (actor : ℕ) (message : Option String) (file : Option UploadedFile)
  | prepareConversationData (project : ℕ) (slug : String) (actor : ℕ) (payload : CreateConversationData)
  | createConversation (project : ℕ) (slug : String) (actor : ℕ) (data : CreateConversationData)
  | dispatchNewMessage (conversation : ℕ) (slug : String)
  -- `ConversationController::destroy`; the file goes when the row is gone, and again after the response.
  | destroy (slug : String) (conversation actor : ℕ)
  | dispatchDeleteConversation (row : ConversationRow) (slug : String)
  | delete (row : ConversationRow)
  | deleteFileIfExists (file : Option String) (deferred : Bool)
  -- A worker.
  | broadcast (job : Job)
  -- A chat, and its requests.
  | created (slug : String)
  | index (chat : ℕ) (cursor : Option ℕ)
  | getProjectConversations (chat project : ℕ) (cursor : Option ℕ)
  | resolved (chat : ℕ) (cursor : Option ℕ) (page : Feed.Page ConversationResource ℕ)
  | rejected (chat : ℕ) (cursor : Option ℕ)
  | intersecting (chat : ℕ)
  | beforeDestroy (chat : ℕ)
  | newMessage (chat : ℕ) (e : ConversationResource)
  | deleteConversation (chat conversationId : ℕ)
  | other (w : Write)

structure Input where
  now : Time
  /-- Whether the call takes effect. -/
  done : Bool
  /-- Whether it returns. -/
  ok : Bool
  hashName : String
  users : ℕ → Option UserSummary
  temporaryUrl : String → Option String
  urlPath : String → String

/-- The point behind a call. -/
def Input.andThen (e : Input) (p : Point) : Option Point := if e.done && e.ok then some p else none

/-- The chat changes. -/
def Store.setChat (i : ℕ) (c : Chat) (s : Store) : Store := { s with chats := s.chats.set i c }

/-- What the chat shows changes in place: its own array, or the one that is shared. -/
def Store.mutate (i : ℕ) (c : Chat) (f : List ConversationResource → List ConversationResource) (s : Store) : Store :=
  match c.data with
  | none => { s with empty := f s.empty }
  | some data => s.setChat i { c with data := some (f data) }

def Store.note (events : List Event) (s : Store) : Store := { s with log := s.log ++ events }

def act (s : Store) (p : Point) (e : Input) : Store × Option Point :=
  match p with
  | .storeConversation slug actor message file =>
    match s.projects slug, CreateConversationData.fromArray message (file.map .uploaded) with
    | some project, some payload =>
      (s.note [.bound slug project], e.andThen (.prepareConversationData project slug actor payload))
    | _, _ => (s, none)
  | .prepareConversationData project slug actor payload =>
    match payload.file with
    | some (.uploaded file) =>
      match FileService.store project file e.hashName with
      | none => (s, none)
      | some path =>
        (if e.done then Store.note [.uploaded path] { s with files := s.files ++ [path] } else s,
          e.andThen (.createConversation project slug actor (payload.withStoredFile path)))
    | _ => (s, some (.createConversation project slug actor payload))
  | .createConversation project slug actor data =>
    let row := ConversationService.createConversation (s.lastId + 1) project actor e.now data
    (if e.done then
        Store.note [.stored row] { s with conversations := s.conversations ++ [row], lastId := s.lastId + 1 }
      else s, e.andThen (.dispatchNewMessage row.id slug))
  | .dispatchNewMessage conversation slug =>
    (if e.done then { s with jobs := s.jobs ++ [.newMessage conversation slug] } else s, none)
  | .destroy slug conversation actor =>
    match s.projects slug with
    | none => (s, none)
    | some project =>
      match s.conversations.find? fun r => r.id == conversation && r.projectId == project with
      | none => (s, none)
      | some row =>
        -- `ConversationPolicy::delete`
        (s, if row.userId == some actor then e.andThen (.dispatchDeleteConversation row slug) else none)
  | .dispatchDeleteConversation row slug =>
    (if e.done then Store.note [.deleting row.id] { s with jobs := s.jobs ++ [.deleteConversation row.id slug] }
      else s, e.andThen (.delete row))
  | .delete row =>
    (if e.done then { s with conversations := s.conversations.filter (·.id != row.id) } else s,
      e.andThen (.deleteFileIfExists row.file true))
  | .deleteFileIfExists file deferred =>
    let path := Conversation.resolveStoragePath e.urlPath file
    -- What the storage throws is logged.
    (if path != "" && e.done then { s with files := s.files.filter (· != path) } else s,
      if deferred then some (.deleteFileIfExists file false) else none)
  | .broadcast job =>
    if job ∈ s.jobs ∧ e.done = true then
      match job with
      | .newMessage conversation slug =>
        -- The worker reads the row again; without one it gives up.
        match s.conversations.find? (·.id == conversation) with
        | none => (s, none)
        | some row =>
          let payload := ConversationResource.toArray e.users e.temporaryUrl row
          ({ s with broadcasts := s.broadcasts ++ [.newMessage slug payload] }, none)
      | .deleteConversation conversationId slug =>
        ({ s with broadcasts := s.broadcasts ++ [.deleteConversation slug conversationId] }, none)
    else (s, none)
  | .created slug => ({ s with chats := s.chats ++ [UseChatMessages.setup slug] }, some (.index s.chats.length none))
  | .index i cursor =>
    match s.chats[i]?.bind fun c => (s.projects c.slug).map fun project => (c.slug, project) with
    | none => (s, some (.rejected i cursor))
    | some (slug, project) =>
      (s.note [.bound slug project],
        some (if e.ok then .getProjectConversations i project cursor else .rejected i cursor))
  | .getProjectConversations i project cursor =>
    let page := ConversationRepository.getProjectConversations project ConversationIndexRequest.perPage cursor
      s.conversations
    (s.note [.read i project cursor s.lastId],
      some (if e.ok then .resolved i cursor (ConversationController.index e.users e.temporaryUrl page)
        else .rejected i cursor))
  | .resolved i cursor page =>
    match s.chats[i]? with
    | none => (s, none)
    | some c =>
      let c := match cursor with
        | none => UseChatMessages.loadConversations.resolved page c
        | some _ => UseChatMessages.loadMoreConversations.resolved s.empty page c
      ((s.setChat i c).note (page.data.map fun m => .came i m.id), none)
  | .rejected i cursor =>
    match s.chats[i]? with
    | none => (s, none)
    | some c =>
      (s.setChat i (match cursor with
        | none => UseChatMessages.loadConversations.rejected c
        | some _ => UseChatMessages.loadMoreConversations.rejected c), none)
  | .intersecting i =>
    match s.chats[i]? with
    | none => (s, none)
    | some c =>
      (s.setChat i (UseChatMessages.intersecting c).1,
        (UseChatMessages.intersecting c).2.map fun cursor => .index i (some cursor))
  | .beforeDestroy i =>
    match s.chats[i]? with
    | none => (s, none)
    | some c => (s.setChat i (UseChatMessages.disconnectScrollObserver c), none)
  | .newMessage i message =>
    match s.chats[i]? with
    | none => (s, none)
    | some c =>
      if Broadcast.newMessage c.slug message ∈ s.broadcasts then
        ((s.mutate i c (UseRealtimeChat.listenForNewMessage message)).note
          (if c.data.isSome then [.came i message.id] else []), none)
      else (s, none)
  | .deleteConversation i conversationId =>
    match s.chats[i]? with
    | none => (s, none)
    | some c =>
      if Broadcast.deleteConversation c.slug conversationId ∈ s.broadcasts then
        ((s.mutate i c (UseRealtimeChat.listenToDeleteConversation conversationId)).note
          (if c.data.isSome then [.went i conversationId] else []), none)
      else (s, none)
  | .other w => (w.apply s, none)

/-- What arrives from outside; the other points are reached from there. -/
def Point.entry : Point → Bool
  | .storeConversation .. | .destroy .. | .broadcast _ | .created _ | .intersecting _ | .beforeDestroy _
  | .newMessage .. | .deleteConversation .. | .other _ => true
  | _ => false

def program : Program Store Point Input where
  entry := Point.entry
  move s p e := some (act s p e)

def start : Config Store Point :=
  ⟨⟨fun _ => none, [], 0, [], [], [], [], [], []⟩, []⟩

end Chat
end Daywright
