/-
# Project messages

`MessageService` and what it drives: `DispatchProjectMessageAction`, the command
`schedule:message` and the jobs `MailMessage` and `SmsMessage`. A message is
claimed by a token in its `batch_id`; a batch of delivery jobs is dispatched under
the claim, and its id takes the place of the token. When the batch is over its
callbacks mark the message as delivered and clear `batch_id`.

The queue is Laravel's. It may run a job again, or on two workers at once, up to
three attempts in all, but it records one result for each job; `then` runs when the last
result comes in and every job succeeded, `finally` when every job has run. An
empty batch has no last result: no callback runs.

Key definitions: `Message`, `Batch`, `DispatchProjectMessageAction`, `Messages.program`.
-/
import Daywright.Inbox.Service
import Mathlib.Data.List.Dedup

namespace Daywright

inductive MessageType where
  | mail
  | sms
  deriving DecidableEq, Repr

/-- A row of `messages`, and the users attached to it. -/
structure Message where
  id : ℕ
  projectId : ℕ
  type : MessageType
  users : List ℕ
  delivered : Bool
  deliveredAt : Option Time
  batchId : Option String
  deriving DecidableEq, Repr

/-- The call took effect. -/
def Answer.applies : Answer → Bool
  | .throws _ => false
  | _ => true

/-- `scopeMessageScheduled`. -/
def Message.messageScheduled (now : Time) (m : Message) : Bool :=
  !m.delivered && m.batchId.isNone && m.deliveredAt.any (· ≤ now)

/-- A delivery job of a batch. -/
inductive Job where
  | mailMessage (userId : ℕ)
  | smsMessage
  deriving DecidableEq, Repr

/-- How a job ended, and whom it sent the message to, if it sent it. -/
inductive JobResult where
  | succeeded (sentTo : Option ℕ)
  | failed
  deriving DecidableEq, Repr

structure QueuedJob where
  job : Job
  attempts : ℕ
  result : Option JobResult
  deriving DecidableEq, Repr

/-- Whom the job has sent the message to. -/
def QueuedJob.sentTo (q : QueuedJob) : Option ℕ :=
  match q.result with
  | some (.succeeded sentTo) => sentTo
  | _ => none

structure Batch where
  id : String
  projectId : ℕ
  messageId : ℕ
  /-- The claim it was dispatched under; no code reads it. -/
  claimToken : String
  jobs : List QueuedJob
  deriving DecidableEq, Repr

namespace Batch

def failedJobs (b : Batch) : ℕ := b.jobs.countP fun q => q.result == some .failed

def allJobsHaveRanExactlyOnce (b : Batch) : Bool := b.jobs.all fun q => q.result.isSome

end Batch

/-- The users and projects there are (`find` and the relations leave out what is
soft-deleted), and whose `mobile` is known. -/
structure Directory where
  project : ℕ → Bool
  user : ℕ → Bool
  mobile : ℕ → Bool

/-! ### The jobs -/

/-- `$tries`. -/
def tries : ℕ := 3

/-- What a job does once it has read its rows. -/
inductive Handled where
  | returns
  /-- `$this->fail(..)`: no further attempt. -/
  | fails
  | sends (userId : ℕ)
  deriving DecidableEq, Repr

def MailMessage.handle (dir : Directory) (projectId userId : ℕ) (message : Option Message) : Handled :=
  if message.any (·.delivered) then .returns
  else if !dir.project projectId || message.isNone || !dir.user userId then .returns
  else .sends userId

/-- The first of the users with a mobile number. -/
def VonageSmsService.recipient (dir : Directory) (m : Message) : Option ℕ :=
  m.users.find? fun u => dir.user u && dir.mobile u

def SmsMessage.handle (dir : Directory) (projectId : ℕ) (message : Option Message) : Handled :=
  if message.any (·.delivered) then .returns
  else
    match message with
    | none => .fails
    | some m =>
      if !dir.project projectId then .fails
      else (VonageSmsService.recipient dir m).elim .fails .sends

def Job.handle (dir : Directory) (projectId : ℕ) (message : Option Message) : Job → Handled
  | .mailMessage userId => MailMessage.handle dir projectId userId message
  | .smsMessage => SmsMessage.handle dir projectId message

/-! ### The claim -/

namespace DispatchProjectMessageAction

open Table

def canDispatch (m : Message) : Bool := !m.delivered && m.batchId.isNone

def claimToken (uuid : Uuid) : String := "claim:" ++ uuid

def claimed (messageId : ℕ) (token : String) (m : Message) : Bool :=
  m.id == messageId && m.batchId == some token

/-- The message with its users. -/
def findClaimedMessage (dir : Directory) (messageId : ℕ) (token : String) (rows : List Message) : Option Message :=
  (rows.find? (claimed messageId token)).map fun m => { m with users := m.users.filter dir.user }

def markBatchStarted (messageId : ℕ) (token batchId : String) (rows : List Message) : List Message :=
  updateWhere (claimed messageId token) (fun m => { m with batchId := some batchId }) rows

def releaseClaim (messageId : ℕ) (token : String) (rows : List Message) : List Message :=
  updateWhere (claimed messageId token) (fun m => { m with batchId := none }) rows

/-- The jobs of `dispatchBatch`. -/
def jobs (m : Message) : List Job :=
  match m.type with
  | .mail => m.users.map .mailMessage
  | .sms => [.smsMessage]

def newBatch (id : String) (projectId : ℕ) (token : String) (m : Message) : Batch where
  id := id
  projectId := projectId
  messageId := m.id
  claimToken := token
  jobs := (jobs m).map fun job => ⟨job, 0, none⟩

/-- The `then` callback; a batch with failures is only logged. -/
def thenCallback (messageId : ℕ) (failedJobs : ℕ) (rows : List Message) : List Message :=
  if failedJobs = 0 then updateWhere (·.id == messageId) (fun m => { m with delivered := true }) rows
  else rows

/-- What the `finally` callback clears. -/
def terminated (messageId : ℕ) (m : Message) : Bool :=
  m.id == messageId && !m.delivered && m.batchId.isSome

def finallyCallback (messageId : ℕ) (rows : List Message) : List Message :=
  updateWhere (terminated messageId) (fun m => { m with batchId := none }) rows

end DispatchProjectMessageAction

structure ProjectMessageData where
  mail : Bool
  sms : Bool
  /-- `some none`: not a datetime. -/
  deliveredAt : Option (Option Time)
  recipientIds : List ℕ
  deriving DecidableEq, Repr

def MessageService.deliveryOptionEnabled (payload : ProjectMessageData) : MessageType → Bool
  | .mail => payload.mail
  | .sms => payload.sms

/-- `CreateProjectMessageAction`; `syncWithoutDetaching` attaches each user once. -/
def newMessage (id projectId : ℕ) (type : MessageType) (payload : ProjectMessageData) : Message where
  id := id
  projectId := projectId
  type := type
  users := payload.recipientIds.dedup
  delivered := false
  deliveredAt := none
  batchId := none

/-! ### The processes -/

namespace Messages

open Interleave DispatchProjectMessageAction

/-- What calls `execute`, and what it has still to do. -/
inductive Caller where
  /-- `sendNow` on its own. -/
  | sendNow
  /-- `send`, with the types that follow. -/
  | send (projectId : ℕ) (payload : ProjectMessageData) (types : List MessageType)
  /-- `ScheduledMessages::handle`, with the rest of its chunk and whether the chunk is full. -/
  | pass (messages : List (ℕ × ℕ)) (lastId : ℕ) (full : Bool)
  deriving DecidableEq, Repr

/-- Where a process stands. -/
inductive Point where
  | send (projectId : ℕ) (payload : ProjectMessageData) (types : List MessageType)
  | schedule (messageId : ℕ) (projectId : ℕ) (payload : ProjectMessageData) (types : List MessageType)
  /-- `handle`, about to read the messages after `lastId`. -/
  | handle (lastId : ℕ)
  | execute (projectId messageId : ℕ) (caller : Caller)
  | findClaimedMessage (projectId messageId : ℕ) (token : String) (caller : Caller)
  | dispatchBatch (projectId : ℕ) (message : Message) (token : String) (caller : Caller)
  | markBatchStarted (messageId : ℕ) (token batchId : String) (caller : Caller)
  | releaseClaim (messageId : ℕ) (token : String) (caller : Caller)
  /-- A worker takes the `k`-th job of a batch. -/
  | work (batchId : String) (k : ℕ)
  | handleJob (batchId : String) (k : ℕ)
  | deliver (batchId : String) (k : ℕ) (userId : ℕ)
  | record (batchId : String) (k : ℕ) (result : JobResult)
  | thenCallback (batchId : String) (messageId failedJobs : ℕ)
  | finallyCallback (batchId : String) (messageId : ℕ)
  | delete (messageId : ℕ)
  deriving DecidableEq, Repr

/-- `execute` has returned. -/
def Caller.goOn : Caller → Option Point
  | .sendNow => none
  | .send projectId payload types => some (.send projectId payload types)
  | .pass [] lastId full => if full then some (.handle lastId) else none
  | .pass ((projectId, messageId) :: rest) lastId full =>
    some (.execute projectId messageId (.pass rest lastId full))

/-- `execute` has thrown: only the command goes on. -/
def Caller.onThrow (caller : Caller) : Option Point :=
  match caller with
  | .pass _ _ _ => caller.goOn
  | _ => none

/-- What the environment decides of a step. -/
structure Input where
  now : Time
  uuid : Uuid
  answer : Answer
  dir : Directory
  /-- What threw is not tried again: the provider rejected the message, or the job timed out. -/
  permanent : Bool

/-- The tables, the next `id`, and the uuids and tokens drawn so far. -/
structure Store where
  rows : List Message
  nextId : ℕ
  batches : List Batch
  issued : List String

namespace Store

/-- The `k`-th job of a batch. -/
def job? (s : Store) (batchId : String) (k : ℕ) : Option (Batch × QueuedJob) :=
  (s.batches.find? (·.id == batchId)).bind fun b => b.jobs[k]?.map fun q => (b, q)

def setJob (s : Store) (batchId : String) (k : ℕ) (q : QueuedJob) : Store :=
  { s with batches := Table.updateWhere (·.id == batchId) (fun b => { b with jobs := b.jobs.set k q }) s.batches }

/-- What a statement leaves that ends with the given answer. -/
def after (s s' : Store) (answer : Answer) : Store := if answer.applies then s' else s

end Store

/-- `CHUNK`, the argument of `chunkById`. -/
def chunkSize : ℕ := 50

/-- The messages `chunkById` reads after `lastId`, by id. -/
def chunk (now : Time) (lastId : ℕ) (rows : List Message) : List Message :=
  ((rows.filter fun m => m.messageScheduled now && decide (lastId < m.id)).insertionSort
    (·.id ≤ ·.id)).take chunkSize

/-- The messages of a chunk whose project is there, and where the next chunk starts. -/
def readChunk (e : Input) (lastId : ℕ) (rows : List Message) : Caller :=
  let messages := chunk e.now lastId rows
  .pass ((messages.filter fun m => e.dir.project m.projectId).map fun m => (m.projectId, m.id))
    ((messages.getLast?.map (·.id)).getD lastId) (messages.length == chunkSize)

/-- The transaction of `execute`; `none` where it finds no row. -/
def execute (messageId : ℕ) (token : String) (rows : List Message) : Option (Option (List Message)) :=
  (rows.find? (·.id == messageId)).map fun m =>
    if canDispatch m then
      some (Table.updateWhere (·.id == messageId) (fun m => { m with batchId := some token }) rows)
    else none

/-- Where a job goes on that threw: it is recorded as failed, or tried again later. -/
def afterThrow (e : Input) (batchId : String) (k : ℕ) (q : QueuedJob) : Option Point :=
  if e.permanent || decide (tries ≤ q.attempts) then some (.record batchId k .failed) else none

/-- Where a job goes on from its handler. -/
def handleJob (s : Store) (e : Input) (batchId : String) (k : ℕ) (b : Batch) (q : QueuedJob) : Point :=
  match q.job.handle e.dir b.projectId (s.rows.find? (·.id == b.messageId)) with
  | .returns => .record batchId k (.succeeded none)
  | .fails => .record batchId k .failed
  | .sends userId => .deliver batchId k userId

/-- The callbacks of a batch, if all its jobs have run. -/
def callbacks (b : Batch) : Option Point :=
  if b.allJobsHaveRanExactlyOnce then
    if b.failedJobs = 0 then some (.thenCallback b.id b.messageId b.failedJobs)
    else some (.finallyCallback b.id b.messageId)
  else none

/-- One step of a worker with its job. -/
def workerStep (s : Store) (p : Point) (e : Input) (b : Batch) (q : QueuedJob) : Store × Option Point :=
  match p with
  | .work batchId k =>
    (s.setJob batchId k { q with attempts := q.attempts + 1 },
      if tries ≤ q.attempts then some (.record batchId k .failed) else some (.handleJob batchId k))
  | .handleJob batchId k =>
    match e.answer with
    | .returned => (s, some (handleJob s e batchId k b q))
    | _ => (s, afterThrow e batchId k q)
  | .deliver batchId k userId =>
    match e.answer with
    | .returned => (s, some (.record batchId k (.succeeded (some userId))))
    | _ => (s, afterThrow e batchId k q)
  | .record batchId k result =>
    -- What it throws after the result is in is as good as a crash.
    (s.after (s.setJob batchId k { q with result := some result }) e.answer,
      if e.answer.applies then callbacks { b with jobs := b.jobs.set k { q with result := some result } } else none)
  | _ => (s, none)

/-- A worker whose job is gone, or has its result, is done with it. -/
def worker (s : Store) (p : Point) (e : Input) (batchId : String) (k : ℕ) : Store × Option Point :=
  match s.job? batchId k with
  | some (b, q) => if q.result.isNone then workerStep s p e b q else (s, none)
  | none => (s, none)

/-- The next message of `send`. -/
def sendStep (s : Store) (e : Input) (projectId : ℕ) (payload : ProjectMessageData) :
    List MessageType → Store × Option Point
  | [] => (s, none)
  | type :: types =>
    if MessageService.deliveryOptionEnabled payload type then
      let created := { s with rows := s.rows ++ [newMessage s.nextId projectId type payload], nextId := s.nextId + 1 }
      (s.after created e.answer,
        match e.answer with
        | .returned =>
          if payload.deliveredAt.isSome then some (.schedule s.nextId projectId payload types)
          else some (.execute projectId s.nextId (.send projectId payload types))
        | _ => none)
    else (s, some (.send projectId payload types))

/-- `ScheduleProjectMessageAction`; it throws for a time that is past, or none. -/
def scheduleStep (s : Store) (e : Input) (messageId projectId : ℕ) (payload : ProjectMessageData)
    (types : List MessageType) : Store × Option Point :=
  match payload.deliveredAt with
  | some (some parsed) =>
    if parsed < e.now then (s, none)
    else
      let rows := Table.updateWhere (·.id == messageId) (fun m => { m with deliveredAt := some parsed }) s.rows
      (s.after { s with rows } e.answer,
        match e.answer with
        | .returned => some (.send projectId payload types)
        | _ => none)
  | _ => (s, none)

/-- One step of a process. -/
def act (s : Store) (p : Point) (e : Input) : Store × Option Point :=
  match p with
  | .send projectId payload types => sendStep s e projectId payload types
  | .schedule messageId projectId payload types => scheduleStep s e messageId projectId payload types
  | .handle lastId => (s, (readChunk e lastId s.rows).goOn)
  | .execute projectId messageId caller =>
    match execute messageId (claimToken e.uuid) s.rows with
    | none => (s, caller.onThrow)
    | some none => (s, caller.goOn)
    | some (some rows) =>
      (s.after { s with rows } e.answer,
        match e.answer with
        | .returned => some (.findClaimedMessage projectId messageId (claimToken e.uuid) caller)
        -- A deadlock: the transaction is tried again.
        | .throws _ => if e.permanent then caller.onThrow else some p
        | .throwsAfter _ => caller.onThrow)
  | .findClaimedMessage projectId messageId token caller =>
    -- The read stands outside the `try`.
    match e.answer with
    | .returned =>
      match findClaimedMessage e.dir messageId token s.rows with
      | some m => (s, some (.dispatchBatch projectId m token caller))
      | none => (s, caller.goOn)
    | _ => (s, caller.onThrow)
  | .dispatchBatch projectId m token caller =>
    (s.after { s with batches := s.batches ++ [newBatch e.uuid projectId token m] } e.answer,
      match e.answer with
      | .returned => some (.markBatchStarted m.id token e.uuid caller)
      | _ => some (.releaseClaim m.id token caller))
  | .markBatchStarted messageId token batchId caller =>
    (s.after { s with rows := markBatchStarted messageId token batchId s.rows } e.answer,
      match e.answer with
      | .returned => caller.goOn
      | _ => some (.releaseClaim messageId token caller))
  | .releaseClaim messageId token caller =>
    (s.after { s with rows := releaseClaim messageId token s.rows } e.answer, caller.onThrow)
  | .work batchId k | .handleJob batchId k | .deliver batchId k _ | .record batchId k _ =>
    worker s p e batchId k
  | .thenCallback batchId messageId failedJobs =>
    -- What a callback throws is reported, and `finally` runs.
    (s.after { s with rows := thenCallback messageId failedJobs s.rows } e.answer,
      some (.finallyCallback batchId messageId))
  | .finallyCallback _ messageId =>
    (s.after { s with rows := finallyCallback messageId s.rows } e.answer, none)
  | .delete messageId => (s.after { s with rows := s.rows.filter (·.id != messageId) } e.answer, none)

/-- The string a step draws. -/
def Point.draws (e : Input) : Point → Option String
  | .execute _ _ _ => some (claimToken e.uuid)
  | .dispatchBatch _ _ _ _ => some e.uuid
  | _ => none

def Point.entry : Point → Bool
  | .send _ payload types => (payload.mail || payload.sms) && types == [.mail, .sms]
  | .handle lastId => lastId == 0
  | .execute _ _ caller => caller == .sendNow
  | .work _ _ | .delete _ => true
  | _ => false

def program : Program Store Point Input where
  entry := Point.entry
  move s p e :=
    if (p.draws e).any s.issued.contains then none
    else
      let (s', k) := act s p e
      some ({ s' with issued := (p.draws e).toList ++ s.issued }, k)

/-- No message has been sent. -/
def start : Config Store Point := ⟨⟨[], 1, [], []⟩, []⟩

/-! ### Sample steps -/

namespace Sample

def input (now : Time) (uuid : Uuid) (answer : Answer) : Input :=
  ⟨now, uuid, answer, ⟨fun _ => true, fun _ => true, fun _ => true⟩, false⟩

def failure : Failure := ⟨"TransportException", "421"⟩

/-- A mail to the users 1 and 2, scheduled for time 1000. -/
def schedule : List (Act Point Input) :=
  [.arrive (.send 1 ⟨true, false, some (some 1000), [1, 2]⟩ [.mail, .sms]), .move 0 (input 0 "" .returned),
    .move 0 (input 0 "" .returned), .move 0 (input 0 "" .returned), .move 0 (input 0 "" .returned)]

/-- A pass claims it and dispatches a batch. -/
def pass (uuid batchId : Uuid) : List (Act Point Input) :=
  [.arrive (.handle 0), .move 0 (input 2000 "" .returned), .move 0 (input 2000 uuid .returned),
    .move 0 (input 2000 "" .returned), .move 0 (input 2000 batchId .returned), .move 0 (input 2000 "" .returned)]

/-- A pass whose batch is not dispatched; the claim is released. -/
def failedPass (uuid batchId : Uuid) : List (Act Point Input) :=
  [.arrive (.handle 0), .move 0 (input 2000 "" .returned), .move 0 (input 2000 uuid .returned),
    .move 0 (input 2000 "" .returned), .move 0 (input 2000 batchId (.throws failure)),
    .move 0 (input 2000 "" .returned)]

/-- A job sends its mail. -/
def deliver (batchId : String) (k : ℕ) : List (Act Point Input) :=
  [.arrive (.work batchId k), .move 0 (input 3000 "" .returned), .move 0 (input 3000 "" .returned),
    .move 0 (input 3000 "" .returned), .move 0 (input 3000 "" .returned)]

/-- An attempt of a job at which the mailer throws. -/
def attempt (batchId : String) (k : ℕ) : List (Act Point Input) :=
  [.arrive (.work batchId k), .move 0 (input 3000 "" .returned), .move 0 (input 3000 "" .returned),
    .move 0 (input 3000 "" (.throws failure))]

end Sample

end Messages
end Daywright
