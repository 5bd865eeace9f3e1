/-
# The processes on the operations

Requests of any users, the recoveries the scheduler starts, the command that ends
a review, and whatever else changes users and subscriptions, interleaved over the
database. Paddle's side is the list of the mutations it was called with.

The reads of a request's transaction see one snapshot, and its insertion comes
later; the lock on the user's row lets no other transaction of that user insert
in between. Recoveries and resolutions do not take this lock.

Key definitions: `Store`, `Point`, `act`, `program`.
-/
import Daywright.Interleave
import Daywright.Billing.Recovery
import Mathlib.Data.List.Sort

namespace Daywright
namespace Billing

open Interleave SubscriptionService

/-- A call of `swapAndInvoice` or `cancel`. -/
structure Mutation where
  operationId : ℕ
  userId : ℕ
  idempotencyKeyHash : String
  type : SubscriptionOperationType
  paddleId : Option ℤ
  planId : Option ℤ
  deriving DecidableEq, Repr

/-- Where a process stands. -/
inductive Point where
  /-- `swap` or `cancel`. -/
  | request (r : SubscriptionRequest)
  /-- In the transaction, about to insert; `seen` is the number of the user's operations. -/
  | insert (r : SubscriptionRequest) (planId : Option ℤ) (subscription : Option Subscription) (seen : ℕ)
  | returnExisting (r : SubscriptionRequest) (operation : SubscriptionOperation)
  | callPaddle (operation : SubscriptionOperation) (subscription : Option Subscription) (planId : Option ℤ)
  /-- Paddle has been called. -/
  | await (operation : SubscriptionOperation)
  | record (result : ProviderResult) (operation : SubscriptionOperation)
  /-- The caller has its response. -/
  | respond (response : Response)
  /-- `RecoverSubscriptionOperations::execute`. -/
  | recoverOperations (limit : ℕ)
  /-- The recovery of one operation, and those still to do. -/
  | recover (stage : RecoverSubscriptionOperation.Stage) (rest : List SubscriptionOperation)
  | resolve (p : ResolveSubscriptionOperation.Point)
  /-- Any change of users and subscriptions by other code. -/
  | other (users : List ℕ) (subscriptions : List Subscription)

/-- How the database answers an update. -/
inductive Written where
  | done
  /-- It threw, without effect or after it. -/
  | throws (e : ProviderError)
  | throwsAfter (e : ProviderError)

/-- What the environment decides of a step. -/
structure Input where
  now : Time
  /-- The claim token drawn. -/
  uuid : Uuid
  operationUuid : Uuid
  /-- How the call of Paddle ended. -/
  result : ProviderResult
  written : Written
  /-- The subscription read from Paddle. -/
  remote : Option PaddleSubscriptionSnapshot
  /-- The rows in the order in which a query without one returns them, by their ids. -/
  order : List ℕ

/-- What a step leaves. -/
structure Outcome where
  db : Database
  call : Option Mutation
  next : Option Point

namespace Outcome

def goOn (db : Database) (p : Point) : Outcome := ⟨db, none, some p⟩

end Outcome

/-- The number of operations of a user. -/
def operationCount (userId : ℕ) (operations : List SubscriptionOperation) : ℕ :=
  operations.countP (·.userId == userId)

/-- The rows of a query that sets no order. -/
def unordered (order : List ℕ) (rows : List SubscriptionOperation) : List SubscriptionOperation :=
  rows.insertionSort fun o o' => order.idxOf o.id ≤ order.idxOf o'.id

/-- The next of the operations a scheduled pass has selected. -/
def recoverNext : List SubscriptionOperation → Option Point
  | [] => none
  | operation :: rest => some (.recover (.claimForRecovery operation) rest)

variable (E : Env)

/-- `resolvePlanId`, only for a swap. -/
def planIdOf (r : SubscriptionRequest) : Except BillingException (Option ℤ) :=
  match r.type with
  | .swap => (resolvePlanId E r.plan "swap").map some
  | .cancel => .ok none

def requestStep (r : SubscriptionRequest) (db : Database) (now : Time) : Point :=
  match planIdOf E r with
  | .error e => .respond (.throws e)
  | .ok planId =>
    match lookUp E r db now with
    | .error e => .respond (.throws e)
    | .ok (.existing operation) => .returnExisting r operation
    | .ok (.nothing subscription) =>
      .insert r planId subscription (operationCount r.userId db.operations)

/-- The update of a result, and where the request goes on. `recordSuccess` stands
inside the `try`. -/
def recordStep (result : ProviderResult) (operation : SubscriptionOperation) (e : Input) (db : Database) :
    Outcome :=
  let operations := Table.updateWhere (claimed operation) (record result e.now) db.operations
  let db' := { db with operations := operations }
  let again (x : ProviderError) : Option Point :=
    if result = .success then some (.record (.uncertain x) operation) else none
  match e.written with
  | .done =>
    .goOn db' (.respond (recordResponse result operation (db.operations.any (claimed operation)) operations))
  | .throws x => ⟨db, none, again x⟩
  | .throwsAfter x => ⟨db', none, again x⟩

/-- One step of a process; `none` for a process that has ended. -/
def act (p : Point) (db : Database) (e : Input) : Option Outcome :=
  match p with
  | .request r => some (.goOn db (requestStep E r db e.now))
  | .insert r planId subscription _ =>
    match createProcessingOperation E r subscription e.operationUuid e.uuid e.now db.operations with
    | .error x => some (.goOn db (.respond (.throws x)))
    | .ok operation =>
      some (.goOn { db with operations := db.operations ++ [operation] }
        (.callPaddle operation subscription planId))
  | .returnExisting r operation =>
    some (.goOn db (.respond (returnExistingOperation operation r.type r.plan db.operations)))
  | .callPaddle operation subscription planId =>
    some ⟨db,
      some ⟨operation.id, operation.userId, operation.idempotencyKeyHash, operation.type,
        subscription.map (·.paddleId), planId⟩,
      some (.await operation)⟩
  | .await operation => some (.goOn db (.record e.result operation))
  | .record result operation => some (recordStep result operation e db)
  | .respond _ => none
  | .recoverOperations limit =>
    some ⟨db, none, recoverNext ((unordered e.order (db.operations.filter (·.claimableAt e.now 5))).take limit)⟩
  | .recover stage rest =>
    let (db', next) := RecoverSubscriptionOperation.step E stage e.uuid e.now e.remote db
    some ⟨db', none, match next with
      | some stage' => some (.recover stage' rest)
      | none => recoverNext rest⟩
  | .resolve q =>
    let (db', next) := ResolveSubscriptionOperation.step E q e.now e.remote db
    some ⟨db', none, next.map .resolve⟩
  | .other users subscriptions => some ⟨{ db with users, subscriptions }, none, none⟩

/-- The database, Paddle's side, and the claim tokens drawn so far. -/
structure Store where
  db : Database
  mutations : List Mutation
  issued : List Uuid

namespace Point

def entry : Point → Bool
  | .request _ | .recoverOperations _ | .other _ _ => true
  | .resolve (.command _ _) => true
  | _ => false

def drawsUuid : Point → Bool
  | .insert _ _ _ _ => true
  | .recover (.claimForRecovery _) _ => true
  | _ => false

/-- The lock on the user's row: since the snapshot nobody has inserted for this user. -/
def locked (operations : List SubscriptionOperation) : Point → Bool
  | .insert r _ _ seen => operationCount r.userId operations == seen
  | _ => true

end Point

def program : Program Store Point Input where
  entry := Point.entry
  move s p e :=
    if !p.locked s.db.operations || (p.drawsUuid && s.issued.contains e.uuid) then none
    else (act E p s.db e).map fun o =>
      (⟨o.db, o.call.toList ++ s.mutations, if p.drawsUuid then e.uuid :: s.issued else s.issued⟩, o.next)

/-- Nothing has been requested. -/
def start (users : List ℕ) (subscriptions : List Subscription) : Config Store Point :=
  ⟨⟨⟨users, subscriptions, []⟩, [], []⟩, []⟩

variable {E}

/-- What a move with outcome `o` is. -/
structure Moved (E : Env) (s : Store) (p : Point) (e : Input) (s' : Store) (k : Option Point)
    (o : Outcome) : Prop where
  outcome : act E p s.db e = some o
  db : s'.db = o.db
  mutations : s'.mutations = o.call.toList ++ s.mutations
  next : k = o.next
  issued : s'.issued = if p.drawsUuid then e.uuid :: s.issued else s.issued
  locked : p.locked s.db.operations = true
  fresh : p.drawsUuid = true → e.uuid ∉ s.issued

theorem moved {s s' : Store} {p : Point} {e : Input} {k : Option Point}
    (h : (program E).move s p e = some (s', k)) : ∃ o, Moved E s p e s' k o := by
  simp only [program, Option.ite_none_left_eq_some] at h
  obtain ⟨hg, h⟩ := h
  obtain ⟨o, ho, he⟩ := Option.map_eq_some_iff.mp h
  simp only [Prod.mk.injEq] at he
  obtain ⟨rfl, rfl⟩ := he
  simp only [Bool.or_eq_true, Bool.not_eq_true', not_or, Bool.and_eq_true, not_and] at hg
  exact ⟨o, ho, rfl, rfl, rfl, rfl, by simpa using hg.1, fun hp => by simpa using hg.2 hp⟩

end Billing
end Daywright
