/-
# Recovering and resolving operations

`RecoverSubscriptionOperation` takes over an operation whose result is unknown, or
whose request is gone, reads the subscription from Paddle and completes the
operation if that proves it; otherwise it tries again later, and after the fifth
attempt leaves the operation to manual review. `ResolveSubscriptionOperation` is
the command that ends a review.

Key definitions: `claimForRecovery`, `completeVerifiedOperation`,
`rescheduleAfterFailedRead`, `finishCompleted`, `finishFailed`.
-/
import Daywright.Billing.Service

namespace Daywright

open Php Table

/-- `save()` of a row that is locked. -/
def SubscriptionOperation.save (o : SubscriptionOperation) (operations : List SubscriptionOperation) :
    List SubscriptionOperation :=
  updateWhere (·.id == o.id) (fun _ => o) operations

def Subscription.save (s : Subscription) (subscriptions : List Subscription) : List Subscription :=
  updateWhere (·.id == s.id) (fun _ => s) subscriptions

/-- `blank($operation->paddle_subscription_id)`. -/
def SubscriptionOperation.blankPaddleId (o : SubscriptionOperation) : Bool :=
  o.paddleSubscriptionId.all isBlank

inductive SubscriptionOperationRecoveryOutcome where
  | recovered
  | unresolved
  | manualReview
  | skipped
  deriving DecidableEq, Repr

/-! ### Shared by recovery and resolution -/

section
variable (E : Billing.Env)

/-- The plan id a swap is verified against. -/
def targetPlanId (o : SubscriptionOperation) : Option String :=
  match o.type with
  | .swap => some (toText (E.plan (o.targetPlan.getD "")))
  | .cancel => none

/-- The subscription of the operation's owner with the operation's Paddle id. -/
def localSubscription (o : SubscriptionOperation) (db : Database) : Option Subscription :=
  if db.users.contains o.userId then
    db.subscriptions.find? fun s =>
      o.paddleSubscriptionId.any (E.sameNumber s.paddleId) && HasSubscription.billedTo o.userId s
  else none

/-- The changes an operation makes to the subscription; `none`: the date Paddle gave
cannot be read. -/
def localSubscriptionChanges (o : SubscriptionOperation) (remoteSnapshot : PaddleSubscriptionSnapshot)
    (s : Subscription) : Option Subscription :=
  match o.type with
  | .swap =>
    some { s with
      paddlePlan := toInt (E.plan (o.targetPlan.getD ""))
      paddleStatus := "active"
      endsAt := none }
  | .cancel =>
    match remoteSnapshot.cancellationEffectiveDate with
    | none => some { s with paddleStatus := "deleted", endsAt := none }
    | some date => (E.asDateTime date).map fun t => { s with paddleStatus := "deleted", endsAt := some t }

def provesOperationSucceeded (o : SubscriptionOperation) (remoteSnapshot : PaddleSubscriptionSnapshot) :
    Except String Unit :=
  VerifySubscriptionOperation.execute o.type (o.paddleSubscriptionId.getD "") (targetPlanId E o) remoteSnapshot

end

namespace RecoverSubscriptionOperation

variable (E : Billing.Env)

def claimLeaseMinutes : ℕ := 5
def maxRecoveryAttempts : ℕ := 5

def ready (operation : SubscriptionOperation) (now : Time) (o : SubscriptionOperation) : Bool :=
  o.id == operation.id && o.readyForRecoveryAt now

def claim (claimToken : Uuid) (now : Time) (o : SubscriptionOperation) : SubscriptionOperation :=
  { o with
    status := .processing
    claimToken := some claimToken
    claimedAt := some now
    claimExpiresAt := some (now + minutes claimLeaseMinutes) }

/-- The table after the update, and `$claimed`. -/
def claimForRecovery (operation : SubscriptionOperation) (claimToken : Uuid) (now : Time)
    (operations : List SubscriptionOperation) : List SubscriptionOperation × ℕ :=
  (updateWhere (ready operation now) (claim claimToken now) operations, operations.countP (ready operation now))

def lockLiveClaim (operation : SubscriptionOperation) (claimToken : Uuid) (now : Time)
    (operations : List SubscriptionOperation) : Option SubscriptionOperation :=
  operations.find? fun o => o.unexpiredClaimOwnedBy claimToken now && o.id == operation.id

def moveToManualReview (o : SubscriptionOperation) (attempt : ℕ) (now : Time) :
    Except String SubscriptionOperation :=
  o.transitionTo .manualReview fun o => { o with attempts := attempt, lastAttemptAt := some now }

/-- What a transaction leaves in the database, and its outcome. -/
abbrev Committed := Database × SubscriptionOperationRecoveryOutcome

/-- The transaction of `completeVerifiedOperation`; an error rolls it back. -/
def completeVerifiedOperation (operation : SubscriptionOperation) (claimToken : Uuid)
    (remoteSnapshot : PaddleSubscriptionSnapshot) (now : Time) (db : Database) : Except String Committed :=
  match lockLiveClaim operation claimToken now db.operations with
  | none => .ok (db, .skipped)
  | some claimedOperation =>
    match localSubscription E claimedOperation db with
    | none =>
      (moveToManualReview claimedOperation (claimedOperation.attempts + 1) now).map fun o =>
        ({ db with operations := o.save db.operations }, .manualReview)
    | some subscription =>
      match localSubscriptionChanges E operation remoteSnapshot subscription with
      | none => .error "Could not parse the cancellation date"
      | some changed =>
        (claimedOperation.transitionTo .completed fun o =>
          { o with
            completedAt := some now
            attempts := claimedOperation.attempts + 1
            lastAttemptAt := some now }).map fun o =>
          ({ db with
            subscriptions := changed.save db.subscriptions
            operations := o.save db.operations }, .recovered)

def backoffMinutes (attempt : ℕ) : ℕ :=
  match attempt with
  | 1 => 1
  | 2 => 5
  | 3 => 15
  | _ => 60

/-- The transaction of `rescheduleAfterFailedRead`. -/
def rescheduleAfterFailedRead (operation : SubscriptionOperation) (claimToken : Uuid) (now : Time)
    (db : Database) : Except String Committed :=
  match lockLiveClaim operation claimToken now db.operations with
  | none => .ok (db, .skipped)
  | some claimedOperation =>
    let nextAttempt := claimedOperation.attempts + 1
    if maxRecoveryAttempts ≤ nextAttempt then
      (moveToManualReview claimedOperation nextAttempt now).map fun o =>
        ({ db with operations := o.save db.operations }, .manualReview)
    else
      (claimedOperation.transitionTo .unknown fun o =>
        { o with
          availableAt := some (now + minutes (backoffMinutes nextAttempt))
          attempts := nextAttempt
          lastAttemptAt := some now }).map fun o =>
        ({ db with operations := o.save db.operations }, .unresolved)

/-- Where the recovery of one operation stands. -/
inductive Stage where
  | claimForRecovery (operation : SubscriptionOperation)
  | refresh (operation : SubscriptionOperation) (claimToken : Uuid)
  | verifyAndCompleteOperation (operation : SubscriptionOperation) (claimToken : Uuid)
  | completeVerifiedOperation (operation : SubscriptionOperation) (claimToken : Uuid)
      (remoteSnapshot : PaddleSubscriptionSnapshot)
  | rescheduleAfterFailedRead (operation : SubscriptionOperation) (claimToken : Uuid)

/-- One step: the database it leaves, and the next stage if there is one. A read of
Paddle that fails gives no snapshot. -/
def step (stage : Stage) (uuid : Uuid) (now : Time) (remote : Option PaddleSubscriptionSnapshot)
    (db : Database) : Database × Option Stage :=
  let commit : Except String Committed → Database × Option Stage
    | .ok (db', _) => (db', none)
    | .error _ => (db, none)
  match stage with
  | .claimForRecovery operation =>
    let (operations, claimed) := claimForRecovery operation uuid now db.operations
    ({ db with operations := operations }, if claimed = 1 then some (.refresh operation uuid) else none)
  | .refresh operation claimToken =>
    (db, (SubscriptionService.fresh operation db.operations).map fun o =>
      .verifyAndCompleteOperation o claimToken)
  | .verifyAndCompleteOperation operation claimToken =>
    if operation.blankPaddleId then (db, some (.rescheduleAfterFailedRead operation claimToken))
    else
      match remote with
      | none => (db, some (.rescheduleAfterFailedRead operation claimToken))
      | some remoteSnapshot =>
        match provesOperationSucceeded E operation remoteSnapshot with
        | .ok () => (db, some (.completeVerifiedOperation operation claimToken remoteSnapshot))
        | .error _ => (db, some (.rescheduleAfterFailedRead operation claimToken))
  | .completeVerifiedOperation operation claimToken remoteSnapshot =>
    commit (completeVerifiedOperation E operation claimToken remoteSnapshot now db)
  | .rescheduleAfterFailedRead operation claimToken =>
    commit (rescheduleAfterFailedRead operation claimToken now db)

end RecoverSubscriptionOperation

namespace ResolveSubscriptionOperation

variable (E : Billing.Env)

/-- The option of the command. -/
inductive Resolution where
  | markCompleted
  | markFailed (reference : String)
  deriving DecidableEq, Repr

inductive Point where
  /-- The command reads the operation. -/
  | command (operationUuid : Uuid) (resolution : Resolution)
  /-- Paddle is asked. -/
  | markCompleted (operation : SubscriptionOperation)
  | finishCompleted (operation : SubscriptionOperation) (remoteSub : PaddleSubscriptionSnapshot)
  | finishFailed (operation : SubscriptionOperation) (reference : String)

def notAwaitingReview : String := "Operation is no longer awaiting manual review."

/-- The transaction of `markCompleted`. -/
def finishCompleted (operation : SubscriptionOperation) (remoteSub : PaddleSubscriptionSnapshot)
    (now : Time) (db : Database) : Except String Database :=
  match SubscriptionService.fresh operation db.operations with
  | none => .error "No query results for model"
  | some current =>
    if current.status ≠ .manualReview then .error notAwaitingReview
    else
      match localSubscription E current db with
      | none => .error "Cannot mark completed: local subscription with matching Paddle ID not found."
      | some localSub =>
        match localSubscriptionChanges E current remoteSub localSub with
        | none => .error "Could not parse the cancellation date"
        | some changed =>
          (current.transitionTo .completed fun o => { o with completedAt := some now }).map fun o =>
            { db with
              subscriptions := changed.save db.subscriptions
              operations := o.save db.operations }

/-- The transaction of `markFailed`. -/
def finishFailed (operation : SubscriptionOperation) (reference : String) (now : Time) (db : Database) :
    Except String Database :=
  match SubscriptionService.fresh operation db.operations with
  | none => .error "No query results for model"
  | some current =>
    if current.status ≠ .manualReview then .error notAwaitingReview
    else
      (current.transitionTo .failed fun o =>
        { o with
          failedAt := some now
          lastErrorClass := some "ManualResolution"
          lastErrorCode := some reference }).map fun o =>
        { db with operations := o.save db.operations }

/-- The checks of the command and those before the transaction: where it goes on. -/
def prepare (resolution : Resolution) (operation : SubscriptionOperation) : Option Point :=
  if operation.status.isTerminal then none
  else
    match resolution with
    | .markCompleted =>
      if operation.status ≠ .manualReview || operation.blankPaddleId then none
      else some (.markCompleted operation)
    | .markFailed reference =>
      if isBlank reference || operation.status ≠ .manualReview then none
      else some (.finishFailed operation reference)

def step (p : Point) (now : Time) (remote : Option PaddleSubscriptionSnapshot) (db : Database) :
    Database × Option Point :=
  match p with
  | .command operationUuid resolution =>
    (db, (db.operations.find? (·.operationUuid == operationUuid)).bind (prepare resolution))
  | .markCompleted operation =>
    match remote with
    | none => (db, none)
    | some remoteSub =>
      match provesOperationSucceeded E operation remoteSub with
      | .ok () => (db, some (.finishCompleted operation remoteSub))
      | .error _ => (db, none)
  | .finishCompleted operation remoteSub =>
    match finishCompleted E operation remoteSub now db with
    | .ok db' => (db', none)
    | .error _ => (db, none)
  | .finishFailed operation reference =>
    match finishFailed operation reference now db with
    | .ok db' => (db', none)
    | .error _ => (db, none)

end ResolveSubscriptionOperation

end Daywright
