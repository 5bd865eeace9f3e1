/-
# Swapping and cancelling a subscription

`SubscriptionService::swap` and `cancel`. Under a lock on the user's row a
transaction looks the request up by its idempotency key, validates it and inserts
an operation; then Paddle is called, once, and the result is recorded on the
operation if the request still holds its claim.

Key definitions: `lookUp`, `createProcessingOperation`, `recordSuccess`,
`recordFailure`, `recordUnknown`.
-/
import Daywright.Billing.Operation
import Daywright.Table

namespace Daywright

/-- What the service throws at its caller. -/
inductive BillingException where
  | subscription (message action plan : String) (currentState : Option String)
  | idempotencyMismatch
  | activeOperationConflict
  | paddleUnavailable (message : String)
  /-- `firstOrFail` found no user. -/
  | modelNotFound
  /-- A unique index was violated. -/
  | query
  deriving DecidableEq, Repr

/-- What the code reads of an exception: its class and its code. -/
structure ProviderError where
  className : String
  code : String
  deriving DecidableEq, Repr

/-- A call of `swap` or `cancel`. -/
structure SubscriptionRequest where
  userId : ℕ
  type : SubscriptionOperationType
  plan : String
  idempotencyKey : String
  deriving DecidableEq, Repr

/-- The tables the code reads and writes; users that are deleted are left out. -/
structure Database where
  users : List ℕ
  subscriptions : List Subscription
  operations : List SubscriptionOperation

namespace SubscriptionService

open Php HasSubscription Table

variable (E : Billing.Env)

def claimLeaseMinutes : ℕ := 5

/-! ### Messages -/

def messageProcessing : String := "Your request is being processed. We will confirm the result shortly."
def messageProcessingShort : String := "Your request is being processed."
def messageSwapSuccess (plan : String) : String :=
  "Your subscription has been successfully updated to the " ++ plan ++ " plan"
def messageCancelSuccess : String := "Your subscription has been canceled successfully."
def messageSwapFailed : String :=
  "Your subscription change could not be completed. Please try again or contact support."
def messageCancelFailed : String :=
  "Your subscription cancellation could not be completed. Please try again or contact support."
def errorNotSubscribed : String := "You are not subscribed to a paid plan."

def successMessage (type : SubscriptionOperationType) (plan : String) : String :=
  match type with
  | .swap => messageSwapSuccess plan
  | .cancel => messageCancelSuccess

def getMessageForStatus (status : SubscriptionOperationStatus) (type : SubscriptionOperationType)
    (plan : String) : String :=
  match status with
  | .completed => successMessage type plan
  | .failed =>
    match type with
    | .swap => messageSwapFailed
    | .cancel => messageCancelFailed
  | .processing | .unknown | .pending => messageProcessing
  | .manualReview => messageProcessingShort

/-! ### Validation -/

/-- A blank plan id is not numeric either. -/
def resolvePlanId (plan action : String) : Except BillingException ℤ :=
  match numeric (E.plan plan) with
  | some planId => .ok planId
  | none =>
    .error (.subscription ("The " ++ plan ++ " plan is not configured. Please contact support.") action plan none)

def validateSwapAllowed (subscription : Option Subscription) (plan : String) (now : Time) :
    Except BillingException Unit :=
  match subscription with
  | none => .error (.subscription errorNotSubscribed "swap" plan none)
  | some s =>
    let reject (message : String) : Except BillingException Unit :=
      .error (.subscription message "swap" plan (some s.paddleStatus))
    if E.onTrial s now then
      reject "Cannot swap plans during trial. Please wait for your trial to end."
    else if s.endsAt.any (now < ·) then
      reject "Cannot swap plans during grace period. Please renew your subscription."
    else if E.paused s || E.onPausedGracePeriod s now then
      reject "Cannot swap plans while subscription is paused."
    else if s.paddleStatus = "past_due" then
      reject "Cannot swap plans while subscription is past due. Please update your payment method."
    else if !isBillingSubscribed E (some s) now then reject errorNotSubscribed
    else if activeBillingPlan E (some s) now = plan then reject "You are already on this plan."
    else .ok ()

def validateCancelAllowed (subscription : Option Subscription) (plan : String) (now : Time) :
    Except BillingException Unit :=
  let reject (message : String) : Except BillingException Unit :=
    .error (.subscription message "cancel" plan (subscription.map (·.paddleStatus)))
  if !isBillingSubscribed E subscription now then reject errorNotSubscribed
  else if activeBillingPlan E subscription now ≠ plan then reject "You are not subscribed to this plan."
  else .ok ()

def validateAllowed (type : SubscriptionOperationType) :
    Option Subscription → String → Time → Except BillingException Unit :=
  match type with
  | .swap => validateSwapAllowed E
  | .cancel => validateCancelAllowed E

/-! ### The transaction -/

/-- `"{$user->id}:{$type->value}:{$plan}"`. -/
def fingerprintText (userId : ℕ) (type : SubscriptionOperationType) (plan : String) : String :=
  toString userId ++ ":" ++ type.value ++ ":" ++ plan

def keyHash (r : SubscriptionRequest) : String := E.sha256 r.idempotencyKey

def fingerprint (r : SubscriptionRequest) : String := E.sha256 (fingerprintText r.userId r.type r.plan)

def sameKey (r : SubscriptionRequest) (o : SubscriptionOperation) : Bool :=
  o.userId == r.userId && o.idempotencyKeyHash == keyHash E r

def findExistingOperation (r : SubscriptionRequest) (operations : List SubscriptionOperation) :
    Except BillingException (Option SubscriptionOperation) :=
  match operations.find? (sameKey E r) with
  | none => .ok none
  | some existing =>
    if existing.requestFingerprint ≠ fingerprint E r then .error .idempotencyMismatch
    else .ok (some existing)

def activeConflict (r : SubscriptionRequest) (operations : List SubscriptionOperation) : Bool :=
  operations.any fun o => o.userId == r.userId && o.active

/-- What the transaction finds. -/
inductive Found where
  | existing (o : SubscriptionOperation)
  /-- An operation is to be created for the user's subscription. -/
  | nothing (subscription : Option Subscription)

/-- The reads of the transaction, up to the insertion in `createProcessingOperation`;
they see one snapshot of the database. -/
def lookUp (r : SubscriptionRequest) (db : Database) (now : Time) : Except BillingException Found := do
  if !db.users.contains r.userId then throw .modelNotFound
  match ← findExistingOperation E r db.operations with
  | some existing => return .existing existing
  | none =>
    let subscription := getSubscription E db.subscriptions r.userId
    validateAllowed E r.type subscription r.plan now
    match ← findExistingOperation E r db.operations with
    | some existing => return .existing existing
    | none =>
      if activeConflict r db.operations then throw .activeOperationConflict
      return .nothing subscription

/-- The row `createProcessingOperation` inserts. -/
def processingOperation (r : SubscriptionRequest) (subscription : Option Subscription)
    (id : ℕ) (operationUuid claimToken : Uuid) (now : Time) : SubscriptionOperation where
  id := id
  operationUuid := operationUuid
  userId := r.userId
  subscriptionId := subscription.map (·.id)
  paddleSubscriptionId := some (subscription.elim "" fun s => toString s.paddleId)
  type := r.type
  targetPlan := some r.plan
  idempotencyKeyHash := keyHash E r
  requestFingerprint := fingerprint E r
  status := .processing
  attempts := 0
  availableAt := none
  claimToken := some claimToken
  claimedAt := some now
  claimExpiresAt := some (now + minutes claimLeaseMinutes)
  providerAttemptedAt := some now
  completedAt := none
  failedAt := none
  lastAttemptAt := none
  lastErrorClass := none
  lastErrorCode := none

/-- The insertion; the unique index on user and key stands behind it. -/
def createProcessingOperation (r : SubscriptionRequest) (subscription : Option Subscription)
    (operationUuid claimToken : Uuid) (now : Time) (operations : List SubscriptionOperation) :
    Except BillingException SubscriptionOperation :=
  if operations.any (sameKey E r) then .error .query
  else .ok (processingOperation E r subscription (nextId (operations.map (·.id))) operationUuid claimToken now)

/-! ### The result -/

/-- The request that created the operation still holds its claim. -/
def claimed (operation : SubscriptionOperation) (o : SubscriptionOperation) : Bool :=
  o.id == operation.id && o.claimToken == operation.claimToken && o.status == .processing

def success (now : Time) (o : SubscriptionOperation) : SubscriptionOperation :=
  { o with status := .completed, completedAt := some now, lastAttemptAt := some now }

def failure (e : ProviderError) (now : Time) (o : SubscriptionOperation) : SubscriptionOperation :=
  { o with
    status := .failed
    failedAt := some now
    lastAttemptAt := some now
    lastErrorClass := some e.className
    lastErrorCode := some e.code }

def unknown (e : ProviderError) (now : Time) (o : SubscriptionOperation) : SubscriptionOperation :=
  { o with
    status := .unknown
    availableAt := some (now + minutes 1)
    lastAttemptAt := some now
    lastErrorClass := some e.className
    lastErrorCode := some e.code }

/-- How the call of Paddle ended. -/
inductive ProviderResult where
  | success
  /-- A `PaddleException`. -/
  | rejected (e : ProviderError)
  /-- Any other exception. -/
  | uncertain (e : ProviderError)
  deriving DecidableEq, Repr

/-- The update of `recordSuccess`, `recordFailure` or `recordUnknown`. -/
def record (result : ProviderResult) (now : Time) : SubscriptionOperation → SubscriptionOperation :=
  match result with
  | .success => success now
  | .rejected e => failure e now
  | .uncertain e => unknown e now

/-- The result the caller gets: an operation, as it is by then, and a message. -/
inductive Response where
  | result (operation : Option SubscriptionOperation) (message : String)
  | throws (e : BillingException)
  deriving DecidableEq, Repr

def fresh (operation : SubscriptionOperation) (operations : List SubscriptionOperation) :
    Option SubscriptionOperation :=
  operations.find? (·.id == operation.id)

def returnExistingOperation (operation : SubscriptionOperation) (type : SubscriptionOperationType)
    (plan : String) (operations : List SubscriptionOperation) : Response :=
  .result (fresh operation operations) (getMessageForStatus operation.status type plan)

/-- What the caller gets once the result is recorded in `operations`, or was not. -/
def recordResponse (result : ProviderResult) (operation : SubscriptionOperation) (updated : Bool)
    (operations : List SubscriptionOperation) : Response :=
  let current := fresh operation operations
  let plan := operation.targetPlan.getD ""
  match result, updated with
  | .success, true => .result current (successMessage operation.type plan)
  | .success, false => .result current messageProcessing
  | .rejected _, true => .throws (.paddleUnavailable "The subscription operation could not be completed.")
  | .uncertain _, true => .result current messageProcessing
  | .rejected _, false | .uncertain _, false =>
    returnExistingOperation (current.getD operation) operation.type plan operations

end SubscriptionService

end Daywright
