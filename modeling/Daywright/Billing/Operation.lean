/-
# Subscription operations

A swap or a cancellation of a Paddle subscription is recorded as an operation
before Paddle is asked. This module has the rows (`SubscriptionOperation`,
`Subscription`), the table of status transitions and the scopes, what Paddle
returns of a subscription (`PaddleSubscriptionSnapshot`) and when that proves an
operation (`VerifySubscriptionOperation`), and the subscription state a user is
in (`HasSubscription`).

`Billing.Env` is what the model takes from outside the repository: the
configuration, the digest, Cashier's readings of a subscription, and the
database's and Carbon's readings of a string.

Key definitions: `SubscriptionOperationStatus.canTransitionTo`, the scopes
`readyForRecoveryAt`, `claimableAt` and `unexpiredClaimOwnedBy`,
`VerifySubscriptionOperation.execute`.
-/
import Daywright.Zoom

namespace Daywright

open Php

inductive SubscriptionOperationStatus where
  | pending
  | processing
  | completed
  | failed
  | unknown
  | manualReview
  deriving DecidableEq, Repr

namespace SubscriptionOperationStatus

def value : SubscriptionOperationStatus → String
  | .pending => "pending"
  | .processing => "processing"
  | .completed => "completed"
  | .failed => "failed"
  | .unknown => "unknown"
  | .manualReview => "manual_review"

def isTerminal : SubscriptionOperationStatus → Bool
  | .completed | .failed => true
  | .pending | .processing | .unknown | .manualReview => false

def isNonTerminal (s : SubscriptionOperationStatus) : Bool := !s.isTerminal

def canTransitionTo (s target : SubscriptionOperationStatus) : Bool :=
  match s with
  | .pending => target == .processing
  | .processing => [completed, failed, unknown, manualReview].contains target
  | .unknown => [processing, manualReview].contains target
  | .manualReview => [completed, failed].contains target
  | .completed | .failed => false

end SubscriptionOperationStatus

inductive SubscriptionOperationType where
  | swap
  | cancel
  deriving DecidableEq, Repr

def SubscriptionOperationType.value : SubscriptionOperationType → String
  | .swap => "swap"
  | .cancel => "cancel"

structure SubscriptionOperation where
  id : ℕ
  operationUuid : Uuid
  userId : ℕ
  subscriptionId : Option ℕ
  paddleSubscriptionId : Option String
  type : SubscriptionOperationType
  targetPlan : Option String
  idempotencyKeyHash : String
  requestFingerprint : String
  status : SubscriptionOperationStatus
  attempts : ℕ
  availableAt : Option Time
  claimToken : Option Uuid
  claimedAt : Option Time
  claimExpiresAt : Option Time
  providerAttemptedAt : Option Time
  completedAt : Option Time
  failedAt : Option Time
  lastAttemptAt : Option Time
  lastErrorClass : Option String
  lastErrorCode : Option String
  deriving DecidableEq, Repr

/-- Cashier's row. -/
structure Subscription where
  id : ℕ
  billableType : String
  billableId : ℕ
  name : String
  paddleId : ℤ
  paddleStatus : String
  paddlePlan : ℤ
  trialEndsAt : Option Time
  pausedFrom : Option Time
  endsAt : Option Time
  deriving DecidableEq, Repr

namespace Billing

structure Env where
  /-- `config("services.paddle.{$plan}")`. -/
  plan : String → Value
  /-- `services.paddle.subscription_name`. -/
  subscriptionName : String
  /-- `hash('sha256', ..)`. -/
  sha256 : String → String
  onTrial : Subscription → Time → Bool
  paused : Subscription → Bool
  onPausedGracePeriod : Subscription → Time → Bool
  recurring : Subscription → Time → Bool
  /-- The database's `paddle_id = ?` with a string. -/
  sameNumber : ℤ → String → Bool
  /-- The cast of `ends_at`; `none`: it throws. -/
  asDateTime : String → Option Time

end Billing

namespace SubscriptionOperation

variable (o : SubscriptionOperation)

/-! ### Scopes -/

def active : Bool :=
  [SubscriptionOperationStatus.pending, .processing, .unknown, .manualReview].contains o.status

def processingWithExpiredClaimAt (at' : Time) : Bool :=
  o.status == .processing && o.claimExpiresAt.any (· ≤ at')

def readyForRecoveryAt (at' : Time) : Bool :=
  (o.status == .unknown && (o.availableAt.isNone || o.availableAt.any (· ≤ at'))) ||
    o.processingWithExpiredClaimAt at'

def claimableAt (at' : Time) (maxAttempts : ℕ) : Bool :=
  decide (o.attempts < maxAttempts) && o.readyForRecoveryAt at'

def unexpiredClaimOwnedBy (claimToken : Uuid) (at' : Time) : Bool :=
  o.status == .processing && o.claimToken == some claimToken && o.claimExpiresAt.any (at' < ·)

/-! ### Transitions -/

/-- The message of the `LogicException`. -/
def invalidTransition (s target : SubscriptionOperationStatus) : String :=
  "Cannot transition SubscriptionOperation from [" ++ s.value ++ "] to [" ++ target.value ++ "]."

/-- `transitionTo`, `attributes` being what else is filled in. -/
def transitionTo (target : SubscriptionOperationStatus)
    (attributes : SubscriptionOperation → SubscriptionOperation) : Except String SubscriptionOperation :=
  if o.status.canTransitionTo target then .ok (attributes { o with status := target })
  else .error (invalidTransition o.status target)

end SubscriptionOperation

/-! ### What Paddle returns -/

structure PaddleSubscriptionSnapshot where
  subscriptionId : String
  planId : String
  status : String
  cancellationEffectiveDate : Option String
  deriving DecidableEq, Repr

namespace PaddleSubscriptionSnapshot

variable (s : PaddleSubscriptionSnapshot)

def provesSwapSucceeded (targetPlanId : String) : Bool := s.planId == targetPlanId && s.status == "active"

def provesCancelSucceeded : Bool :=
  s.status == "deleted" && s.cancellationEffectiveDate.any fun d => !isBlank d

end PaddleSubscriptionSnapshot

namespace VerifySubscriptionOperation

/-- The message of the `SubscriptionOperationValidationException`. -/
def verifySwap (targetPlan : Option String) (snapshot : PaddleSubscriptionSnapshot) : Except String Unit :=
  match targetPlan with
  | none => .error "Target plan is required for swap verification"
  | some targetPlan =>
    if snapshot.provesSwapSucceeded targetPlan then .ok ()
    else .error "Remote snapshot does not prove swap succeeded"

def verifyCancel (snapshot : PaddleSubscriptionSnapshot) : Except String Unit :=
  if snapshot.provesCancelSucceeded then .ok ()
  else .error "Remote snapshot does not prove cancel succeeded"

def execute (type : SubscriptionOperationType) (requestedSubscriptionId : String)
    (targetPlan : Option String) (snapshot : PaddleSubscriptionSnapshot) : Except String Unit :=
  if snapshot.subscriptionId ≠ requestedSubscriptionId then
    .error "Remote subscription ID does not match requested ID"
  else
    match type with
    | .swap => verifySwap targetPlan snapshot
    | .cancel => verifyCancel snapshot

end VerifySubscriptionOperation

/-! ### HasSubscription -/

namespace HasSubscription

variable (E : Billing.Env)

/-- `$user->getMorphClass()`. -/
def userMorphClass : String := "App\\Models\\User"

/-- The row belongs to the user. -/
def billedTo (userId : ℕ) (s : Subscription) : Bool :=
  s.billableId == userId && s.billableType == userMorphClass

/-- `$user->subscription($user->subscriptionName())`. -/
def getSubscription (subscriptions : List Subscription) (userId : ℕ) : Option Subscription :=
  subscriptions.find? fun s => billedTo userId s && s.name == E.subscriptionName

def isBillingSubscribed (subscription : Option Subscription) (now : Time) : Bool :=
  match subscription with
  | none => false
  | some s => s.paddleStatus == "trialing" || (E.recurring s now && s.paddleStatus == "active")

def resolveBillingPlanName (paddlePlan : ℤ) : String :=
  if some paddlePlan == filterInt (E.plan "monthly") then "monthly"
  else if some paddlePlan == filterInt (E.plan "yearly") then "yearly"
  else "Unknown"

def activeBillingPlan (subscription : Option Subscription) (now : Time) : String :=
  match subscription with
  | some s =>
    if isBillingSubscribed E (some s) now then resolveBillingPlanName E s.paddlePlan
    else "Not Subscribed Actively"
  | none => "Not Subscribed Actively"

end HasSubscription

end Daywright
