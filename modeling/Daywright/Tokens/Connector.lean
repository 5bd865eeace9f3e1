/-
# The Zoom tokens of a user

`ZoomConnectorManager::forUser` reads the pair of tokens; if it has expired, it takes the
refresh lock, reads the pair again, has Zoom refresh it, and saves what it gets, or
clears the connection if Zoom says that the refresh token is no good. The callback of an
authorization (`ZoomAuthController`) saves the pair it has been given without the lock.

To save a pair is `updateOrCreate`: a SELECT, and then an UPDATE of the row that it found,
by its id, or an INSERT. An UPDATE that finds the row gone changes nothing and passes for
done.

Zoom issues each token once, and a lock that is held does not expire; the lock of a
worker that has died does. `sent` are the refresh tokens that Zoom has been sent, and
`authorized` those of the pairs that it has given to a callback.

Key definitions: `OAuthTokens`, `Store`, `Store.saveTokens`, `Point`, `program`.
-/
import Daywright.Interleave
import Daywright.Zoom

namespace Daywright
namespace Tokens

open Interleave

/-- A pair of tokens; Zoom's tokens are numbered as they are issued. -/
structure OAuthTokens where
  accessToken : ℕ
  refreshToken : ℕ
  expiresAt : Time
  deriving DecidableEq, Repr

/-- `AccessTokenAuthenticator::hasExpired`, which compares seconds. -/
def OAuthTokens.hasExpired (t : OAuthTokens) (now : Time) : Bool := t.expiresAt / 1000 ≤ now / 1000

/-- A row of `oauth_connections`. -/
structure OAuthConnection where
  id : ℕ
  tokens : OAuthTokens
  deriving DecidableEq, Repr

structure Store where
  /-- The row of the user and the provider `zoom`. -/
  connection : Option OAuthConnection
  nextConnection : ℕ
  /-- The owner of the refresh lock. -/
  lock : Option ℕ
  nextLock : ℕ
  nextToken : ℕ
  sent : List ℕ
  authorized : List ℕ

inductive Failure where
  /-- 'User is not connected to Zoom.' -/
  | userNotConnected
  /-- 'Zoom account connection needs to be re-authorized.' -/
  | userReconnectRequired
  /-- 'Zoom token refresh is temporarily unavailable. Please try again.' -/
  | refreshUnavailable
  /-- An exception that is passed on. -/
  | rethrown
  deriving DecidableEq, Repr

/-- The statement that `updateOrCreate` makes next. -/
inductive Stage where
  | select
  | update (loaded : OAuthConnection)
  | insert
  /-- The row was there when it was to be inserted. -/
  | reselect
  deriving DecidableEq, Repr

inductive Outcome where
  | next (stage : Stage)
  | saved
  | thrown
  deriving DecidableEq, Repr

/-- Where a call stands; from `locked` on it has the refresh lock. -/
inductive Point where
  | forUser
  | waiting
  | locked (l : ℕ)
  | refreshing (l : ℕ) (old : OAuthTokens)
  | saving (l : ℕ) (old new : OAuthTokens) (stage : Stage)
  | clearing (l : ℕ) (old : OAuthTokens)
  | releasing (l : ℕ) (result : Except Failure OAuthTokens)
  /-- The worker has died; its lock runs out. -/
  | lapsing (l : ℕ)
  | answered (result : Except Failure OAuthTokens)
  | callback
  | callbackSaving (new : OAuthTokens) (stage : Stage)
  /-- 'Zoom account connected successfully' -/
  | connected

/-- What becomes of a request to Zoom to refresh a pair. -/
inductive Answer where
  | issued
  | unauthorized
  | userError (error : Option String)
  | otherError
  /-- The worker dies before it hears the answer. -/
  | unheard
  deriving DecidableEq, Repr

/-- What becomes of a statement. -/
inductive Reply where
  | done
  | failed
  | died
  deriving DecidableEq, Repr

structure Input where
  now : Time
  expiresAt : Time
  answer : Answer
  reply : Reply

namespace Store

variable (s : Store)

/-- Zoom issues a pair. -/
def issue (e : Input) : OAuthTokens := ⟨s.nextToken, s.nextToken, e.expiresAt⟩

/-- Zoom has been sent a refresh token, and has issued a pair if `issued`. -/
def send (refreshToken : ℕ) (issued : Bool) : Store :=
  { s with sent := refreshToken :: s.sent, nextToken := if issued then s.nextToken + 1 else s.nextToken }

def authorize : Store := { s with authorized := s.nextToken :: s.authorized, nextToken := s.nextToken + 1 }

def acquire : Store := { s with lock := some s.nextLock, nextLock := s.nextLock + 1 }

def release : Store := { s with lock := none }

/-- The columns that differ from what was loaded are written. -/
def update (loaded : OAuthConnection) (new : OAuthTokens) (row : OAuthConnection) : OAuthConnection :=
  { row with
    tokens := {
      accessToken := if loaded.tokens.accessToken = new.accessToken then row.tokens.accessToken else new.accessToken
      refreshToken :=
        if loaded.tokens.refreshToken = new.refreshToken then row.tokens.refreshToken else new.refreshToken
      expiresAt :=
        if loaded.tokens.expiresAt / 1000 = new.expiresAt / 1000 then row.tokens.expiresAt else new.expiresAt } }

/-- A statement of `updateOrCreate`. -/
def saveTokens (new : OAuthTokens) : Stage → Store × Outcome
  | .select =>
    match s.connection with
    | some row => (s, .next (.update row))
    | none => (s, .next .insert)
  | .update loaded =>
    ({ s with connection := s.connection.map fun row => if row.id = loaded.id then update loaded new row else row },
      .saved)
  | .insert =>
    match s.connection with
    | none => ({ s with connection := some ⟨s.nextConnection, new⟩, nextConnection := s.nextConnection + 1 }, .saved)
    | some _ => (s, .next .reselect)
  | .reselect =>
    match s.connection with
    | some row => (s, .next (.update row))
    | none => (s, .thrown)

def clearTokens : Store := { s with connection := none }

end Store

def isInvalidOAuthError (error : Option String) : Bool :=
  error.any fun e => ["invalid_grant", "invalid_token"].contains e

/-- `authenticatorFor`, and what is done with an authenticator that has not expired. -/
def readTokens (s : Store) (e : Input) : Except Failure OAuthTokens ⊕ OAuthTokens :=
  match s.connection with
  | none => .inl (.error .userNotConnected)
  | some row => if row.tokens.hasExpired e.now then .inr row.tokens else .inl (.ok row.tokens)

/-- What follows Zoom's answer to the refresh of `old`. -/
def refreshAndSave (s : Store) (l : ℕ) (old : OAuthTokens) (e : Input) : Store × Option Point :=
  match e.answer with
  | .issued => (s.send old.refreshToken true, some (.saving l old (s.issue e) .select))
  | .unauthorized => (s.send old.refreshToken false, some (.clearing l old))
  | .userError error =>
    if isInvalidOAuthError error then (s.send old.refreshToken false, some (.clearing l old))
    else (s.send old.refreshToken false, some (.releasing l (.error .rethrown)))
  | .otherError => (s.send old.refreshToken false, some (.releasing l (.error .rethrown)))
  | .unheard => (s.send old.refreshToken false, some (.lapsing l))

def step (s : Store) (p : Point) (e : Input) : Option (Store × Option Point) :=
  match p with
  | .forUser =>
    match readTokens s e with
    | .inl result => some (s, some (.answered result))
    | .inr _ => some (s, some .waiting)
  | .waiting =>
    match s.lock with
    | none => some (s.acquire, some (.locked s.nextLock))
    -- It has waited in vain.
    | some _ => some (s, some (.answered (.error .refreshUnavailable)))
  | .locked l =>
    match e.reply with
    | .done =>
      match readTokens s e with
      | .inl result => some (s, some (.releasing l result))
      | .inr old => some (s, some (.refreshing l old))
    | .failed => some (s, some (.releasing l (.error .rethrown)))
    | .died => some (s, some (.lapsing l))
  | .refreshing l old => some (refreshAndSave s l old e)
  | .saving l old new stage =>
    match e.reply with
    | .done =>
      match s.saveTokens new stage with
      | (s, .next stage) => some (s, some (.saving l old new stage))
      | (s, .saved) => some (s, some (.releasing l (.ok new)))
      | (s, .thrown) => some (s, some (.releasing l (.error .rethrown)))
    | .failed => some (s, some (.releasing l (.error .rethrown)))
    | .died => some (s, some (.lapsing l))
  | .clearing l _ =>
    match e.reply with
    | .done => some (s.clearTokens, some (.releasing l (.error .userReconnectRequired)))
    | .failed => some (s, some (.releasing l (.error .rethrown)))
    | .died => some (s, some (.lapsing l))
  | .releasing _ result => some (s.release, some (.answered result))
  | .lapsing _ => some (s.release, none)
  | .answered _ | .connected => none
  | .callback =>
    match e.answer with
    | .issued => some (s.authorize, some (.callbackSaving (s.issue e) .select))
    | _ => some (s, none)
  | .callbackSaving new stage =>
    match e.reply with
    | .done =>
      match s.saveTokens new stage with
      | (s, .next stage) => some (s, some (.callbackSaving new stage))
      | (s, .saved) => some (s, some .connected)
      | (s, .thrown) => some (s, none)
    | _ => some (s, none)

def program : Program Store Point Input where
  entry
    | .forUser | .callback => true
    | _ => false
  move := step

end Tokens
end Daywright
