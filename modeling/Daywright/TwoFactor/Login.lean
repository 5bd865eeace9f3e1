/-
# Logging in with a second factor

A login that has passed the first factor puts a challenge under a fresh token into the
cache, and the token into the session (`TwoFactorStateManager::createState`), having
forgotten the challenge of the session that it has loaded. A submission takes the token
out of its session, takes the entry out of the cache, and has the code of the user
checked whom the entry names (`TwoFactorLoginRequest`).

Each request loads its session when it starts, works on that copy, and stores it when it
ends; `Cache::pull` reads an entry, and then deletes it. The accounts do not change. The
lists of the store after `cache` record what has happened.

Key definitions: `State`, `Entry`, `Store`, `Point`, `program`.
-/
import Daywright.Interleave
import Daywright.Zoom

namespace Daywright
namespace TwoFactor

open Interleave

structure User where
  id : ℕ
  email : String
  deriving DecidableEq, Repr

/-- What the session holds, encrypted, under `2fa_login`. -/
structure State where
  token : ℕ
  expiresAt : Time
  deriving DecidableEq, Repr

/-- What the cache holds under a token, until it expires. -/
structure Entry where
  userId : ℕ
  email : String
  expiresAt : Time
  deriving DecidableEq, Repr

/-- A challenge that has been created, for whom and in which session. -/
structure Challenge where
  token : ℕ
  user : ℕ
  session : ℕ
  expiresAt : Time
  deriving DecidableEq, Repr

/-- The accounts with a second factor that are not deleted, how the database compares
addresses, and the configured lifetime of a challenge in minutes. -/
structure Env where
  users : List User
  sameEmail : String → String → Bool
  ttl : ℕ

structure Store where
  clock : Time
  session : ℕ → Option State
  cache : ℕ → Option Entry
  nextToken : ℕ
  created : List Challenge
  /-- The challenges that a newer login has replaced in their session. -/
  replaced : List ℕ
  /-- The challenges for which a code has been checked. -/
  checked : List ℕ
  /-- The challenges for which a session was granted, and the users. -/
  granted : List (ℕ × ℕ)

/-- Where a request stands. A login through the API forgets its challenge again. -/
inductive Point where
  | startLogin (session : ℕ) (email : String) (api : Bool)
  | forgetting (session : ℕ) (user : User) (api : Bool) (loaded : Option State)
  | putting (session : ℕ) (user : User) (api : Bool)
  | remembering (session : ℕ) (api : Bool) (token : ℕ)
  | forgettingAgain (session : ℕ) (token : ℕ)
  | submit (session : ℕ)
  | validating (session : ℕ) (loaded : Option State)
  | reading (session : ℕ) (token : ℕ)
  | deleting (session : ℕ) (token : ℕ) (entry : Entry)
  | resolving (session : ℕ) (token : ℕ) (entry : Entry)
  | checking (session : ℕ) (token : ℕ) (user : User)
  | granting (token : ℕ) (user : User)
  /-- The session is stored. -/
  | ending (session : ℕ) (state : Option State)
  deriving DecidableEq

/-- The time, and whether the authenticator accepts the code. -/
structure Input where
  now : Time
  validCode : Bool

variable (E : Env)

def Env.find (id : ℕ) : Option User := E.users.find? fun u => u.id == id

def Env.findByEmail (email : String) : Option User := E.users.find? fun u => E.sameEmail u.email email

/-- `resolveUserFromCache`. -/
def resolveUserFromCache (entry : Entry) : Option User := (E.find entry.userId).or (E.findByEmail entry.email)

namespace Store

variable (s : Store)

/-- `Cache::get`. -/
def get (token : ℕ) (now : Time) : Option Entry := (s.cache token).filter fun entry => now < entry.expiresAt

/-- The challenge that was created under a token. -/
def challenge (token : ℕ) : Option Challenge := s.created.find? fun c => c.token == token

def setCache (token : ℕ) (entry : Option Entry) : Store :=
  { s with cache := fun t => if t = token then entry else s.cache t }

/-- The challenge of a user gets a fresh token. -/
def put (session : ℕ) (user : User) (expiresAt : Time) : Store :=
  { s.setCache s.nextToken (some ⟨user.id, user.email, expiresAt⟩) with
    nextToken := s.nextToken + 1
    created := ⟨s.nextToken, user.id, session, expiresAt⟩ :: s.created }

/-- The session is stored; a challenge in it replaces the older ones of the session. -/
def saveSession (session : ℕ) (state : Option State) : Store :=
  { s with session := fun i => if i = session then state else s.session i }

def replace (session : ℕ) (token : ℕ) : Store :=
  { s with replaced := (s.created.filter fun c => c.session == session && c.token < token).map (·.token) ++ s.replaced }

def check (token : ℕ) : Store := { s with checked := token :: s.checked }

def grant (token user : ℕ) : Store := { s with granted := (token, user) :: s.granted }

def forget (token : ℕ) : Store := s.setCache token none

end Store

/-- One step of a request, at the time `e.now`. -/
def act (s : Store) (p : Point) (e : Input) : Store × Option Point :=
  match p with
  | .startLogin session email api =>
    match E.findByEmail email with
    | none => (s, none)
    | some user => (s, some (.forgetting session user api (s.session session)))
  | .forgetting session user api loaded =>
    match loaded with
    | none => (s, some (.putting session user api))
    | some state => (s.forget state.token, some (.putting session user api))
  | .putting session user api => (s.put session user (e.now + minutes E.ttl), some (.remembering session api s.nextToken))
  | .remembering session api token =>
    if api then (s, some (.forgettingAgain session token))
    else (s, some (.ending session (some ⟨token, e.now + minutes E.ttl⟩)))
  | .forgettingAgain session token => (s.forget token, some (.ending session none))
  | .submit session => (s, some (.validating session (s.session session)))
  | .validating session loaded =>
    match loaded with
    | none => (s, some (.ending session none))
    | some state =>
      if state.expiresAt < e.now then (s, some (.ending session none)) else (s, some (.reading session state.token))
  | .reading session token =>
    match s.get token e.now with
    | none => (s, some (.ending session none))
    | some entry => (s, some (.deleting session token entry))
  | .deleting session token entry => (s.forget token, some (.resolving session token entry))
  | .resolving session token entry =>
    match resolveUserFromCache E entry with
    | none => (s, some (.ending session none))
    | some user => (s, some (.checking session token user))
  | .checking session token user =>
    if e.validCode then (s.check token, some (.granting token user)) else (s.check token, some (.ending session none))
  -- The session goes on under a new id; the one under the old id is not stored.
  | .granting token user => (s.grant token user.id, none)
  | .ending session state =>
    match state with
    | none => (s.saveSession session none, none)
    | some state => ((s.saveSession session (some state)).replace session state.token, none)

/-- Time does not go back. -/
def step (s : Store) (p : Point) (e : Input) : Option (Store × Option Point) :=
  if s.clock ≤ e.now then some (act E { s with clock := e.now } p e) else none

def program : Program Store Point Input where
  entry
    | .startLogin _ _ _ | .submit _ => true
    | _ => false
  move := step E

/-- No session has a challenge. -/
def start : Config Store Point := ⟨⟨0, fun _ => none, fun _ => none, 0, [], [], [], []⟩, []⟩

end TwoFactor
end Daywright
