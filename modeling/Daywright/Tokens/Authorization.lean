/-
# The authorization of Zoom, by its state

`ZoomAuthController::redirect` stores the verifier of an authorization in the cache, for
ten minutes, under a state that Zoom sends back; `callback` consumes it
(`ZoomAuthorizationStateStore::consume`): under a lock of five seconds it pulls the entry,
and it goes on if the entry is the user's own. Cache and lock are shared by all requests,
and pulling an entry is two calls, a `get` and a `forget`. A callback that brings an error
forgets the entry without the lock.

Whatever the interleaving, a connection is saved for the user who asked for it, on an
entry that had not expired (`connection_is_own`). If no callback outlives its lock between
the two calls, an entry is consumed once (`verifier_consumed_once`).

Key definitions: `ZoomAuthorizationStateStore`, `Authorization.program`, `InTime`.
Key theorems: `connection_is_own`, `verifier_consumed_once`.
-/
import Daywright.Interleave
import Daywright.Zoom
import Mathlib.Data.List.Nodup

namespace Daywright
namespace Authorization

open Interleave

/-- What `store` puts into the cache. -/
structure Pending where
  userId : ℕ
  codeVerifier : String
  deriving DecidableEq, Repr

structure Entry where
  state : String
  pending : Pending
  expiresAt : Time
  deriving DecidableEq, Repr

structure CallbackLock where
  state : String
  owner : ℕ
  expiresAt : Time
  deriving DecidableEq, Repr

/-- What happened, in the order it did. -/
inductive Event where
  | stored (entry : Entry)
  | pulled (lock : CallbackLock) (pending : Pending) (readAt : Time)
  | consumed (lock : CallbackLock) (user : ℕ) (codeVerifier : String)
  | saved (lock : CallbackLock) (user : ℕ) (codeVerifier : String)
  deriving DecidableEq, Repr

structure Store where
  now : Time
  cache : List Entry
  locks : List CallbackLock
  nextOwner : ℕ
  /-- The states drawn so far. -/
  drawn : List String
  log : List Event

end Authorization

/-! ### The cache -/

namespace ZoomAuthorizationStateStore

open Authorization

def callbackLockSeconds : ℕ := 5
def verifierTtlMinutes : ℕ := 10

/-- `Cache::put`. -/
def store (entry : Entry) (s : Store) : Store :=
  { s with
    cache := entry :: s.cache.filter (·.state != entry.state)
    drawn := entry.state :: s.drawn
    log := s.log ++ [.stored entry] }

/-- `Cache::get`, which does not see an expired entry. -/
def get (state : String) (now : Time) (s : Store) : Option Pending :=
  (s.cache.find? fun entry => entry.state == state && decide (now < entry.expiresAt)).map (·.pending)

def forget (state : String) (s : Store) : Store := { s with cache := s.cache.filter (·.state != state) }

/-- The lock is free, or has run out. -/
def free (state : String) (now : Time) (s : Store) : Bool :=
  !s.locks.any fun l => l.state == state && decide (now < l.expiresAt)

def acquire (lock : CallbackLock) (s : Store) : Store :=
  { s with locks := lock :: s.locks.filter (·.state != lock.state), nextOwner := s.nextOwner + 1 }

/-- Only the owner's lock. -/
def release (lock : CallbackLock) (s : Store) : Store :=
  { s with locks := s.locks.filter fun l => !(l.state == lock.state && l.owner == lock.owner) }

/-- The checks of `consume` on what was pulled; `none`: the session is invalid or expired. -/
def check (user : ℕ) (authorization : Option Pending) : Option String :=
  match authorization with
  | none => none
  | some a => if a.userId ≠ user then none else if a.codeVerifier = "" then none else some a.codeVerifier

end ZoomAuthorizationStateStore

/-! ### The processes -/

namespace Authorization

open Interleave ZoomAuthorizationStateStore

/-- Where a request stands. -/
inductive Point where
  | redirect (user : ℕ)
  | callback (user : ℕ) (state : String) (error : Option String)
  | get (user : ℕ) (lock : CallbackLock)
  | forget (user : ℕ) (lock : CallbackLock) (pending : Pending) (readAt : Time)
  | release (user : ℕ) (lock : CallbackLock) (value : Option Pending)
  | check (user : ℕ) (lock : CallbackLock) (value : Option Pending)
  | authorize (user : ℕ) (lock : CallbackLock) (codeVerifier : String)
  | saveTokens (user : ℕ) (lock : CallbackLock) (codeVerifier : String)

structure Input where
  now : Time
  /-- What `redirect` draws. -/
  state : String
  codeVerifier : String
  /-- The call returns. -/
  returns : Bool

/-- What `redirect` stores. -/
def entry (user : ℕ) (e : Input) : Entry :=
  ⟨e.state, ⟨user, e.codeVerifier⟩, e.now + minutes verifierTtlMinutes⟩

/-- The entry is forgotten, and its value is the callback's. -/
def pull (lock : CallbackLock) (pending : Pending) (readAt : Time) (s : Store) : Store :=
  { forget lock.state s with log := s.log ++ [.pulled lock pending readAt] }

def act (s : Store) (p : Point) (e : Input) : Store × Option Point :=
  match p with
  | .redirect user => (store (entry user e) s, none)
  | .callback user state error =>
    match error with
    | some _ => (if state ≠ "" then forget state s else s, none)
    | none =>
      if free state e.now s then
        let lock : CallbackLock := ⟨state, s.nextOwner, e.now + seconds callbackLockSeconds⟩
        (acquire lock s, some (.get user lock))
      else (s, none)
  | .get user lock =>
    match e.returns, get lock.state e.now s with
    | true, some pending => (s, some (.forget user lock pending e.now))
    | _, _ => (s, some (.release user lock none))
  | .forget user lock pending readAt =>
    if e.returns then (pull lock pending readAt s, some (.release user lock (some pending)))
    else (s, some (.release user lock none))
  | .release user lock value => (release lock s, some (.check user lock value))
  | .check user lock value =>
    match check user value with
    | none => (s, none)
    | some codeVerifier =>
      ({ s with log := s.log ++ [.consumed lock user codeVerifier] }, some (.authorize user lock codeVerifier))
  | .authorize user lock codeVerifier => (s, if e.returns then some (.saveTokens user lock codeVerifier) else none)
  | .saveTokens user lock codeVerifier =>
    if e.returns then ({ s with log := s.log ++ [.saved lock user codeVerifier] }, none) else (s, none)

/-- A state is drawn once. -/
def Point.draws : Point → Bool
  | .redirect _ => true
  | _ => false

def program : Program Store Point Input where
  entry
    | .redirect _ | .callback _ _ _ => true
    | _ => false
  move s p e :=
    if e.now < s.now || (p.draws && s.drawn.contains e.state) then none
    else
      let (s', k) := act s p e
      some ({ s' with now := e.now }, k)

def start : Config Store Point := ⟨⟨0, [], [], 0, [], []⟩, []⟩

variable {s s' : Store} {p q : Point} {e : Input} {k : Option Point}

/-! ### The effect of a step -/

inductive Effect (s : Store) (p : Point) (e : Input) : Store → Prop
  | idle : Effect s p e s
  | stored (user : ℕ) : p = .redirect user → e.state ∉ s.drawn → Effect s p e (store (entry user e) s)
  | forgot (state : String) : Effect s p e (forget state s)
  | acquired (user : ℕ) (state : String) : p = .callback user state none → free state e.now s = true →
      Effect s p e (acquire ⟨state, s.nextOwner, e.now + seconds callbackLockSeconds⟩ s)
  | pulled (user : ℕ) (lock : CallbackLock) (pending : Pending) (readAt : Time) :
      p = .forget user lock pending readAt → Effect s p e (pull lock pending readAt s)
  | released (user : ℕ) (lock : CallbackLock) (value : Option Pending) : p = .release user lock value →
      Effect s p e (release lock s)
  | consumed (user : ℕ) (lock : CallbackLock) (value : Option Pending) (codeVerifier : String) :
      p = .check user lock value → check user value = some codeVerifier →
      Effect s p e { s with log := s.log ++ [.consumed lock user codeVerifier] }
  | saved (user : ℕ) (lock : CallbackLock) (codeVerifier : String) : p = .saveTokens user lock codeVerifier →
      Effect s p e { s with log := s.log ++ [.saved lock user codeVerifier] }

theorem act_effect (hp : p.draws = true → e.state ∉ s.drawn) : Effect s p e (act s p e).1 := by
  cases p with
  | redirect user => exact .stored user rfl (hp rfl)
  | callback user state error =>
    cases error with
    | some error =>
      simp only [act]
      split
      · exact .forgot state
      · exact .idle
    | none =>
      simp only [act]
      split
      · rename_i hf
        exact .acquired user state rfl hf
      · exact .idle
  | get user lock =>
    simp only [act]
    split <;> exact .idle
  | forget user lock pending readAt =>
    simp only [act]
    split
    · exact .pulled user lock pending readAt rfl
    · exact .idle
  | release user lock value => exact .released user lock value rfl
  | check user lock value =>
    simp only [act]
    split
    · exact .idle
    · rename_i codeVerifier hc
      exact .consumed user lock value codeVerifier rfl hc
  | authorize user lock codeVerifier => exact .idle
  | saveTokens user lock codeVerifier =>
    simp only [act]
    split
    · exact .saved user lock codeVerifier rfl
    · exact .idle

/-- What a move is. -/
theorem moved (h : program.move s p e = some (s', k)) : s.now ≤ e.now ∧ Effect s p e (act s p e).1 ∧
    s' = { (act s p e).1 with now := e.now } ∧ k = (act s p e).2 := by
  simp only [program, Option.ite_none_left_eq_some, Option.some.injEq, Prod.mk.injEq, Bool.or_eq_true,
    decide_eq_true_eq, Bool.and_eq_true, List.contains_iff_mem, not_or, not_lt, not_and] at h
  obtain ⟨⟨hnow, hdraw⟩, hs, hk⟩ := h
  exact ⟨hnow, act_effect hdraw, hs.symm, hk.symm⟩

/-- What a step puts into the log. -/
theorem Effect.of_mem_log (h : Effect s p e s') {x : Event} (hx : x ∈ s'.log) : x ∈ s.log ∨
    (∃ user, p = .redirect user ∧ e.state ∉ s.drawn ∧ x = .stored (entry user e) ∧ s' = store (entry user e) s) ∨
    (∃ user lock pending readAt, p = .forget user lock pending readAt ∧ x = .pulled lock pending readAt ∧
      s' = pull lock pending readAt s) ∨
    (∃ user lock value codeVerifier, p = .check user lock value ∧ check user value = some codeVerifier ∧
      x = .consumed lock user codeVerifier) ∨
    ∃ user lock codeVerifier, p = .saveTokens user lock codeVerifier ∧ x = .saved lock user codeVerifier := by
  cases h with
  | idle | forgot | acquired | released => exact .inl hx
  | stored user hp hd =>
    rcases List.mem_append.mp hx with hx | hx
    · exact .inl hx
    · exact .inr (.inl ⟨user, hp, hd, List.mem_singleton.mp hx, rfl⟩)
  | pulled user lock pending readAt hp =>
    rcases List.mem_append.mp hx with hx | hx
    · exact .inl hx
    · exact .inr (.inr (.inl ⟨user, lock, pending, readAt, hp, List.mem_singleton.mp hx, rfl⟩))
  | consumed user lock value codeVerifier hp hc =>
    rcases List.mem_append.mp hx with hx | hx
    · exact .inl hx
    · exact .inr (.inr (.inr (.inl ⟨user, lock, value, codeVerifier, hp, hc, List.mem_singleton.mp hx⟩)))
  | saved user lock codeVerifier hp =>
    rcases List.mem_append.mp hx with hx | hx
    · exact .inl hx
    · exact .inr (.inr (.inr (.inr ⟨user, lock, codeVerifier, hp, List.mem_singleton.mp hx⟩)))

theorem Effect.log_append (h : Effect s p e s') : ∃ l, s'.log = s.log ++ l := by
  cases h with
  | idle | forgot | acquired | released => exact ⟨[], (List.append_nil _).symm⟩
  | stored | pulled | consumed | saved => exact ⟨_, rfl⟩

theorem Effect.mem_log (h : Effect s p e s') {x : Event} (hx : x ∈ s.log) : x ∈ s'.log := by
  obtain ⟨l, hl⟩ := h.log_append
  rw [hl]
  exact List.mem_append_left _ hx

theorem check_some {user : ℕ} {value : Option Pending} {codeVerifier : String}
    (h : check user value = some codeVerifier) : value = some ⟨user, codeVerifier⟩ := by
  unfold check at h
  split at h
  · cases h
  · split_ifs at h with hu
    cases h
    rw [← not_not.mp hu]

/-! ### Whose connection it is -/

/-- The entry has been stored under the state of the lock, and was read in time. -/
def Read (s : Store) (lock : CallbackLock) (pending : Pending) (readAt : Time) : Prop :=
  ∃ expiresAt, .stored ⟨lock.state, pending, expiresAt⟩ ∈ s.log ∧ readAt < expiresAt

structure Inv (s : Store) : Prop where
  cached : ∀ entry ∈ s.cache, .stored entry ∈ s.log
  pulled : ∀ lock pending readAt, .pulled lock pending readAt ∈ s.log → Read s lock pending readAt
  consumed : ∀ lock user codeVerifier, .consumed lock user codeVerifier ∈ s.log →
    ∃ readAt, .pulled lock ⟨user, codeVerifier⟩ readAt ∈ s.log
  saved : ∀ lock user codeVerifier, .saved lock user codeVerifier ∈ s.log →
    .consumed lock user codeVerifier ∈ s.log

/-- What a callback has in hand. -/
def Hand (s : Store) : Point → Prop
  | .forget _ lock pending readAt => Read s lock pending readAt
  | .release _ lock (some pending) | .check _ lock (some pending) => ∃ readAt, .pulled lock pending readAt ∈ s.log
  | .authorize user lock codeVerifier | .saveTokens user lock codeVerifier =>
    .consumed lock user codeVerifier ∈ s.log
  | _ => True

theorem Read.mono {lock : CallbackLock} {pending : Pending} {readAt : Time} (h : Read s lock pending readAt)
    (hlog : ∀ x ∈ s.log, x ∈ s'.log) : Read s' lock pending readAt := by
  obtain ⟨expiresAt, hx, hlt⟩ := h
  exact ⟨expiresAt, hlog _ hx, hlt⟩

theorem Hand.mono (h : Hand s p) (hlog : ∀ x ∈ s.log, x ∈ s'.log) : Hand s' p := by
  cases p with
  | forget => exact Read.mono h hlog
  | release _ _ value | check _ _ value =>
    cases value with
    | none => trivial
    | some pending =>
      obtain ⟨readAt, hx⟩ := h
      exact ⟨readAt, hlog _ hx⟩
  | authorize | saveTokens => exact hlog _ h
  | _ => trivial

theorem Effect.cache (h : Effect s p e s') {entry : Entry} (he : entry ∈ s'.cache) :
    entry ∈ s.cache ∨ .stored entry ∈ s'.log := by
  cases h with
  | stored user _ _ =>
    rcases List.mem_cons.mp he with rfl | he
    · exact .inr (List.mem_append_right _ (List.mem_singleton_self _))
    · exact .inl (List.mem_filter.mp he).1
  | forgot | pulled => exact .inl (List.mem_filter.mp he).1
  | idle | acquired | released | consumed | saved => exact .inl he

theorem Inv.effect (hI : Inv s) (hp : Hand s p) (h : Effect s p e s') : Inv s' := by
  have hlog : ∀ x ∈ s.log, x ∈ s'.log := fun x hx => h.mem_log hx
  constructor
  case cached =>
    intro entry he
    rcases h.cache he with he | he
    · exact hlog _ (hI.cached entry he)
    · exact he
  case pulled =>
    intro lock pending readAt hx
    rcases h.of_mem_log hx with
      hx | ⟨_, -, -, he, -⟩ | ⟨user, _, _, _, rfl, he, -⟩ | ⟨_, _, _, _, -, -, he⟩ | ⟨_, _, _, -, he⟩
    · exact (hI.pulled lock pending readAt hx).mono hlog
    · cases he
    · cases he
      exact Read.mono hp hlog
    · cases he
    · cases he
  case consumed =>
    intro lock user codeVerifier hx
    rcases h.of_mem_log hx with
      hx | ⟨_, -, -, he, -⟩ | ⟨_, _, _, _, -, he, -⟩ | ⟨_, _, value, _, rfl, hc, he⟩ | ⟨_, _, _, -, he⟩
    · obtain ⟨readAt, hx⟩ := hI.consumed lock user codeVerifier hx
      exact ⟨readAt, hlog _ hx⟩
    · cases he
    · cases he
    · cases he
      rw [check_some hc] at hp
      obtain ⟨readAt, hx⟩ := hp
      exact ⟨readAt, hlog _ hx⟩
    · cases he
  case saved =>
    intro lock user codeVerifier hx
    rcases h.of_mem_log hx with
      hx | ⟨_, -, -, he, -⟩ | ⟨_, _, _, _, -, he, -⟩ | ⟨_, _, _, _, -, -, he⟩ | ⟨_, _, _, rfl, he⟩
    · exact hlog _ (hI.saved lock user codeVerifier hx)
    · cases he
    · cases he
    · cases he
    · cases he
      exact hlog _ hp

/-- What `get` finds is in the cache, and has not expired. -/
theorem get_some {state : String} {now : Time} {pending : Pending} (h : get state now s = some pending) :
    ∃ expiresAt, ⟨state, pending, expiresAt⟩ ∈ s.cache ∧ now < expiresAt := by
  obtain ⟨entry, he, rfl⟩ := Option.map_eq_some_iff.mp h
  have hq := List.find?_some he
  simp only [Bool.and_eq_true, beq_iff_eq, decide_eq_true_eq] at hq
  obtain ⟨rfl, hlt⟩ := hq
  exact ⟨entry.expiresAt, List.mem_of_find?_eq_some he, hlt⟩

theorem Hand.next (hI : Inv s) (hp : Hand s p) (hq : (act s p e).2 = some q) : Hand (act s p e).1 q := by
  cases p with
  | redirect => cases hq
  | callback user state error =>
    cases error with
    | some error => cases hq
    | none =>
      simp only [act] at hq
      split at hq <;> cases hq
      trivial
  | get user lock =>
    simp only [act] at hq ⊢
    split at hq <;> cases hq
    · rename_i pending _ hg
      obtain ⟨expiresAt, hmem, hlt⟩ := get_some hg
      exact ⟨expiresAt, hI.cached _ hmem, hlt⟩
    · trivial
  | forget user lock pending readAt =>
    simp only [act] at hq ⊢
    split at hq <;> cases hq
    · rename_i hr
      rw [if_pos hr]
      exact ⟨readAt, List.mem_append_right _ (List.mem_singleton_self _)⟩
    · trivial
  | release user lock value =>
    cases hq
    cases value with
    | none => trivial
    | some pending => exact hp
  | check user lock value =>
    simp only [act] at hq ⊢
    split at hq <;> cases hq
    exact List.mem_append_right _ (List.mem_singleton_self _)
  | authorize user lock codeVerifier =>
    simp only [act, Option.ite_none_right_eq_some, Option.some.injEq] at hq
    obtain ⟨-, rfl⟩ := hq
    exact hp
  | saveTokens user lock codeVerifier =>
    simp only [act] at hq
    split at hq <;> cases hq

theorem Inv.clock (h : Inv s) (now : Time) : Inv { s with now } := ⟨h.cached, h.pulled, h.consumed, h.saved⟩

theorem outline : Outline program (fun _ _ _ => True) Inv Hand where
  entry s p _ hp := by
    cases p <;> trivial
  move s p e s' k hI hA _ h := by
    obtain ⟨-, heff, rfl, rfl⟩ := moved h
    exact ⟨(hI.effect hA heff).clock e.now, fun q hq => (hA.next hI hq).mono fun _ hx => hx⟩
  frame s p e s' k q _ _ _ h hq := by
    obtain ⟨-, heff, rfl, -⟩ := moved h
    exact hq.mono fun _ hx => heff.mem_log hx

theorem start_holds : Holds Inv Hand start := by
  have none {α : Type} {x : α} {P : Prop} (h : x ∈ ([] : List α)) : P := absurd h List.not_mem_nil
  exact ⟨⟨fun _ => none, fun _ _ _ => none, fun _ _ _ => none, fun _ _ _ => none⟩, fun _ => none⟩

variable {tr : List (Step Store Point Input)} {c : Config Store Point}

/-- An entry has been stored by the redirect of its user. -/
theorem redirect_of_stored (h : program.Run start tr c) {entry' : Entry} (hx : .stored entry' ∈ c.store.log) :
    ∃ st ∈ tr, ∃ e, st.Fires (.redirect entry'.pending.userId) e ∧ entry' = entry entry'.pending.userId e := by
  induction h with
  | nil => exact absurd hx List.not_mem_nil
  | @snoc tr c c' a hr hs ih =>
    have older (hx : .stored entry' ∈ c.store.log) : ∃ st ∈ tr ++ [⟨c, a, c'⟩], ∃ e,
        st.Fires (.redirect entry'.pending.userId) e ∧ entry' = entry entry'.pending.userId e := by
      obtain ⟨st, hst, h⟩ := ih hx
      exact ⟨st, List.mem_append_left _ hst, h⟩
    rcases program.step_store hs with he | ⟨p, e, k, hf, hm⟩
    · exact older (he ▸ hx)
    · obtain ⟨-, heff, he, -⟩ := moved hm
      rw [he] at hx
      rcases heff.of_mem_log hx with
        hx | ⟨user, rfl, -, he, -⟩ | ⟨_, _, _, _, -, he, -⟩ | ⟨_, _, _, _, -, -, he⟩ | ⟨_, _, _, -, he⟩
      · exact older hx
      · cases he
        exact ⟨_, List.mem_append_right _ (List.mem_singleton_self _), e, hf, rfl⟩
      · cases he
      · cases he
      · cases he

/-- A connection is saved for the user who asked for it, by the state and the verifier of
that request, which was read before it expired. -/
theorem connection_is_own (h : program.Run start tr c) {lock : CallbackLock} {user : ℕ} {codeVerifier : String}
    (hx : .saved lock user codeVerifier ∈ c.store.log) :
    ∃ st ∈ tr, ∃ e readAt, st.Fires (.redirect user) e ∧ e.state = lock.state ∧ e.codeVerifier = codeVerifier ∧
      .pulled lock ⟨user, codeVerifier⟩ readAt ∈ c.store.log ∧ readAt < e.now + minutes verifierTtlMinutes := by
  have hI := (outline.run start_holds h fun _ _ _ _ _ => trivial).1
  obtain ⟨readAt, hp⟩ := hI.consumed _ _ _ (hI.saved _ _ _ hx)
  obtain ⟨expiresAt, hs, hlt⟩ := hI.pulled _ _ _ hp
  obtain ⟨st, hst, e, hf, he⟩ := redirect_of_stored h hs
  simp only [entry, Entry.mk.injEq, Pending.mk.injEq, true_and] at he
  obtain ⟨hstate, hverifier, hexpires⟩ := he
  exact ⟨st, hst, e, readAt, hf, hstate.symm, hverifier.symm, hp, hexpires ▸ hlt⟩

namespace Sample

def input (n : ℕ) : Input := ⟨seconds n, "", "", true⟩

/-- User 3 asks for an authorization, and Zoom's answer comes back after a minute. -/
def redirect : List (Act Point Input) :=
  [.arrive (.redirect 3), .move 0 ⟨0, "s1", "v1", true⟩]

def callback : List (Act Point Input) :=
  .arrive (.callback 3 "s1" none) :: List.replicate 7 (.move 0 (input 60))

/-- A second callback of the state takes the lock when the first one has released it, and
finds nothing. -/
def race : List (Act Point Input) :=
  [.arrive (.callback 3 "s1" none), .move 0 (input 60), .arrive (.callback 3 "s1" none), .move 0 (input 61),
    .move 0 (input 62), .move 0 (input 63), .move 1 (input 63), .move 1 (input 63), .move 1 (input 64),
    .move 1 (input 64), .move 0 (input 65)]

end Sample

theorem connection_is_own_saved : ∃ tr c lock, program.Run start tr c ∧ .saved lock 3 "v1" ∈ c.store.log ∧
    ∃ st ∈ tr, ∃ e readAt, st.Fires (.redirect 3) e ∧ e.state = lock.state ∧ e.codeVerifier = "v1" ∧
      .pulled lock ⟨3, "v1"⟩ readAt ∈ c.store.log ∧ readAt < e.now + minutes verifierTtlMinutes := by
  obtain ⟨tr, c, h, hq⟩ := program.exists_run_of_replay (Sample.redirect ++ Sample.callback) (c := start)
    (q := fun _ c => c.store.log.contains (.saved ⟨"s1", 0, seconds 65⟩ 3 "v1")) (by decide +kernel)
  have hx := List.contains_iff_mem.mp hq
  exact ⟨tr, c, _, h, hx, connection_is_own h hx⟩

/-! ### Once -/

/-- A callback forgets the entry while its lock is in force. -/
def InTime (_ : Store) (p : Point) (e : Input) : Prop :=
  match p with
  | .forget _ lock _ _ => e.now < lock.expiresAt
  | _ => True

instance (s : Store) (p : Point) (e : Input) : Decidable (InTime s p e) := by
  unfold InTime
  split <;> infer_instance

def Event.pulledLock : Event → Option CallbackLock
  | .pulled lock _ _ => some lock
  | _ => none

def Event.consumedLock : Event → Option CallbackLock
  | .consumed lock _ _ => some lock
  | _ => none

/-- The locks under which an entry was pulled, or consumed. -/
def pulls (s : Store) : List CallbackLock := s.log.filterMap Event.pulledLock
def consumptions (s : Store) : List CallbackLock := s.log.filterMap Event.consumedLock

/-- The lock of a callback that has not consumed its entry yet. -/
def Point.holder : Point → Option CallbackLock
  | .get _ lock | .forget _ lock _ _ | .release _ lock _ | .check _ lock _ => some lock
  | _ => none

/-- The lock that a callback relies on. -/
def Point.relies : Point → Option CallbackLock
  | .get _ lock | .forget _ lock _ _ => some lock
  | _ => none

structure Once (s : Store) : Prop where
  locks : (s.locks.map (·.state)).Nodup
  owners : ∀ lock ∈ s.locks, lock.owner < s.nextOwner
  pulled : ∀ lock ∈ pulls s, lock.state ∈ s.drawn ∧ ∀ entry ∈ s.cache, entry.state ≠ lock.state
  cached : ∀ entry ∈ s.cache, entry.state ∈ s.drawn
  consumed : ∀ lock ∈ consumptions s, lock.owner < s.nextOwner
  nodupPulls : ((pulls s).map (·.state)).Nodup
  nodupConsumptions : ((consumptions s).map (·.owner)).Nodup

/-- What a callback relies on while its lock is in force. -/
structure Relies (s : Store) (p : Point) : Prop where
  owner : ∀ lock, p.holder = some lock → lock.owner < s.nextOwner ∧ ∀ lock' ∈ consumptions s, lock'.owner ≠ lock.owner
  lock : ∀ lock, p.relies = some lock → s.now < lock.expiresAt → lock ∈ s.locks
  unpulled : ∀ user lock pending readAt, p = .forget user lock pending readAt → s.now < lock.expiresAt →
    lock.state ∈ s.drawn ∧ ∀ lock' ∈ pulls s, lock'.state ≠ lock.state

def Distinct (p q : Point) : Prop :=
  ∀ lock lock', p.holder = some lock → q.holder = some lock' → lock.owner ≠ lock'.owner

theorem Effect.pulls_eq (h : Effect s p e s') : pulls s' = pulls s ∨
    ∃ user lock pending readAt, p = .forget user lock pending readAt ∧ s' = pull lock pending readAt s ∧
      pulls s' = pulls s ++ [lock] := by
  cases h with
  | pulled user lock pending readAt hp =>
    exact .inr ⟨user, lock, pending, readAt, hp, rfl, by simp [pulls, pull, Event.pulledLock]⟩
  | stored | consumed | saved => exact .inl (by simp [pulls, store, Event.pulledLock])
  | idle | forgot | acquired | released => exact .inl rfl

theorem Effect.consumptions_eq (h : Effect s p e s') : consumptions s' = consumptions s ∨
    ∃ user lock value, p = .check user lock value ∧ consumptions s' = consumptions s ++ [lock] := by
  cases h with
  | consumed user lock value _ hp _ => exact .inr ⟨user, lock, value, hp, by simp [consumptions, Event.consumedLock]⟩
  | stored | pulled | saved => exact .inl (by simp [consumptions, store, pull, Event.consumedLock])
  | idle | forgot | acquired | released => exact .inl rfl

theorem Effect.nextOwner_le (h : Effect s p e s') : s.nextOwner ≤ s'.nextOwner := by
  cases h with
  | acquired => exact Nat.le_succ s.nextOwner
  | _ => exact le_rfl

theorem Effect.drawn (h : Effect s p e s') {state : String} (hs : state ∈ s.drawn) : state ∈ s'.drawn := by
  cases h with
  | stored => exact List.mem_cons_of_mem _ hs
  | _ => exact hs

/-- A lock in force is there until its owner releases it. -/
theorem Effect.mem_locks (h : Effect s p e s') {lock : CallbackLock} (hl : lock ∈ s.locks)
    (hnow : e.now < lock.expiresAt)
    (hp : ∀ user lock' value, p = .release user lock' value → lock'.owner ≠ lock.owner) : lock ∈ s'.locks := by
  cases h with
  | acquired user state _ hf =>
    refine List.mem_cons_of_mem _ (List.mem_filter.mpr ⟨hl, bne_iff_ne.mpr fun hs => ?_⟩)
    simp only [free, Bool.not_eq_true', List.any_eq_false, Bool.and_eq_true, beq_iff_eq, decide_eq_true_eq,
      not_and] at hf
    exact hf lock hl hs hnow
  | released user lock' value hp' =>
    have hne := hp user lock' value hp'
    refine List.mem_filter.mpr ⟨hl, ?_⟩
    simp [hne.symm]
  | idle | stored | forgot | pulled | consumed | saved => exact hl

theorem Effect.nodup_locks (h : Effect s p e s') (hd : (s.locks.map (·.state)).Nodup) :
    (s'.locks.map (·.state)).Nodup := by
  cases h with
  | acquired user state _ _ =>
    refine List.nodup_cons.mpr ⟨fun hmem => ?_, hd.sublist (List.filter_sublist.map _)⟩
    obtain ⟨lock, hl, hs⟩ := List.mem_map.mp hmem
    exact bne_iff_ne.mp (List.mem_filter.mp hl).2 hs
  | released => exact hd.sublist (List.filter_sublist.map _)
  | idle | stored | forgot | pulled | consumed | saved => exact hd

theorem Effect.owners (h : Effect s p e s') (ho : ∀ lock ∈ s.locks, lock.owner < s.nextOwner) :
    ∀ lock ∈ s'.locks, lock.owner < s'.nextOwner := by
  intro lock hl
  have hle := h.nextOwner_le
  cases h with
  | acquired user state _ _ =>
    rcases List.mem_cons.mp hl with rfl | hl
    · exact Nat.lt_succ_self s.nextOwner
    · exact (ho lock (List.mem_filter.mp hl).1).trans_le hle
  | released => exact ho lock (List.mem_filter.mp hl).1
  | idle | stored | forgot | pulled | consumed | saved => exact ho lock hl

theorem Once.effect (hO : Once s) (hR : Relies s p) (hok : InTime s p e) (hnow : s.now ≤ e.now)
    (h : Effect s p e s') : Once s' := by
  constructor
  case locks => exact h.nodup_locks hO.locks
  case owners => exact h.owners hO.owners
  case pulled =>
    intro lock hl
    have older (hl : lock ∈ pulls s) : lock.state ∈ s'.drawn ∧ ∀ entry ∈ s'.cache, entry.state ≠ lock.state := by
      obtain ⟨hd, hc⟩ := hO.pulled lock hl
      refine ⟨h.drawn hd, fun entry he => ?_⟩
      cases h with
      | stored user _ hnew =>
        rcases List.mem_cons.mp he with rfl | he
        · intro hs
          have hs : e.state = lock.state := hs
          exact hnew (hs ▸ hd)
        · exact hc entry (List.mem_filter.mp he).1
      | forgot | pulled => exact hc entry (List.mem_filter.mp he).1
      | idle | acquired | released | consumed | saved => exact hc entry he
    rcases h.pulls_eq with he | ⟨user, lock', pending, readAt, rfl, rfl, he⟩
    · exact older (he ▸ hl)
    · rw [he] at hl
      rcases List.mem_append.mp hl with hl | hl
      · exact older hl
      · rw [List.mem_singleton.mp hl]
        have hd := (hR.unpulled user lock' pending readAt rfl (hnow.trans_lt hok)).1
        exact ⟨hd, fun entry he => bne_iff_ne.mp (List.mem_filter.mp he).2⟩
  case cached =>
    intro entry he
    cases h with
    | stored user _ _ =>
      rcases List.mem_cons.mp he with rfl | he
      · exact List.mem_cons_self
      · exact List.mem_cons_of_mem _ (hO.cached entry (List.mem_filter.mp he).1)
    | forgot | pulled => exact hO.cached entry (List.mem_filter.mp he).1
    | idle | acquired | released | consumed | saved => exact hO.cached entry he
  case consumed =>
    intro lock hl
    refine Nat.lt_of_lt_of_le ?_ h.nextOwner_le
    rcases h.consumptions_eq with he | ⟨user, lock', value, rfl, he⟩
    · exact hO.consumed lock (he ▸ hl)
    · rw [he] at hl
      rcases List.mem_append.mp hl with hl | hl
      · exact hO.consumed lock hl
      · rw [List.mem_singleton.mp hl]
        exact (hR.owner lock' rfl).1
  case nodupPulls =>
    rcases h.pulls_eq with he | ⟨user, lock, pending, readAt, rfl, -, he⟩
    · rw [he]
      exact hO.nodupPulls
    · have hne := (hR.unpulled user lock pending readAt rfl (hnow.trans_lt hok)).2
      rw [he, List.map_append, List.map_singleton]
      refine List.nodup_append.mpr ⟨hO.nodupPulls, List.nodup_singleton _, fun a ha b hb hab => ?_⟩
      obtain ⟨lock', hl, rfl⟩ := List.mem_map.mp ha
      exact hne lock' hl (hab.trans (List.mem_singleton.mp hb))
  case nodupConsumptions =>
    rcases h.consumptions_eq with he | ⟨user, lock, value, rfl, he⟩
    · rw [he]
      exact hO.nodupConsumptions
    · have hne := (hR.owner lock rfl).2
      rw [he, List.map_append, List.map_singleton]
      refine List.nodup_append.mpr ⟨hO.nodupConsumptions, List.nodup_singleton _, fun a ha b hb hab => ?_⟩
      obtain ⟨lock', hl, rfl⟩ := List.mem_map.mp ha
      exact hne lock' hl (hab.trans (List.mem_singleton.mp hb))

/-- What another callback relies on stays. -/
theorem Relies.frame (hO : Once s) (hp : Relies s p) (hq : Relies s q) (hd : Distinct p q) (hok : InTime s p e)
    (hnow : s.now ≤ e.now) (h : Effect s p e s') : Relies { s' with now := e.now } q where
  owner lock hl := by
    obtain ⟨hlt, hne⟩ := hq.owner lock hl
    refine ⟨hlt.trans_le h.nextOwner_le, fun lock' hl' => ?_⟩
    rcases h.consumptions_eq with he | ⟨user, lock₁, value, rfl, he⟩
    · exact hne lock' (he ▸ hl')
    · have hl' : lock' ∈ consumptions s ++ [lock₁] := he ▸ hl'
      rcases List.mem_append.mp hl' with hl' | hl'
      · exact hne lock' hl'
      · rw [List.mem_singleton.mp hl']
        exact hd lock₁ lock rfl hl
  lock lock hl hlt := by
    refine h.mem_locks (hq.lock lock hl (hnow.trans_lt hlt)) hlt fun user lock' value hr => ?_
    have hq' : q.holder = some lock := by
      cases q <;> first | exact hl | cases hl
    exact hd lock' lock (by rw [hr]; rfl) hq'
  unpulled user lock pending readAt hf hlt := by
    obtain ⟨hdrawn, hne⟩ := hq.unpulled user lock pending readAt hf (hnow.trans_lt hlt)
    refine ⟨h.drawn hdrawn, fun lock' hl' => ?_⟩
    rcases h.pulls_eq with he | ⟨user₁, lock₁, pending₁, readAt₁, rfl, -, he⟩
    · exact hne lock' (he ▸ hl')
    · have hl' : lock' ∈ pulls s ++ [lock₁] := he ▸ hl'
      rcases List.mem_append.mp hl' with hl' | hl'
      · exact hne lock' hl'
      · rw [List.mem_singleton.mp hl']
        subst hf
        -- Both locks are in force, so they are of different states.
        have h₁ := hp.lock lock₁ rfl (hnow.trans_lt hok)
        have h₂ := hq.lock lock rfl (hnow.trans_lt hlt)
        intro hs
        exact hd lock₁ lock rfl rfl (congrArg CallbackLock.owner (List.inj_on_of_nodup_map hO.locks h₁ h₂ hs))

/-- A callback goes on with its lock, or has just taken it. -/
theorem holder_next (hq : (act s p e).2 = some q) {lock : CallbackLock} (hl : q.holder = some lock) :
    p.holder = some lock ∨ p.holder = none ∧ lock.owner = s.nextOwner ∧
      (act s p e).1.nextOwner = s.nextOwner + 1 ∧ consumptions (act s p e).1 = consumptions s := by
  cases p with
  | redirect => cases hq
  | callback user state error =>
    cases error with
    | some error => cases hq
    | none =>
      simp only [act] at hq ⊢
      split at hq <;> cases hq
      rename_i hf
      cases hl
      rw [if_pos hf]
      exact .inr ⟨rfl, rfl, rfl, rfl⟩
  | get user lock' =>
    simp only [act] at hq
    split at hq <;> cases hq <;> exact .inl hl
  | forget user lock' pending readAt =>
    simp only [act] at hq
    split at hq <;> cases hq <;> exact .inl hl
  | release => cases hq; exact .inl hl
  | check user lock' value =>
    simp only [act] at hq
    split at hq <;> cases hq
    cases hl
  | authorize user lock' codeVerifier =>
    simp only [act, Option.ite_none_right_eq_some, Option.some.injEq] at hq
    obtain ⟨-, rfl⟩ := hq
    cases hl
  | saveTokens user lock' codeVerifier =>
    simp only [act] at hq
    split at hq <;> cases hq

/-- A callback comes to rely on a lock by taking it, and then by reading the entry. -/
theorem relies_next (hq : (act s p e).2 = some q) {lock : CallbackLock} (hl : q.relies = some lock) :
    lock ∈ (act s p e).1.locks ∧ (∃ user, q = .get user lock) ∨
    (act s p e).1 = s ∧ p.relies = some lock ∧ ∃ user pending expiresAt, q = .forget user lock pending e.now ∧
      ⟨lock.state, pending, expiresAt⟩ ∈ s.cache := by
  cases p with
  | redirect => cases hq
  | callback user state error =>
    cases error with
    | some error => cases hq
    | none =>
      simp only [act] at hq ⊢
      split at hq <;> cases hq
      rename_i hf
      cases hl
      rw [if_pos hf]
      exact .inl ⟨List.mem_cons_self, user, rfl⟩
  | get user lock' =>
    simp only [act] at hq ⊢
    split at hq <;> cases hq <;> cases hl
    rename_i pending _ hg
    obtain ⟨expiresAt, hmem, -⟩ := get_some hg
    exact .inr ⟨rfl, rfl, user, pending, expiresAt, rfl, hmem⟩
  | forget user lock' pending readAt =>
    simp only [act] at hq
    split at hq <;> cases hq <;> cases hl
  | release => cases hq; cases hl
  | check user lock' value =>
    simp only [act] at hq
    split at hq <;> cases hq
    cases hl
  | authorize user lock' codeVerifier =>
    simp only [act, Option.ite_none_right_eq_some, Option.some.injEq] at hq
    obtain ⟨-, rfl⟩ := hq
    cases hl
  | saveTokens user lock' codeVerifier =>
    simp only [act] at hq
    split at hq <;> cases hq

/-- A callback relies on what it has made sure of. -/
theorem Relies.next (hO : Once s) (hp : Relies s p) (hnow : s.now ≤ e.now) (heff : Effect s p e (act s p e).1)
    (hq : (act s p e).2 = some q) : Relies { (act s p e).1 with now := e.now } q where
  owner lock hl := by
    rcases holder_next hq hl with hpl | ⟨-, ho, hnext, hc⟩
    · obtain ⟨hlt, hne⟩ := hp.owner lock hpl
      refine ⟨hlt.trans_le heff.nextOwner_le, fun lock' hl' => ?_⟩
      rcases heff.consumptions_eq with he | ⟨user, lock₁, value, rfl, -⟩
      · exact hne lock' (he ▸ hl')
      · simp only [act] at hq
        split at hq <;> cases hq
        cases hl
    · refine ⟨?_, fun lock' hl' => ?_⟩
      · rw [ho]
        exact hnext.symm ▸ Nat.lt_succ_self s.nextOwner
      · have hl' : lock' ∈ consumptions s := hc ▸ hl'
        exact ho ▸ (hO.consumed lock' hl').ne
  lock lock hl hlt := by
    rcases relies_next hq hl with ⟨hmem, -⟩ | ⟨hs, hpl, -⟩
    · exact hmem
    · rw [hs]
      exact hp.lock lock hpl (hnow.trans_lt hlt)
  unpulled user lock pending readAt hf _ := by
    subst hf
    rcases relies_next hq rfl with ⟨-, user', he⟩ | ⟨hs, -, user', pending', expiresAt, -, hmem⟩
    · cases he
    · rw [hs]
      exact ⟨hO.cached _ hmem, fun lock' hl' => ((hO.pulled lock' hl').2 _ hmem).symm⟩

theorem holder_of_entry (h : program.entry p = true) : p.holder = none := by
  cases p <;> first | rfl | exact absurd h Bool.false_ne_true

theorem relies_of_holder (h : p.holder = none) : Relies s p where
  owner lock hl := by cases h.symm.trans hl
  lock lock hl := by
    have hh : p.holder = some lock := by
      cases p <;> first | exact hl | cases hl
    cases h.symm.trans hh
  unpulled user lock pending readAt hf := by
    rw [hf] at h
    cases h

theorem Once.clock (h : Once s) (now : Time) : Once { s with now } :=
  ⟨h.locks, h.owners, h.pulled, h.cached, h.consumed, h.nodupPulls, h.nodupConsumptions⟩

theorem once_outline : ApartOutline (program.restrict InTime) (fun s => Inv s ∧ Once s)
    (fun s p => Hand s p ∧ Relies s p) Distinct where
  symm p q h lock lock' hl hl' := (h lock' lock hl' hl).symm
  entry s p h hp := ⟨outline.entry s p h.1 hp, relies_of_holder (holder_of_entry hp)⟩
  arrive s p q _ hp _ lock lock' hl _ := by
    cases (holder_of_entry hp).symm.trans hl
  move s p e s' k h hA hm := by
    obtain ⟨hok, hm⟩ := Program.restrict_move.mp hm
    obtain ⟨hI, hnext⟩ := outline.move s p e s' k h.1 hA.1 trivial hm
    obtain ⟨hnow, heff, rfl, rfl⟩ := moved hm
    exact ⟨⟨hI, (h.2.effect hA.2 hok hnow heff).clock e.now⟩,
      fun q hq => ⟨hnext q hq, hA.2.next h.2 hnow heff hq⟩⟩
  goOn s p e s' p' q h hA hq hB hm lock lock' hl hl' := by
    obtain ⟨-, hm⟩ := Program.restrict_move.mp hm
    obtain ⟨-, -, -, hk⟩ := moved hm
    rcases holder_next hk.symm hl with hpl | ⟨-, ho, -, -⟩
    · exact hB lock lock' hpl hl'
    · exact ho ▸ (hq.2.owner lock' hl').1.ne'
  frame s p e s' k q h hA hq hB hm := by
    obtain ⟨hok, hm⟩ := Program.restrict_move.mp hm
    refine ⟨outline.frame s p e s' k q h.1 hA.1 trivial hm hq.1, ?_⟩
    obtain ⟨hnow, heff, rfl, -⟩ := moved hm
    exact Relies.frame h.2 hA.2 hq.2 hB hok hnow heff

/-- If no callback outlives its lock before it has forgotten the entry, the entry of a
state is consumed once. -/
theorem verifier_consumed_once (h : program.Run start tr c) (hok : ∀ st ∈ tr, st.Meets InTime) :
    ((consumptions c.store).map (·.state)).Nodup := by
  have none {α : Type} {x : α} {P : Prop} (h : x ∈ ([] : List α)) : P := absurd h List.not_mem_nil
  have hstart : Holds (fun s => Inv s ∧ Once s) (fun s p => Hand s p ∧ Relies s p) start :=
    ⟨⟨start_holds.1, ⟨List.nodup_nil, fun _ => none, fun _ => none, fun _ => none, fun _ => none, List.nodup_nil,
      List.nodup_nil⟩⟩, fun _ => none⟩
  have hapart : Apart Distinct start.procs := fun i j p q _ hp _ => by cases hp
  obtain ⟨hI, hO⟩ := (once_outline.run hstart hapart (h.restrict hok)).1.1
  have hpulled : ∀ lock ∈ consumptions c.store, lock ∈ pulls c.store := by
    intro lock hl
    obtain ⟨x, hx, he⟩ := List.mem_filterMap.mp hl
    cases x with
    | consumed lock' user codeVerifier =>
      cases he
      obtain ⟨readAt, hp⟩ := hI.consumed _ _ _ hx
      exact List.mem_filterMap.mpr ⟨_, hp, rfl⟩
    | stored | pulled | saved => cases he
  refine (List.Nodup.of_map _ hO.nodupConsumptions).map_on fun lock hl lock' hl' hs => ?_
  exact List.inj_on_of_nodup_map hO.nodupPulls (hpulled lock hl) (hpulled lock' hl') hs

/-- Two callbacks bring the same state, one after the other. -/
theorem verifier_consumed_once_race : ∃ tr c, program.Run start tr c ∧
    tr.countP (fun st => decide (∃ p ∈ st.mover, p.holder.isSome = true)) = 7 ∧ (consumptions c.store).length = 1 ∧
    ((consumptions c.store).map (·.state)).Nodup := by
  obtain ⟨tr, c, h, hq⟩ := program.exists_run_of_replay (Sample.redirect ++ Sample.race) (c := start)
    (q := fun tr c => tr.all (fun st => decide (st.Meets InTime)) &&
      tr.countP (fun st => decide (∃ p ∈ st.mover, p.holder.isSome = true)) == 7 &&
      (consumptions c.store).length == 1) (by decide +kernel)
  simp only [Bool.and_eq_true, List.all_eq_true, decide_eq_true_eq, beq_iff_eq] at hq
  exact ⟨tr, c, h, hq.1.2, hq.2, verifier_consumed_once h hq.1.1⟩

end Authorization
end Daywright
