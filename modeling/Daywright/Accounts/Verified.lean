/-
# The password of a verified account

An account can be registered by anyone for any address; only its password logs into it,
and it stays unverified until the owner of the address opens a signed link while logged
in as that user (`VerifyEmailService`). An OAuth login finds the account of the address
that the provider asserts, or creates one with a random password, and marks it verified
(`UpsertOAuthUserAction`); it keeps the password that is there, whoever chose it. A hash
does not tell all passwords apart: bcrypt reads the first 72 bytes of a password, and
nothing keeps a password from being longer.

So the passwords of a verified account were chosen by somebody who controls its address
exactly as long as no OAuth login verifies an account that somebody else has registered,
and no link verifies one that opens with somebody else's password as well
(`verified_safe_iff`). There are runs with the one and with the other
(`registered_by_another`).

The provider asserts only addresses that its user controls, and a signed link reaches
only those who control the address; a principal logs in with passwords of its own
choice. Two-factor codes, which can only keep a login from succeeding, play no part.

Key definitions: `User`, `UpsertOAuthUserAction.execute`, `VerifyEmailService.verify`, `Safe`, `TakesOver`,
`Shares`.
Key theorem: `verified_safe_iff`.
-/
import Daywright.Interleave
import Daywright.Table
import Daywright.Zoom

namespace Daywright
namespace Accounts

open Interleave

/-- Password hashes: a password fits the hashes of passwords that look the same. -/
structure Hashing where
  make : String → ℕ → String
  check : String → String → Bool
  /-- What is read of a password. -/
  seen : String → List UInt8
  check_make : ∀ w w' salt, check w (make w' salt) = true ↔ seen w = seen w'

/-- The principals, and what the application calls. -/
structure Env where
  /-- The principal controls the address. -/
  controls : ℕ → String → Bool
  /-- The principal has chosen the password. -/
  chose : ℕ → String → Bool
  hash : Hashing
  /-- What `Str::random(50)` draws looks like nobody's choice. -/
  random : ℕ → String
  random_unchosen : ∀ n a w, hash.seen w = hash.seen (random n) → chose a w = false
  /-- How the database compares addresses. -/
  sameEmail : String → String → Bool
  sha256 : String → String
  sha1 : String → String

structure User where
  id : ℕ
  email : String
  password : String
  emailVerifiedAt : Option Time
  name : String
  username : Option String
  avatarPath : Option String
  oauthId : Option String
  oauthProvider : Option String
  oauthToken : Option String
  oauthRefreshToken : Option String
  deriving DecidableEq

structure RegisterUserData where
  name : String
  email : String
  password : String

/-- What the provider tells of its user. -/
structure SocialiteUser where
  id : String
  email : Option String
  name : Option String
  nickname : Option String
  avatar : Option String
  token : String
  refreshToken : Option String

/-- The accounts, and the sessions: which principal is logged in as which user. -/
structure Store where
  users : List User
  sessions : List (ℕ × ℕ)
  nextId : ℕ

/-- A request of a principal. -/
inductive Request where
  | register (a : ℕ) (data : RegisterUserData)
  | login (a : ℕ) (email password : String)
  /-- Logged in as `authenticatedUser`, the principal opens a link to verify `user`. -/
  | verify (a authenticatedUser user : ℕ) (hasValidSignature : Bool) (hash : String)
  | oauth (a : ℕ) (oAuthUser : SocialiteUser) (provider : String)

/-- The time, and what is drawn for a hash and for a random password. -/
structure Input where
  now : Time
  salt : ℕ
  draw : ℕ

variable (E : Env)

def Store.findByEmail (s : Store) (email : String) : Option User := s.users.find? fun u => E.sameEmail u.email email

def Store.find (s : Store) (id : ℕ) : Option User := s.users.find? fun u => u.id == id

def Store.save (s : Store) (user : User) : Store :=
  { s with users := Table.updateWhere (fun u => u.id == user.id) (fun _ => user) s.users }

def Store.insert (s : Store) (user : User) : Store :=
  { s with users := s.users ++ [user], nextId := s.nextId + 1 }

/-- The principal is logged in as the user. -/
def Store.performSessionLogin (s : Store) (a user : ℕ) : Store := { s with sessions := s.sessions ++ [(a, user)] }

/-- A registered account is not verified. -/
def RegisterUserService.register (s : Store) (data : RegisterUserData) (e : Input) : Store :=
  s.insert {
    id := s.nextId
    email := data.email
    password := E.hash.make data.password e.salt
    emailVerifiedAt := none
    name := data.name
    username := none
    avatarPath := none
    oauthId := none
    oauthProvider := none
    oauthToken := none
    oauthRefreshToken := none }

def VerifyEmailService.matchesVerificationHash (user : User) (hash : String) : Bool :=
  E.sha256 user.email == hash || E.sha1 user.email == hash

def VerifyEmailService.verify (user : User) (authenticatedUser : ℕ) (hasValidSignature : Bool) (hash : String)
    (e : Input) : Except String User :=
  if !hasValidSignature || !(authenticatedUser == user.id) || !matchesVerificationHash E user hash then
    .error "verification.invalid"
  else if user.emailVerifiedAt.isSome then .error "verification.already_verified"
  else .ok { user with emailVerifiedAt := some e.now }

/-- The values that an OAuth login gives the account `row`; `user` is the account that
was found, if one was. -/
def UpsertOAuthUserAction.values (oAuthUser : SocialiteUser) (provider : String) (e : Input) (user : Option User)
    (row : User) : User :=
  { row with
    name := (user.map (·.name)).getD (oAuthUser.name.getD "")
    password := (user.map (·.password)).getD (E.hash.make (E.random e.draw) e.salt)
    username := (user.bind (·.username)).or oAuthUser.nickname
    oauthId := some oAuthUser.id
    oauthProvider := some provider
    emailVerifiedAt := some ((user.bind (·.emailVerifiedAt)).getD e.now)
    avatarPath := (user.bind (·.avatarPath)).or oAuthUser.avatar
    oauthToken := some oAuthUser.token
    oauthRefreshToken := oAuthUser.refreshToken }

/-- A new account before it has its values. -/
def blank (id : ℕ) (email : String) : User := ⟨id, email, "", none, "", none, none, none, none, none, none⟩

/-- The store, and the account that is logged into; an account has an address. -/
def UpsertOAuthUserAction.execute (s : Store) (oAuthUser : SocialiteUser) (provider : String) (e : Input) :
    Option (Store × ℕ) :=
  match oAuthUser.email with
  | none => none
  | some email =>
    match s.findByEmail E email with
    | some user => some (s.save (values E oAuthUser provider e (some user) user), user.id)
    | none => some (s.insert (values E oAuthUser provider e none (blank s.nextId email)), s.nextId)

/-- What a request does; `none` if the principal cannot make it. -/
def handle (s : Store) (q : Request) (e : Input) : Option Store :=
  match q with
  | .register a data =>
    if !E.chose a data.password then none
    else if (s.findByEmail E data.email).isSome then some s
    else some (RegisterUserService.register E s data e)
  | .login a email password =>
    if !E.chose a password then none
    else
      match s.findByEmail E email with
      | none => some s
      | some user => if E.hash.check password user.password then some (s.performSessionLogin a user.id) else some s
  | .verify a authenticatedUser user hasValidSignature hash =>
    match s.find user with
    | none => some s
    | some user =>
      -- Links are sent to the address of the account.
      if !s.sessions.contains (a, authenticatedUser) || (hasValidSignature && !E.controls a user.email) then none
      else
        match VerifyEmailService.verify E user authenticatedUser hasValidSignature hash e with
        | .error _ => some s
        | .ok user => some (s.save user)
  | .oauth a oAuthUser provider =>
    if !oAuthUser.email.all fun email => E.controls a email then none
    else
      match UpsertOAuthUserAction.execute E s oAuthUser provider e with
      | none => some s
      | some (s, user) => some (s.performSessionLogin a user)

/-- One request is handled after the other. -/
def program : Program Store Request Input where
  entry _ := true
  move s q e := (handle E s q e).map fun s' => (s', none)

/-! ### Who chose a password -/

/-- Whoever logs into the account by a password has a password that somebody chose who
controls the address, or that nobody chose. -/
def Safe (u : User) : Prop :=
  ∀ w, E.hash.check w u.password = true →
    (∃ a, E.chose a w = true ∧ E.controls a u.email = true) ∨ ∀ a, E.chose a w = false

/-- The property: verified accounts are safe. -/
def VerifiedSafe (s : Store) : Prop := ∀ u ∈ s.users, u.emailVerifiedAt.isSome = true → Safe E u

/-- The OAuth login verifies an account that is not safe. -/
def TakesOver (s : Store) (q : Request) : Prop :=
  ∃ a o provider email u, q = .oauth a o provider ∧ o.email = some email ∧ s.findByEmail E email = some u ∧
    u.emailVerifiedAt = none ∧ ¬ Safe E u

/-- Somebody chose a password of the account who controls its address, and another one is
the choice of others only. -/
def Shared (u : User) : Prop :=
  ∃ w w', E.hash.check w u.password = true ∧ E.hash.check w' u.password = true ∧
    (∃ a, E.chose a w = true ∧ E.controls a u.email = true) ∧
    (∃ a, E.chose a w' = true) ∧ ∀ a, E.chose a w' = true → E.controls a u.email = false

/-- The link verifies an account that is shared. -/
def Shares (s : Store) (q : Request) : Prop :=
  ∃ a hash u, q = .verify a u.id u.id true hash ∧ s.find u.id = some u ∧ u.emailVerifiedAt = none ∧
    VerifyEmailService.matchesVerificationHash E u hash = true ∧ Shared E u

/-- Neither of the two happens. -/
def Rightful (s : Store) (q : Request) : Prop := ¬ TakesOver E s q ∧ ¬ Shares E s q

/-- Addresses, passwords and sessions are in order, and verified accounts are safe. -/
structure Inv (s : Store) : Prop where
  ids : (s.users.map User.id).Nodup
  lt : ∀ u ∈ s.users, u.id < s.nextId
  made : ∀ u ∈ s.users, ∃ w salt, u.password = E.hash.make w salt
  session : ∀ a id, (a, id) ∈ s.sessions → id < s.nextId
  /-- Who is logged in has chosen the password, or the account is verified. -/
  loggedIn : ∀ a, ∀ u ∈ s.users, (a, u.id) ∈ s.sessions → u.emailVerifiedAt.isSome = true ∨
    ∃ w, E.chose a w = true ∧ E.hash.check w u.password = true
  safe : VerifiedSafe E s

variable {E} {s s' : Store} {q : Request} {e : Input} {u user : User} {email : String}

/-- An account that opens with a rightful password is safe, or it is shared. -/
theorem safe_of_not_shared {a : ℕ} {w : String} (hw : E.hash.check w u.password = true) (ha : E.chose a w = true)
    (hc : E.controls a u.email = true) (hns : ¬ Shared E u) : Safe E u := by
  intro w' hw'
  by_contra hunsafe
  obtain ⟨hnone, hsome⟩ := not_or.mp hunsafe
  obtain ⟨b, hb⟩ := not_forall.mp hsome
  refine hns ⟨w, w', hw, hw', ⟨a, ha, hc⟩, ⟨b, (Bool.not_eq_false _).mp hb⟩, fun a' ha' => ?_⟩
  by_contra hc'
  exact hnone ⟨a', ha', (Bool.not_eq_false _).mp hc'⟩

theorem Shared.not_safe (h : Shared E u) : ¬ Safe E u := by
  obtain ⟨w, w', -, hw', -, ⟨b, hb⟩, hothers⟩ := h
  intro hsafe
  rcases hsafe w' hw' with ⟨a, ha, hc⟩ | hnone
  · rw [hothers a ha] at hc
    cases hc
  · rw [hnone b] at hb
    cases hb

theorem safe_of_random {n salt : ℕ} (hm : u.password = E.hash.make (E.random n) salt) : Safe E u := by
  intro v hv
  rw [hm, E.hash.check_make] at hv
  exact .inr fun a => E.random_unchosen n a v hv

theorem Safe.congr (h : Safe E u) (hp : user.password = u.password) (he : user.email = u.email) : Safe E user := by
  intro w hw
  rw [he]
  exact h w (hp ▸ hw)

theorem mem_of_findByEmail (h : s.findByEmail E email = some u) : u ∈ s.users := List.mem_of_find?_eq_some h

theorem mem_of_find {id : ℕ} (h : s.find id = some u) : u ∈ s.users ∧ u.id = id :=
  ⟨List.mem_of_find?_eq_some h, by simpa using List.find?_some h⟩

theorem mem_save {v : User} (h : v ∈ (s.save user).users) : v = user ∨ (v ∈ s.users ∧ v.id ≠ user.id) := by
  obtain ⟨r, hr, rfl⟩ := Table.mem_updateWhere.mp h
  split
  · exact .inl rfl
  · rename_i hid
    exact .inr ⟨hr, by simpa using hid⟩

theorem Inv.insert (hI : Inv E s) (hid : u.id = s.nextId) (hm : ∃ w salt, u.password = E.hash.make w salt)
    (hs : u.emailVerifiedAt.isSome = true → Safe E u) : Inv E (s.insert u) where
  ids := by
    simp only [Store.insert, List.map_append, List.map_cons, List.map_nil]
    refine List.nodup_append.mpr ⟨hI.ids, List.nodup_singleton _, ?_⟩
    rintro a ha b hb rfl
    obtain ⟨v, hv, rfl⟩ := List.mem_map.mp ha
    exact Nat.ne_of_lt (hI.lt v hv) ((List.mem_singleton.mp hb).trans hid)
  lt v hv := by
    rcases List.mem_append.mp hv with hv | hv
    · exact Nat.lt_succ_of_lt (hI.lt v hv)
    · rw [List.mem_singleton.mp hv, hid]
      exact Nat.lt_succ_self _
  made v hv := by
    rcases List.mem_append.mp hv with hv | hv
    · exact hI.made v hv
    · exact List.mem_singleton.mp hv ▸ hm
  session a id h := Nat.lt_succ_of_lt (hI.session a id h)
  loggedIn a v hv h := by
    rcases List.mem_append.mp hv with hv | hv
    · exact hI.loggedIn a v hv h
    · rw [List.mem_singleton.mp hv, hid] at h
      exact absurd (hI.session a _ h) (Nat.lt_irrefl _)
  safe v hv := by
    rcases List.mem_append.mp hv with hv | hv
    · exact hI.safe v hv
    · exact List.mem_singleton.mp hv ▸ hs

/-- An account is saved that keeps its password, and that is not unverified. -/
theorem Inv.save (hI : Inv E s) (hu : u ∈ s.users) (hid : user.id = u.id) (hp : user.password = u.password)
    (hv : user.emailVerifiedAt.isSome = true) (hs : Safe E user) : Inv E (s.save user) where
  ids := by
    have h : (s.save user).users.map User.id = s.users.map User.id := by
      rw [Store.save, Table.updateWhere, List.map_map]
      refine List.map_congr_left fun v _ => ?_
      simp only [Function.comp_apply]
      split
      · rename_i he
        exact (beq_iff_eq.mp he).symm
      · rfl
    rw [h]
    exact hI.ids
  lt v hm := by
    rcases mem_save hm with rfl | ⟨hm, -⟩
    · exact hid ▸ hI.lt u hu
    · exact hI.lt v hm
  made v hm := by
    rcases mem_save hm with rfl | ⟨hm, -⟩
    · exact hp ▸ hI.made u hu
    · exact hI.made v hm
  session := hI.session
  loggedIn a v hm h := by
    rcases mem_save hm with rfl | ⟨hm, -⟩
    · exact .inl hv
    · exact hI.loggedIn a v hm h
  safe v hm := by
    rcases mem_save hm with rfl | ⟨hm, -⟩
    · exact fun _ => hs
    · exact hI.safe v hm

theorem Inv.performSessionLogin (hI : Inv E s) {a id : ℕ} (hlt : id < s.nextId)
    (h : ∀ u ∈ s.users, u.id = id → u.emailVerifiedAt.isSome = true ∨
      ∃ w, E.chose a w = true ∧ E.hash.check w u.password = true) : Inv E (s.performSessionLogin a id) where
  ids := hI.ids
  lt := hI.lt
  made := hI.made
  session b i hm := by
    rcases List.mem_append.mp hm with hm | hm
    · exact hI.session b i hm
    · cases List.mem_singleton.mp hm
      exact hlt
  loggedIn b v hv hm := by
    rcases List.mem_append.mp hm with hm | hm
    · exact hI.loggedIn b v hv hm
    · have hm := List.mem_singleton.mp hm
      simp only [Prod.mk.injEq] at hm
      rw [hm.1]
      exact h v hv hm.2
  safe := hI.safe

theorem Inv.eq_of_id (hI : Inv E s) {v : User} (hu : u ∈ s.users) (hv : v ∈ s.users) (h : v.id = u.id) : v = u :=
  List.inj_on_of_nodup_map hI.ids hv hu h

/-! ### What a request does -/

/-- A link verifies the account of somebody who is logged in and controls the address. -/
theorem inv_of_verify {a authenticatedUser id : ℕ} {sig : Bool} {hash : String} (hI : Inv E s)
    (h : handle E s (.verify a authenticatedUser id sig hash) e = some s')
    (hok : ¬ Shares E s (.verify a authenticatedUser id sig hash)) : Inv E s' := by
  simp only [handle] at h
  split at h
  · cases h
    exact hI
  rename_i u hf
  obtain ⟨hu, rfl⟩ := mem_of_find hf
  split at h
  · cases h
  rename_i hguard
  simp only [Bool.or_eq_true, Bool.not_eq_true', Bool.and_eq_true, not_or, not_and, Bool.not_eq_false,
    List.contains_iff_mem] at hguard
  split at h
  · cases h
    exact hI
  rename_i user hver
  cases h
  simp only [VerifyEmailService.verify] at hver
  split at hver
  · cases hver
  rename_i hvalid
  simp only [Bool.or_eq_true, Bool.not_eq_true', not_or, Bool.not_eq_false, beq_iff_eq] at hvalid
  split at hver
  · cases hver
  rename_i hun
  cases hver
  obtain ⟨⟨hsig, hself⟩, hhash⟩ := hvalid
  subst hself hsig
  rcases hI.loggedIn a u hu hguard.1 with hver | ⟨w, ha, hw⟩
  · exact absurd hver hun
  · have hns : ¬ Shared E u := by
      intro hshared
      exact hok ⟨a, hash, u, rfl, hf, by simpa using hun, hhash, hshared⟩
    have hsafe := safe_of_not_shared hw ha (hguard.2 rfl) hns
    exact hI.save hu rfl rfl rfl (hsafe.congr rfl rfl)

/-- What an OAuth login does to the account of the address, or that it creates one. -/
theorem execute_cases {o : SocialiteUser} {provider : String} {s' : Store} {id : ℕ}
    (h : UpsertOAuthUserAction.execute E s o provider e = some (s', id)) : ∃ email, o.email = some email ∧
    ((∃ u, s.findByEmail E email = some u ∧ id = u.id ∧
        s' = s.save (UpsertOAuthUserAction.values E o provider e (some u) u)) ∨
      id = s.nextId ∧ s' = s.insert (UpsertOAuthUserAction.values E o provider e none (blank s.nextId email))) := by
  unfold UpsertOAuthUserAction.execute at h
  split at h
  · cases h
  rename_i email hemail
  refine ⟨email, hemail, ?_⟩
  split at h <;> cases h
  · rename_i u hf
    exact .inl ⟨u, hf, rfl, rfl⟩
  · exact .inr ⟨rfl, rfl⟩

theorem inv_of_oauth {a : ℕ} {o : SocialiteUser} {provider : String} (hI : Inv E s)
    (h : handle E s (.oauth a o provider) e = some s') (hok : ¬ TakesOver E s (.oauth a o provider)) : Inv E s' := by
  simp only [handle] at h
  split at h
  · cases h
  split at h
  · cases h
    exact hI
  rename_i s₁ id hex
  cases h
  obtain ⟨email, hemail, ⟨u, hf, rfl, rfl⟩ | ⟨rfl, rfl⟩⟩ := execute_cases hex
  · have hu := mem_of_findByEmail hf
    have hsafe : Safe E u := by
      by_contra hns
      refine hok ⟨a, o, provider, email, u, rfl, hemail, hf, ?_, hns⟩
      by_contra hver
      exact hns (hI.safe u hu (Option.isSome_iff_ne_none.mpr hver))
    have hI' : Inv E (s.save (UpsertOAuthUserAction.values E o provider e (some u) u)) :=
      hI.save hu rfl rfl rfl (hsafe.congr rfl rfl)
    refine hI'.performSessionLogin (hI.lt u hu) fun v hv hid => .inl ?_
    rcases mem_save hv with rfl | ⟨-, hne⟩
    · rfl
    · exact absurd hid hne
  · have hI' := hI.insert (u := UpsertOAuthUserAction.values E o provider e none (blank s.nextId email)) rfl
      ⟨_, _, rfl⟩ fun _ => safe_of_random rfl
    refine hI'.performSessionLogin (Nat.lt_succ_self _) fun v hv hid => .inl ?_
    rcases List.mem_append.mp hv with hv | hv
    · exact absurd hid (Nat.ne_of_lt (hI.lt v hv))
    · rw [List.mem_singleton.mp hv]
      rfl

theorem handle_inv (hI : Inv E s) (h : handle E s q e = some s') (hok : Rightful E s q) : Inv E s' := by
  cases q with
  | register a data =>
    simp only [handle] at h
    split at h
    · cases h
    split at h <;> cases h
    · exact hI
    · exact hI.insert rfl ⟨_, _, rfl⟩ (by rintro ⟨⟩)
  | login a email password =>
    simp only [handle] at h
    split at h
    · cases h
    rename_i hchose
    split at h
    · cases h
      exact hI
    rename_i u hf
    have hu := mem_of_findByEmail hf
    split at h <;> cases h
    · rename_i hcheck
      refine hI.performSessionLogin (hI.lt u hu) fun v hv hid => .inr ?_
      rw [hI.eq_of_id hu hv hid]
      exact ⟨password, by simpa using hchose, hcheck⟩
    · exact hI
  | verify => exact inv_of_verify hI h hok.2
  | oauth => exact inv_of_oauth hI h hok.1

/-- An account that is taken over is verified, and its password is still the same. -/
theorem not_safe_of_takesOver (h : handle E s q e = some s') (ht : TakesOver E s q) : ¬ VerifiedSafe E s' := by
  obtain ⟨a, o, provider, email, u, rfl, hemail, hf, -, hns⟩ := ht
  intro hsafe
  simp only [handle, UpsertOAuthUserAction.execute, hemail, hf] at h
  split at h
  · cases h
  cases h
  refine hns (Safe.congr (u := UpsertOAuthUserAction.values E o provider e (some u) u) (hsafe _ ?_ rfl) rfl rfl)
  refine Table.mem_updateWhere.mpr ⟨u, mem_of_findByEmail hf, if_pos ?_⟩
  exact beq_iff_eq.mpr rfl

/-- An account that is shared is verified, and its password is still the same. -/
theorem not_safe_of_shares (h : handle E s q e = some s') (ht : Shares E s q) : ¬ VerifiedSafe E s' := by
  obtain ⟨a, hash, u, rfl, hf, hun, hhash, hshared⟩ := ht
  intro hsafe
  have hver : VerifyEmailService.verify E u u.id true hash e = .ok { u with emailVerifiedAt := some e.now } := by
    rw [VerifyEmailService.verify, hhash, hun]
    simp
  simp only [handle, hf, hver] at h
  split at h
  · cases h
  cases h
  have hmem : { u with emailVerifiedAt := some e.now } ∈ (s.save { u with emailVerifiedAt := some e.now }).users :=
    Table.mem_updateWhere.mpr ⟨u, (mem_of_find hf).1, if_pos (beq_self_eq_true u.id)⟩
  exact hshared.not_safe ((hsafe _ hmem rfl).congr rfl rfl)

theorem outline : Outline (program E) (fun s q _ => Rightful E s q) (Inv E) (fun _ _ => True) where
  entry _ _ _ _ := trivial
  move s q e s' k hI _ hok hm := by
    obtain ⟨s₁, h, he⟩ := Option.map_eq_some_iff.mp hm
    cases he
    exact ⟨handle_inv hI h hok, by rintro _ ⟨⟩⟩
  frame _ _ _ _ _ _ _ _ _ _ _ := trivial

def start : Config Store Request := ⟨⟨[], [], 1⟩, []⟩

theorem holds_start : Holds (Inv E) (fun _ _ => True) start :=
  ⟨⟨.nil, by rintro _ ⟨⟩, by rintro _ ⟨⟩, by rintro _ _ ⟨⟩, by rintro _ _ ⟨⟩, by rintro _ ⟨⟩⟩, fun _ _ => trivial⟩

/-- **Verified accounts are safe** in a run exactly if it takes no account over and
verifies none that is shared. -/
theorem verified_safe_iff {tr c} (h : (program E).Run start tr c) :
    (∀ st ∈ tr, VerifiedSafe E st.post.store) ↔ ∀ st ∈ tr, st.Meets fun s q _ => Rightful E s q := by
  refine outline.forall_store_iff (fun _ hI => hI.safe) (fun s q e s' k hI _ hm => ?_) holds_start h
  obtain ⟨s₁, hh, he⟩ := Option.map_eq_some_iff.mp hm
  cases he
  refine ⟨fun hsafe => ⟨fun ht => ?_, fun ht => ?_⟩, fun hok => (handle_inv hI hh hok).safe⟩
  · exact not_safe_of_takesOver hh ht hsafe
  · exact not_safe_of_shares hh ht hsafe

namespace Sample

/-- What bcrypt reads of a password. -/
def seen (w : String) : List UInt8 := w.toUTF8.data.toList.take 72

def long : String := String.ofList (List.replicate 71 'x')

/-- The passwords that a principal has chosen. -/
def chosen (a : ℕ) (w : String) : Bool :=
  if a = 1 then w == "Mallory@1" || w == long ++ "@M" else w == "Victor@2" || w == long ++ "@V"

theorem random_unchosen (_n a : ℕ) (w : String) (h : seen w = seen "random") : chosen a w = false := by
  unfold chosen
  split <;> simp only [Bool.or_eq_false_iff, beq_eq_false_iff_ne] <;> constructor <;> rintro rfl <;> revert h <;> decide

/-- A hash is what was read. -/
def fits (w hash : String) : Bool := seen w == seen hash

theorem fits_iff (w w' : String) (_salt : ℕ) : fits w w' = true ↔ seen w = seen w' := beq_iff_eq

/-- The principal 2 controls an address. -/
def env : Env where
  controls a email := a == 2 && email == "victor@example.com"
  chose := chosen
  hash := ⟨fun w _ => w, fits, seen, fits_iff⟩
  random _ := "random"
  random_unchosen := random_unchosen
  sameEmail a b := a == b
  sha256 s := s
  sha1 s := s

def registration (password : String) : RegisterUserData := ⟨"Victor", "victor@example.com", password⟩

def socialite : SocialiteUser := ⟨"42", some "victor@example.com", some "Victor", none, none, "token", none⟩

def input : Input := ⟨0, 0, 0⟩

/-- The requests are made one after the other. -/
def make (qs : List Request) : List (Act Request Input) := qs.flatMap fun q => [.arrive q, .move 0 input]

def isOauth : Request → Bool
  | .oauth _ _ _ => true
  | _ => false

/-- The account opens with a password of the principal 1 only. -/
def opens (w : String) (u : User) : Bool :=
  u.emailVerifiedAt.isSome && u.email == "victor@example.com" && fits w u.password && chosen 1 w

end Sample
theorem Sample.not_safe_of_opens {w : String} (hw : w ≠ "Victor@2" ∧ w ≠ Sample.long ++ "@V")
    (h : Sample.opens w u = true) : u.emailVerifiedAt.isSome = true ∧ ¬ Safe Sample.env u := by
  simp only [Sample.opens, Bool.and_eq_true, beq_iff_eq] at h
  obtain ⟨⟨⟨hver, hemail⟩, hfits⟩, hchosen⟩ := h
  refine ⟨hver, fun hsafe => ?_⟩
  rcases hsafe w hfits with ⟨a, ha, hc⟩ | hnone
  · have ha2 : a = 2 := by
      simp only [Sample.env, Bool.and_eq_true, beq_iff_eq] at hc
      exact hc.1
    have hnot : Sample.chosen 2 w = false := by simp [Sample.chosen, hw]
    rw [ha2] at ha
    exact absurd (hnot.symm.trans ha) Bool.false_ne_true
  · exact absurd ((hnone 1).symm.trans hchosen) Bool.false_ne_true

/-- Somebody else has registered the address before its owner logs in with OAuth, and then
logs into the verified account; and the owner has registered and verified it themselves,
but somebody else's password has the same first 72 bytes, and opens it. -/
theorem registered_by_another : (∃ E tr c, (program E).Run start tr c ∧ (1, 1) ∈ c.store.sessions ∧
      ¬ VerifiedSafe E c.store) ∧
    ∃ E tr c, (program E).Run start tr c ∧ (∀ st ∈ tr, st.Meets fun s q _ => ¬ TakesOver E s q) ∧
      (1, 1) ∈ c.store.sessions ∧ ¬ VerifiedSafe E c.store := by
  constructor
  · obtain ⟨tr, c, h, hc⟩ := (program Sample.env).exists_run_of_replay
      (Sample.make [.register 1 (Sample.registration "Mallory@1"), .oauth 2 Sample.socialite "google",
        .login 1 "victor@example.com" "Mallory@1"]) (c := start)
      (q := fun _ c => c.store.sessions.contains (1, 1) && c.store.users.any (Sample.opens "Mallory@1"))
      (by decide +kernel)
    simp only [Bool.and_eq_true, List.contains_iff_mem, List.any_eq_true] at hc
    obtain ⟨hsession, u, hu, hopens⟩ := hc
    obtain ⟨hver, hunsafe⟩ := Sample.not_safe_of_opens (by decide) hopens
    exact ⟨Sample.env, tr, c, h, hsession, fun hsafe => hunsafe (hsafe u hu hver)⟩
  · obtain ⟨tr, c, h, hc⟩ := (program Sample.env).exists_run_of_replay
      (Sample.make [.register 2 (Sample.registration (Sample.long ++ "@V")),
        .login 2 "victor@example.com" (Sample.long ++ "@V"), .verify 2 1 1 true "victor@example.com",
        .login 1 "victor@example.com" (Sample.long ++ "@M")]) (c := start)
      (q := fun tr c => (c.store.sessions.contains (1, 1) && c.store.users.any (Sample.opens (Sample.long ++ "@M"))) &&
        tr.all fun st => st.fired.all fun x => !Sample.isOauth x.1)
      (by decide +kernel)
    simp only [Bool.and_eq_true, List.contains_iff_mem, List.any_eq_true, List.all_eq_true, Option.all_eq_true,
      Bool.not_eq_true'] at hc
    obtain ⟨⟨hsession, u, hu, hopens⟩, hpassword⟩ := hc
    obtain ⟨hver, hunsafe⟩ := Sample.not_safe_of_opens (by decide) hopens
    refine ⟨Sample.env, tr, c, h, fun st hst q e hf => ?_, hsession, fun hsafe => hunsafe (hsafe u hu hver)⟩
    rintro ⟨a, o, provider, email, u, rfl, -⟩
    cases hpassword st hst _ hf.fired

/-- The owner of the address registers, verifies it, and later logs in with OAuth. -/
theorem verified_safe_owner : ∃ tr c, (program Sample.env).Run start tr c ∧
    c.store.users.any (fun u => u.emailVerifiedAt.isSome && u.oauthProvider == some "google") = true ∧
    ∀ st ∈ tr, VerifiedSafe Sample.env st.post.store := by
  obtain ⟨tr, c, h, hc⟩ := (program Sample.env).exists_run_of_replay
    (Sample.make [.register 2 (Sample.registration "Victor@2"), .login 2 "victor@example.com" "Victor@2",
      .verify 2 1 1 true "victor@example.com", .oauth 2 Sample.socialite "google"]) (c := start)
    (q := fun tr c => (c.store.users.any fun u => u.emailVerifiedAt.isSome && u.oauthProvider == some "google") &&
      tr.all fun st => st.pre.store.users.all fun u => u.password == "Victor@2" && u.email == "victor@example.com")
    (by decide +kernel)
  simp only [Bool.and_eq_true, List.all_eq_true, beq_iff_eq] at hc
  have hsafe (st) (hst : st ∈ tr) (u) (hu : u ∈ st.pre.store.users) : Safe Sample.env u := by
    intro w hw
    obtain ⟨hpw, hemail⟩ := hc.2 st hst u hu
    have hseen : Sample.seen w = Sample.seen "Victor@2" := by
      rw [← hpw]
      exact (Sample.fits_iff _ _ 0).mp hw
    have hnot : Sample.chosen 1 w = false := by
      simp only [Sample.chosen, if_true, Bool.or_eq_false_iff, beq_eq_false_iff_ne]
      constructor <;> rintro rfl <;> revert hseen <;> decide
    by_cases hchosen : Sample.chosen 2 w = true
    · exact .inl ⟨2, hchosen, by simp [Sample.env, hemail]⟩
    · refine .inr fun a => ?_
      by_cases ha : a = 1
      · rw [ha]
        exact hnot
      · simpa [Sample.env, Sample.chosen, ha] using hchosen
  refine ⟨tr, c, h, hc.1, (verified_safe_iff h).mpr fun st hst q e _ => ⟨fun ht => ?_, fun ht => ?_⟩⟩
  · obtain ⟨a, o, provider, email, u, -, -, hf, -, hns⟩ := ht
    exact hns (hsafe st hst u (mem_of_findByEmail hf))
  · obtain ⟨a, hash, u, -, hf, -, -, hshared⟩ := ht
    exact hshared.not_safe (hsafe st hst u (mem_of_find hf).1)

end Accounts
end Daywright
