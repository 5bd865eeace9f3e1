/-
# One guess and one login

`Cache::pull` reads the entry of a challenge and then deletes it, so two submissions that
overlap both take the entry, and both have a code checked (`guessed_twice`). Two logins
that start in one session at once do not see each other's challenge: the older one stays
in the cache after the newer one has replaced it, and a submission that has loaded it
from the session is accepted. And the expiry is looked at when the entry is read, not
when the code is checked and the session granted: a submission that has read the entry
has the challenge in hand, and may be accepted when it has expired or was replaced since.

A challenge has one code checked as long as each submission that takes an entry finds no
other about to delete it (`Alone`). It is not accepted after its expiry as long as none
expires in the hands of a submission (`InTime`), and not once replaced as long as neither
the cache nor a submission has it by then (`Forgotten`). The entry of a challenge names
its user in any interleaving.

Key definitions: `Accepts`, `Alone`, `InTime`, `Forgotten`, `Inv`, `Once`.
Key theorems: `outline`, `once_of_run`, `unexpired_of_run`, `current_of_run`, `challenge_of_run`.
-/
import Daywright.TwoFactor.Login

namespace Daywright
namespace TwoFactor

open Interleave

variable (E : Env)

/-- The challenge whose entry a submission takes. -/
def takes (s : Store) (p : Point) (now : Time) : Option ℕ :=
  match p with
  | .reading _ token => if (s.get token now).isSome then some token else none
  | _ => none

/-- The challenge that a submission has read the entry of. -/
def carried : Point → Option ℕ
  | .deleting _ token _ | .resolving _ token _ | .checking _ token _ | .granting token _ => some token
  | _ => none

/-- The challenge that a submission is accepted with: it finds the entry, its code is
right, or the session is granted. -/
def accepts (s : Store) (p : Point) (e : Input) : Option ℕ :=
  match p with
  | .checking _ token _ => if e.validCode then some token else none
  | .granting token _ => some token
  | p => takes s p e.now

/-- A submission with the challenge is accepted. -/
def Accepts (st : Step Store Point Input) (token : ℕ) (now : Time) : Prop :=
  ∃ p e, st.Fires p e ∧ e.now = now ∧ accepts st.pre.store p e = some token

/-- The entry of the challenge is about to be deleted. -/
def deletes (token : ℕ) : Point → Bool
  | .deleting _ t _ => t == token
  | _ => false

/-- The code for the challenge is about to be checked. -/
def passes (token : ℕ) : Point → Bool
  | .resolving _ t _ | .checking _ t _ => t == token
  | _ => false

/-- A submission that takes an entry finds no other about to delete it. -/
def Alone (st : Step Store Point Input) : Prop :=
  ∀ x ∈ st.fired, ∀ token ∈ takes st.pre.store x.1 x.2.now, ∀ q ∈ st.pre.procs, deletes token q = false

instance (st : Step Store Point Input) : Decidable (Alone st) := by
  unfold Alone
  infer_instance

/-- No challenge expires while a submission has it in hand. -/
def InTime (st : Step Store Point Input) : Prop :=
  ∀ x ∈ st.fired, ∀ q ∈ st.pre.procs, ∀ token ∈ carried q, ∀ ch ∈ st.pre.store.challenge token,
    st.pre.store.clock < ch.expiresAt → x.2.now < ch.expiresAt

instance (st : Step Store Point Input) : Decidable (InTime st) := by
  unfold InTime
  infer_instance

/-- The older challenges of a session, when a challenge is stored in it. -/
def replaces (s : Store) : Point → List ℕ
  | .ending session (some state) =>
    (s.created.filter fun c => c.session == session && c.token < state.token).map (·.token)
  | _ => []

/-- When a challenge is stored in a session, neither the cache nor a submission has an
older one of it. -/
def Forgotten (st : Step Store Point Input) : Prop :=
  ∀ x ∈ st.fired, ∀ token ∈ replaces st.pre.store x.1,
    st.pre.store.get token x.2.now = none ∧ ∀ q ∈ st.pre.procs, carried q ≠ some token

instance (st : Step Store Point Input) : Decidable (Forgotten st) := by
  unfold Forgotten
  infer_instance

/-- The challenge was created for the user. -/
def CreatedFor (s : Store) (token user : ℕ) : Prop := ∃ ch, s.challenge token = some ch ∧ ch.user = user

/-- The entry is that of the challenge, and its account exists. -/
def EntryOf (s : Store) (token : ℕ) (entry : Entry) : Prop :=
  (∃ ch, s.challenge token = some ch ∧ ch.user = entry.userId ∧ ch.expiresAt = entry.expiresAt) ∧
    (E.find entry.userId).isSome = true

/-! ### What a step does -/

/-- What a step from `s` can do, the clock being set. -/
inductive Effect (s : Store) (e : Input) : Point → Store → Option Point → Prop
  | start (i email api user) (h : E.findByEmail email = some user) :
    Effect s e (.startLogin i email api) s (some (.forgetting i user api (s.session i)))
  | unknown (i email api) : Effect s e (.startLogin i email api) s none
  | nothing (i user api) : Effect s e (.forgetting i user api none) s (some (.putting i user api))
  | forget (i user api) (state : State) :
    Effect s e (.forgetting i user api (some state)) (s.forget state.token) (some (.putting i user api))
  | put (i user api) : Effect s e (.putting i user api) (s.put i user (e.now + minutes E.ttl))
      (some (.remembering i api s.nextToken))
  | remember (i api token) (state : State) : Effect s e (.remembering i api token) s (some (.ending i (some state)))
  | refuse (i api token) : Effect s e (.remembering i api token) s (some (.forgettingAgain i token))
  | forgetAgain (i token) : Effect s e (.forgettingAgain i token) (s.forget token) (some (.ending i none))
  | submit (i) : Effect s e (.submit i) s (some (.validating i (s.session i)))
  | valid (i loaded token) : Effect s e (.validating i loaded) s (some (.reading i token))
  | take (i token entry) (h : s.get token e.now = some entry) :
    Effect s e (.reading i token) s (some (.deleting i token entry))
  | delete (i token entry) : Effect s e (.deleting i token entry) (s.forget token) (some (.resolving i token entry))
  | resolve (i token entry user) (h : resolveUserFromCache E entry = some user) :
    Effect s e (.resolving i token entry) s (some (.checking i token user))
  | accept (i token user) : Effect s e (.checking i token user) (s.check token) (some (.granting token user))
  | reject (i token user) : Effect s e (.checking i token user) (s.check token) (some (.ending i none))
  | grant (token) (user : User) : Effect s e (.granting token user) (s.grant token user.id) none
  | save (i) : Effect s e (.ending i none) (s.saveSession i none) none
  | replace (i) (state : State) :
    Effect s e (.ending i (some state)) ((s.saveSession i (some state)).replace i state.token) none
  | invalid (i loaded) : Effect s e (.validating i loaded) s (some (.ending i none))
  | missing (i token) : Effect s e (.reading i token) s (some (.ending i none))
  | unresolved (i token entry) : Effect s e (.resolving i token entry) s (some (.ending i none))

variable {E} {s s' : Store} {e : Input} {p q : Point} {k : Option Point} {c₀ c : Config Store Point}
  {tr : List (Step Store Point Input)}

theorem effect_act : Effect E s e p (act E s p e).1 (act E s p e).2 := by
  cases p <;> simp only [act]
  case startLogin i email api =>
    split
    · exact .unknown i email api
    · rename_i user h
      exact .start i email api user h
  case forgetting i user api loaded =>
    cases loaded
    · exact .nothing i user api
    · exact .forget i user api _
  case putting i user api => exact .put i user api
  case remembering i api token =>
    split
    · exact .refuse i api token
    · exact .remember i api token _
  case forgettingAgain i token => exact .forgetAgain i token
  case submit i => exact .submit i
  case validating i loaded =>
    cases loaded
    · exact .invalid i _
    · dsimp only
      split
      · exact .invalid i _
      · exact .valid i _ _
  case reading i token =>
    split
    · exact .missing i token
    · rename_i entry h
      exact .take i token entry h
  case deleting i token entry => exact .delete i token entry
  case resolving i token entry =>
    split
    · exact .unresolved i token entry
    · rename_i user h
      exact .resolve i token entry user h
  case checking i token user =>
    split
    · exact .accept i token user
    · exact .reject i token user
  case granting token user => exact .grant token user
  case ending i state =>
    cases state
    · exact .save i
    · exact .replace i _

/-- A step does what its point says, at a time that is not before the last one. -/
theorem effect (h : step E s p e = some (s', k)) :
    s.clock ≤ e.now ∧ Effect E { s with clock := e.now } e p s' k := by
  simp only [step, Option.ite_none_right_eq_some, Option.some.injEq] at h
  have := effect_act (E := E) (s := { s with clock := e.now }) (p := p) (e := e)
  rw [h.2] at this
  exact ⟨h.1, this⟩

/-! ### The entries name their users -/

variable (E) in
/-- The challenges that were created under the tokens drawn; the entries in the cache,
the codes checked and the sessions granted are theirs. -/
structure Inv (s : Store) : Prop where
  drawn : ∀ token ch, s.challenge token = some ch → token < s.nextToken
  cache : ∀ token entry, s.cache token = some entry → EntryOf E s token entry
  checked : ∀ token ∈ s.checked, (s.challenge token).isSome = true
  granted : ∀ g ∈ s.granted, CreatedFor s g.1 g.2

variable (E) in
/-- What a request knows of the user and of the challenge that it has in hand. -/
def Knows (s : Store) : Point → Prop
  | .forgetting _ user _ _ | .putting _ user _ => (E.find user.id).isSome = true
  | .deleting _ token entry | .resolving _ token entry => EntryOf E s token entry
  | .checking _ token user | .granting token user => CreatedFor s token user.id
  | _ => True

theorem find_of_findByEmail {email : String} {user : User} (h : E.findByEmail email = some user) :
    (E.find user.id).isSome = true :=
  List.find?_isSome.mpr ⟨user, List.mem_of_find?_eq_some h, beq_self_eq_true _⟩

theorem id_of_find {id : ℕ} {user : User} (h : E.find id = some user) : user.id = id := by
  unfold Env.find at h
  have := List.find?_some h
  simpa using this

/-- The account that the entry names is the one that is found. -/
theorem resolve_eq {entry : Entry} {user : User} (hf : (E.find entry.userId).isSome = true)
    (h : resolveUserFromCache E entry = some user) : user.id = entry.userId := by
  obtain ⟨u, hu⟩ := Option.isSome_iff_exists.mp hf
  rw [resolveUserFromCache, hu, Option.some_or, Option.some.injEq] at h
  exact h ▸ id_of_find hu

/-- A challenge is created under a token that none was created under. -/
theorem Effect.challenge (h : Effect E s e p s' k) (hI : Inv E s) {token : ℕ} {ch : Challenge}
    (hch : s.challenge token = some ch) : s'.challenge token = some ch := by
  cases h with
  | put i user api =>
    have hne : s.nextToken ≠ token := (hI.drawn token ch hch).ne'
    simpa [Store.put, Store.setCache, Store.challenge, hne] using hch
  | _ => exact hch

theorem CreatedFor.mono (h : ∀ token ch, s.challenge token = some ch → s'.challenge token = some ch)
    {token user : ℕ} (hc : CreatedFor s token user) : CreatedFor s' token user :=
  hc.imp fun ch hch => hch.imp_left (h token ch)

theorem EntryOf.mono (h : ∀ token ch, s.challenge token = some ch → s'.challenge token = some ch)
    {token : ℕ} {entry : Entry} (hc : EntryOf E s token entry) : EntryOf E s' token entry :=
  hc.imp_left fun hc => hc.imp fun ch hch => hch.imp_left (h token ch)

theorem Knows.mono (h : ∀ token ch, s.challenge token = some ch → s'.challenge token = some ch)
    (hq : Knows E s q) : Knows E s' q := by
  cases q with
  | deleting | resolving => exact EntryOf.mono h hq
  | checking | granting => exact CreatedFor.mono h hq
  | _ => exact hq

theorem Inv.forget (hI : Inv E s) (token : ℕ) : Inv E (s.forget token) where
  drawn := hI.drawn
  cache t entry h := by
    simp only [Store.forget, Store.setCache] at h
    split at h
    · cases h
    · exact hI.cache t entry h
  checked := hI.checked
  granted := hI.granted

theorem challenge_put (i : ℕ) (user : User) (expiresAt : Time) (token : ℕ) :
    (s.put i user expiresAt).challenge token =
      if s.nextToken = token then some ⟨s.nextToken, user.id, i, expiresAt⟩ else s.challenge token := by
  simp only [Store.put, Store.challenge, List.find?_cons]
  split <;> simp_all

theorem Inv.put (hI : Inv E s) {i : ℕ} {user : User} {expiresAt : Time} (hu : (E.find user.id).isSome = true)
    (hmono : ∀ token ch, s.challenge token = some ch → (s.put i user expiresAt).challenge token = some ch) :
    Inv E (s.put i user expiresAt) where
  drawn t ch h := by
    rw [challenge_put] at h
    split at h
    · rename_i ht
      exact ht ▸ Nat.lt_succ_self _
    · exact (hI.drawn t ch h).trans (Nat.lt_succ_self _)
  cache t entry h := by
    simp only [Store.put, Store.setCache] at h
    split at h
    · rename_i ht
      cases h
      exact ⟨⟨_, by rw [challenge_put, if_pos ht.symm], rfl, rfl⟩, hu⟩
    · exact (hI.cache t entry h).mono hmono
  checked t ht := by
    obtain ⟨ch, hch⟩ := Option.isSome_iff_exists.mp (hI.checked t ht)
    exact Option.isSome_iff_exists.mpr ⟨ch, hmono t ch hch⟩
  granted g hg := (hI.granted g hg).mono hmono

theorem inv_move (hI : Inv E s) (hA : Knows E s p) (h : Effect E s e p s' k) :
    Inv E s' ∧ ∀ q, k = some q → Knows E s' q := by
  have hmono : ∀ token ch, s.challenge token = some ch → s'.challenge token = some ch := fun _ _ => h.challenge hI
  cases h with
  | start i email api user h =>
    refine ⟨hI, fun q hq => ?_⟩
    cases hq
    exact find_of_findByEmail h
  | nothing i user api =>
    refine ⟨hI, fun q hq => ?_⟩
    cases hq
    exact hA
  | forget i user api state =>
    refine ⟨hI.forget _, fun q hq => ?_⟩
    cases hq
    exact hA
  | put i user api =>
    refine ⟨hI.put hA hmono, fun q hq => ?_⟩
    cases hq
    trivial
  | take i token entry h =>
    refine ⟨hI, fun q hq => ?_⟩
    cases hq
    exact hI.cache token entry (Option.filter_eq_some_iff.mp h).1
  | forgetAgain i token =>
    refine ⟨hI.forget _, fun q hq => ?_⟩
    cases hq
    trivial
  | delete i token entry =>
    refine ⟨hI.forget _, fun q hq => ?_⟩
    cases hq
    exact EntryOf.mono hmono hA
  | resolve i token entry user h =>
    refine ⟨hI, fun q hq => ?_⟩
    cases hq
    obtain ⟨⟨ch, hch, hu, -⟩, hf⟩ := hA
    exact ⟨ch, hch, hu.trans (resolve_eq hf h).symm⟩
  | accept i token user | reject i token user =>
    obtain ⟨ch, hch, -⟩ := id hA
    refine ⟨⟨hI.drawn, hI.cache, fun t ht => ?_, hI.granted⟩, fun q hq => ?_⟩
    · rcases List.mem_cons.mp ht with rfl | ht
      · exact Option.isSome_iff_exists.mpr ⟨ch, hch⟩
      · exact hI.checked t ht
    · cases hq
      first | exact hA | trivial
  | grant token user =>
    refine ⟨⟨hI.drawn, hI.cache, hI.checked, fun g hg => ?_⟩, fun q hq => by cases hq⟩
    rcases List.mem_cons.mp hg with rfl | hg
    · exact hA
    · exact hI.granted g hg
  | unknown | save | replace => exact ⟨⟨hI.drawn, hI.cache, hI.checked, hI.granted⟩, fun q hq => by cases hq⟩
  | _ =>
    refine ⟨hI, fun q hq => ?_⟩
    cases hq
    trivial

/-- The clock is not part of what is known. -/
theorem Inv.at (hI : Inv E s) (now : Time) : Inv E { s with clock := now } :=
  ⟨hI.drawn, hI.cache, hI.checked, hI.granted⟩

theorem Knows.at (h : Knows E s q) (now : Time) : Knows E { s with clock := now } q := Knows.mono (fun _ _ h => h) h

theorem outline : Outline (program E) (fun _ _ _ => True) (Inv E) (Knows E) where
  entry s p _ hp := by
    cases p <;> trivial
  move s p e s' k hI hA _ hm := inv_move (hI.at e.now) (hA.at e.now) (effect hm).2
  frame s p e s' k q hI _ _ hm hq := Knows.mono (fun _ _ => (effect hm).2.challenge (hI.at e.now)) (hq.at e.now)

theorem inv_start : Inv E start.store where
  drawn token ch h := by cases h
  cache token entry h := by cases h
  checked token h := by cases h
  granted g h := by cases h

theorem holds_of_run (h : (program E).Run start tr c) : Holds (Inv E) (Knows E) c :=
  outline.run ⟨inv_start, fun _ h => by cases h⟩ h fun _ _ _ _ _ => trivial

/-! ### One code is checked -/

/-- Of a challenge, `d` submissions are about to delete the entry and `r` have deleted it:
there is one at most, or one code was checked, and after the deletion the entry is gone. -/
structure Once (s : Store) (token d r : ℕ) : Prop where
  one : d + r + s.checked.count token ≤ 1
  gone : s.cache token ≠ none → r + s.checked.count token = 0

theorem Once.of_le {token d r d' r' : ℕ} (h : Once s token d r) (hd : d' ≤ d) (hr : r' ≤ r)
    (hc : s'.checked = s.checked) (hs : s'.cache token ≠ none → s.cache token ≠ none) : Once s' token d' r' := by
  have h1 := h.one
  refine ⟨by rw [hc]; omega, fun hne => ?_⟩
  have h2 := h.gone (hs hne)
  rw [hc]
  omega

theorem cache_of_forget {token t : ℕ} (h : (s.forget t).cache token ≠ none) : s.cache token ≠ none := by
  simp only [Store.forget, Store.setCache] at h
  split at h
  · exact absurd rfl h
  · exact h

theorem checked_nextToken (hI : Inv E s) : s.checked.count s.nextToken = 0 := by
  refine List.count_eq_zero.mpr fun h => ?_
  obtain ⟨ch, hch⟩ := Option.isSome_iff_exists.mp (hI.checked _ h)
  exact (hI.drawn _ ch hch).false

/-- One step. A submission that takes the entry finds no other about to delete it. -/
theorem Effect.once (h : Effect E s e p s' k) (hI : Inv E s) {token d r d' r' : ℕ}
    (hd : d' + (if deletes token p = true then 1 else 0) = d + if k.any (deletes token) = true then 1 else 0)
    (hr : r' + (if passes token p = true then 1 else 0) = r + if k.any (passes token) = true then 1 else 0)
    (halone : takes s p e.now = some token → d = 0) (hnew : token = s.nextToken → d = 0 ∧ r = 0)
    (hO : Once s token d r) : Once s' token d' r' := by
  have h1 := hO.one
  cases h with
  | put i user api =>
    simp only [deletes, passes, Option.any_some, Bool.false_eq_true, if_false] at hd hr
    by_cases ht : token = s.nextToken
    · obtain ⟨rfl, rfl⟩ := hnew ht
      have hc : (s.put i user (e.now + minutes E.ttl)).checked.count token = 0 := ht ▸ checked_nextToken hI
      exact ⟨by omega, fun _ => by omega⟩
    · refine hO.of_le (by omega) (by omega) rfl fun hne => ?_
      simpa [Store.put, Store.setCache, ht] using hne
  | take i t entry h =>
    simp only [deletes, passes, Option.any_some, Bool.false_eq_true, if_false] at hd hr
    by_cases ht : t = token
    · subst ht
      have hd0 := halone (by simp [takes, h])
      have hr0 := hO.gone (by simp [(Option.filter_eq_some_iff.mp h).1])
      simp only [beq_self_eq_true, if_true] at hd
      exact ⟨by omega, fun _ => by omega⟩
    · simp only [beq_iff_eq, ht, if_false] at hd
      exact hO.of_le (by omega) (by omega) rfl id
  | delete i t entry =>
    simp only [deletes, passes, Option.any_some, Bool.false_eq_true, if_false] at hd hr
    by_cases ht : t = token
    · subst ht
      simp only [beq_self_eq_true, if_true] at hd hr
      exact ⟨by show _ + _ + s.checked.count _ ≤ 1; omega, fun hne => absurd (if_pos rfl) hne⟩
    · simp only [beq_iff_eq, ht, if_false] at hd hr
      exact hO.of_le (by omega) (by omega) rfl cache_of_forget
  | accept i t user | reject i t user =>
    simp only [deletes, passes, Option.any_some, Bool.false_eq_true, if_false] at hd hr
    by_cases ht : t = token
    · subst ht
      simp only [beq_self_eq_true, if_true] at hr
      have hc : (s.check t).checked.count t = s.checked.count t + 1 := List.count_cons_self
      refine ⟨by omega, fun hne => ?_⟩
      have := hO.gone hne
      omega
    · simp only [beq_iff_eq, ht, if_false] at hr
      have hc : (s.check t).checked.count token = s.checked.count token := List.count_cons_of_ne ht
      refine ⟨by omega, fun hne => ?_⟩
      have := hO.gone hne
      omega
  | forget | forgetAgain =>
    simp only [deletes, passes, Option.any_some, Bool.false_eq_true, if_false] at hd hr
    exact hO.of_le (by omega) (by omega) rfl cache_of_forget
  | resolve i t entry user h =>
    simp only [deletes, passes, Option.any_some, Bool.false_eq_true, if_false] at hd hr
    exact hO.of_le (by omega) (Nat.add_right_cancel hr).le rfl id
  | _ =>
    simp only [deletes, passes, Option.any_some, Option.any_none, Bool.false_eq_true, if_false] at hd hr
    exact hO.of_le (by omega) (by omega) rfl id

/-- No request has a challenge in hand that was not created. -/
theorem countP_nextToken (h : Holds (Inv E) (Knows E) c) {f : Point → Bool}
    (hf : ∀ q, f q = true → deletes c.store.nextToken q = true ∨ passes c.store.nextToken q = true) :
    c.procs.countP f = 0 := by
  refine List.countP_eq_zero.mpr fun q hq hfq => ?_
  have hk := h.2 q hq
  have hex : ∃ ch, c.store.challenge c.store.nextToken = some ch := by
    rcases hf q hfq with hq | hq <;> cases q <;> first | cases hq | skip
    · exact beq_iff_eq.mp hq ▸ hk.1.imp fun _ h => h.1
    · exact beq_iff_eq.mp hq ▸ hk.1.imp fun _ h => h.1
    · exact beq_iff_eq.mp hq ▸ hk.imp fun _ h => h.1
  obtain ⟨ch, hch⟩ := hex
  exact (h.1.drawn _ ch hch).false

/-- As long as each submission that takes an entry finds no other about to delete it, a
challenge has one code checked. -/
theorem once_of_run (h : (program E).Run start tr c) (hok : ∀ st ∈ tr, Alone st) (token : ℕ) :
    Once c.store token (c.procs.countP (deletes token)) (c.procs.countP (passes token)) := by
  induction h with
  | nil => exact ⟨Nat.zero_le _, fun _ => rfl⟩
  | @snoc tr c c' a hr hs ih =>
    have hO := ih fun st hst => hok st (List.mem_append_left _ hst)
    have hc := holds_of_run hr
    rcases (program E).step_cases hs with ⟨p, rfl, hp, rfl⟩ | ⟨i, rfl, rfl⟩ | ⟨i, e, p, s, k, rfl, hp, -⟩
    · have hpd : deletes token p = false ∧ passes token p = false := by
        cases p <;> first | exact ⟨rfl, rfl⟩ | cases hp
      simpa [List.countP_append, hpd] using hO
    · exact hO.of_le (List.eraseIdx_sublist _ _ |>.countP_le) (List.eraseIdx_sublist _ _ |>.countP_le) rfl id
    · obtain ⟨s₁, k₁, hm, rfl, -, hd⟩ := (program E).countP_move (deletes token) hp hs
      obtain ⟨s₂, k₂, hm', -, -, hd'⟩ := (program E).countP_move (passes token) hp hs
      obtain ⟨rfl, rfl⟩ : s₂ = c'.store ∧ k₂ = k₁ := by simpa using hm'.symm.trans hm
      refine (effect hm).2.once (hc.1.at e.now) hd hd' (fun ht => ?_) (fun ht => ?_) ⟨hO.one, hO.gone⟩
      · refine List.countP_eq_zero.mpr fun q hq => ?_
        have := hok _ (List.mem_append_right _ (List.mem_singleton_self _)) (p, e) (by simp [Step.fired, hp])
          token ht q hq
        simp [this]
      · subst ht
        exact ⟨countP_nextToken hc fun q hq => .inl hq, countP_nextToken hc fun q hq => .inr hq⟩

/-! ### A challenge in hand -/

/-- What a submission goes on with it had in hand, or it has just taken it. -/
theorem Effect.carried (h : Effect E s e p s' k) (hk : k = some q) {token : ℕ} (ht : carried q = some token) :
    TwoFactor.carried p = some token ∨ takes s p e.now = some token := by
  subst hk
  cases h with
  | take i t entry h =>
    cases ht
    exact .inr (by simp [takes, h])
  | delete | resolve | accept => exact .inl ht
  | _ => cases ht

theorem Effect.clock (h : Effect E s e p s' k) : s'.clock = s.clock := by
  cases h <;> rfl

/-- A request that arrives has none in hand. -/
theorem carried_entry (hp : (program E).entry p = true) : carried p = none := by
  cases p <;> first | rfl | cases hp

/-- What is in hand after a step was in hand before it, or has been taken in it. -/
theorem carried_of_step {a : Act Point Input} {c' : Config Store Point} (h : (program E).step c a = some c')
    (hq : q ∈ c'.procs) {token : ℕ} (ht : carried q = some token) :
    (∃ q₀ ∈ c.procs, carried q₀ = some token) ∨
      ∃ p e, Step.Fires ⟨c, a, c'⟩ p e ∧ takes c.store p e.now = some token := by
  rcases (program E).step_cases h with ⟨p, rfl, hp, rfl⟩ | ⟨i, rfl, rfl⟩ | ⟨i, e, p, s, k, rfl, hp, hm, -, hmem⟩
  · rcases List.mem_append.mp hq with hq | hq
    · exact .inl ⟨q, hq, ht⟩
    · rw [List.mem_singleton.mp hq, carried_entry hp] at ht
      cases ht
  · exact .inl ⟨q, List.mem_of_mem_eraseIdx hq, ht⟩
  · rcases hmem q hq with hq | hk
    · exact .inl ⟨q, hq, ht⟩
    · rcases (effect hm).2.carried hk ht with h | h
      · exact .inl ⟨p, List.mem_of_getElem? hp, h⟩
      · exact .inr ⟨p, e, ⟨i, rfl, hp⟩, h⟩

theorem Knows.challenge (h : Knows E s q) {token : ℕ} (ht : carried q = some token) :
    ∃ ch, s.challenge token = some ch := by
  cases q with
  | deleting | resolving =>
    cases ht
    exact h.1.imp fun _ h => h.1
  | checking | granting =>
    cases ht
    exact h.imp fun _ h => h.1
  | _ => cases ht

theorem challenge_of_step {a : Act Point Input} {c' : Config Store Point} (hI : Inv E c.store)
    (h : (program E).step c a = some c') {token : ℕ} {ch : Challenge} (hch : c.store.challenge token = some ch) :
    c'.store.challenge token = some ch := by
  rcases (program E).step_store h with heq | ⟨p, e, k, -, hm⟩
  · rw [heq]
    exact hch
  · exact (effect hm).2.challenge (hI.at e.now) hch

/-- The entry that a submission takes has not expired. -/
theorem cache_of_takes {token : ℕ} {now : Time} (h : takes s p now = some token) :
    ∃ entry, s.cache token = some entry ∧ now < entry.expiresAt := by
  unfold takes at h
  split at h
  · simp only [Option.ite_none_right_eq_some, Option.some.injEq, Option.isSome_iff_exists] at h
    obtain ⟨⟨entry, hg⟩, rfl⟩ := h
    obtain ⟨hcache, hlt⟩ := Option.filter_eq_some_iff.mp hg
    exact ⟨entry, hcache, of_decide_eq_true hlt⟩
  · cases h

/-- A challenge that is taken has not expired. -/
theorem takes_before (hI : Inv E s) {token : ℕ} {now : Time} (h : takes s p now = some token) :
    ∃ ch, s.challenge token = some ch ∧ now < ch.expiresAt := by
  obtain ⟨entry, hcache, hlt⟩ := cache_of_takes h
  obtain ⟨⟨ch, hch, -, hx⟩, -⟩ := hI.cache token entry hcache
  exact ⟨ch, hch, hx ▸ hlt⟩

theorem carried_or_takes_of_accepts {token : ℕ} (h : accepts s p e = some token) :
    carried p = some token ∨ takes s p e.now = some token := by
  cases p with
  | checking =>
    simp only [accepts, Option.ite_none_right_eq_some] at h
    exact .inl h.2
  | granting => exact .inl h
  | _ => exact .inr h

/-- The challenges in hand have not expired. -/
def Unexpired (c : Config Store Point) : Prop :=
  ∀ q ∈ c.procs, ∀ token ∈ carried q, ∀ ch ∈ c.store.challenge token, c.store.clock < ch.expiresAt

theorem unexpired_step {a : Act Point Input} {c' : Config Store Point} (hc : Holds (Inv E) (Knows E) c)
    (hu : Unexpired c) (h : (program E).step c a = some c') (hok : InTime ⟨c, a, c'⟩) : Unexpired c' := by
  intro q hq token ht ch hch
  obtain ⟨ch₀, hch₀, hlt⟩ : ∃ ch₀, c.store.challenge token = some ch₀ ∧ c'.store.clock < ch₀.expiresAt := by
    rcases carried_of_step h hq ht with ⟨q₀, hq₀, ht₀⟩ | ⟨p, e, hf, htake⟩
    · obtain ⟨ch₀, hch₀⟩ := (hc.2 q₀ hq₀).challenge ht₀
      have hlt := hu q₀ hq₀ token ht₀ ch₀ hch₀
      refine ⟨ch₀, hch₀, ?_⟩
      rcases (program E).step_store h with heq | ⟨p, e, k, hf, hm⟩
      · rw [heq]
        exact hlt
      · rw [(effect hm).2.clock]
        exact hok (p, e) hf.fired q₀ hq₀ token ht₀ ch₀ hch₀ hlt
    · obtain ⟨ch₀, hch₀, hlt⟩ := takes_before hc.1 htake
      obtain ⟨i, rfl, hp⟩ := hf
      obtain ⟨k, hm⟩ := (program E).move_of_step hp h
      exact ⟨ch₀, hch₀, (effect hm).2.clock ▸ hlt⟩
  rw [challenge_of_step hc.1 h hch₀] at hch
  cases hch
  exact hlt

/-- As long as none expires in hand, the challenges in hand have not expired. -/
theorem unexpired_of_run (h : (program E).Run start tr c) (hok : ∀ st ∈ tr, InTime st) : Unexpired c := by
  induction h with
  | nil => exact fun q hq => by cases hq
  | snoc a hr hs ih =>
    exact unexpired_step (holds_of_run hr) (ih fun st hst => hok st (List.mem_append_left _ hst)) hs (hok _ (by simp))

/-- A challenge that is accepted has not expired. -/
theorem accepts_before {st : Step Store Point Input} {token : ℕ} {now : Time}
    (hc : Holds (Inv E) (Knows E) st.pre) (hu : Unexpired st.pre) (hok : InTime st) (h : Accepts st token now) :
    ∃ ch, st.pre.store.challenge token = some ch ∧ now < ch.expiresAt := by
  obtain ⟨p, e, hf, rfl, ha⟩ := h
  rcases carried_or_takes_of_accepts ha with ht | ht
  · obtain ⟨i, -, hp⟩ := id hf
    have hmem := List.mem_of_getElem? hp
    obtain ⟨ch, hch⟩ := (hc.2 p hmem).challenge ht
    exact ⟨ch, hch, hok (p, e) hf.fired p hmem token ht ch hch (hu p hmem token ht ch hch)⟩
  · exact takes_before hc.1 ht

/-! ### A challenge is replaced -/

/-- The entries of the challenges that were replaced are gone, or have expired. -/
def Over (s : Store) : Prop :=
  ∀ token ∈ s.replaced, (s.challenge token).isSome = true ∧
    ∀ entry, s.cache token = some entry → entry.expiresAt ≤ s.clock

theorem Over.at (h : Over s) {now : Time} (hle : s.clock ≤ now) : Over { s with clock := now } :=
  fun token ht => ⟨(h token ht).1, fun entry he => ((h token ht).2 entry he).trans hle⟩

theorem Over.forget (h : Over s) (t : ℕ) : Over (s.forget t) := fun token ht => by
  refine ⟨(h token ht).1, fun entry he => ?_⟩
  simp only [Store.forget, Store.setCache] at he
  split at he
  · cases he
  · exact (h token ht).2 entry he

theorem Effect.replaced (h : Effect E s e p s' k) : s'.replaced = replaces s p ++ s.replaced := by
  cases h <;> rfl

theorem Effect.over (h : Effect E s e p s' k) (hI : Inv E s) (hok : ∀ token ∈ replaces s p, s.get token e.now = none)
    (hclock : s.clock = e.now) (hK : Over s) : Over s' := by
  have hmono : ∀ token ch, s.challenge token = some ch → s'.challenge token = some ch := fun _ _ => h.challenge hI
  cases h with
  | forget | forgetAgain | delete => exact hK.forget _
  | put i user api =>
    intro token ht
    obtain ⟨hs, hc⟩ := hK token ht
    obtain ⟨ch, hch⟩ := Option.isSome_iff_exists.mp hs
    refine ⟨Option.isSome_iff_exists.mpr ⟨ch, hmono token ch hch⟩, fun entry he => ?_⟩
    simp only [Store.put, Store.setCache, if_neg (hI.drawn token ch hch).ne] at he
    exact hc entry he
  | replace i state =>
    intro token ht
    rcases List.mem_append.mp ht with ht | ht
    · have hnone := hok token ht
      obtain ⟨ch, hch, rfl⟩ := List.mem_map.mp ht
      refine ⟨List.find?_isSome.mpr ⟨ch, (List.mem_filter.mp hch).1, beq_self_eq_true _⟩, fun entry he => ?_⟩
      simp only [Store.get, Option.filter_eq_none_iff, decide_eq_true_eq, not_lt] at hnone
      exact (hnone entry he).trans hclock.ge
    · exact hK token ht
  | _ => exact hK

/-- The challenges that were replaced are neither in the cache nor in hand. -/
structure Current (c : Config Store Point) : Prop where
  cached : Over c.store
  hand : ∀ q ∈ c.procs, ∀ token ∈ carried q, token ∉ c.store.replaced

/-- A challenge that is taken was not replaced. -/
theorem Over.takes (hK : Over s) {now : Time} (hle : s.clock ≤ now) {token : ℕ} (h : takes s p now = some token) :
    token ∉ s.replaced := by
  intro hrep
  obtain ⟨entry, hcache, hlt⟩ := cache_of_takes h
  exact (((hK token hrep).2 entry hcache).trans hle).not_gt hlt

theorem current_step {a : Act Point Input} {c' : Config Store Point} (hc : Holds (Inv E) (Knows E) c)
    (hC : Current c) (h : (program E).step c a = some c') (hok : Forgotten ⟨c, a, c'⟩) : Current c' := by
  constructor
  · rcases (program E).step_store h with heq | ⟨p, e, k, hf, hm⟩
    · rw [heq]
      exact hC.cached
    · obtain ⟨hle, heff⟩ := effect hm
      exact heff.over (hc.1.at e.now) (fun token ht => (hok (p, e) hf.fired token ht).1) rfl (hC.cached.at hle)
  · intro q hq token ht
    rcases carried_of_step h hq ht with ⟨q₀, hq₀, ht₀⟩ | ⟨p, e, hf, htake⟩
    · have hnot := hC.hand q₀ hq₀ token ht₀
      rcases (program E).step_store h with heq | ⟨p, e, k, hf, hm⟩
      · rw [heq]
        exact hnot
      · rw [(effect hm).2.replaced, List.mem_append, not_or]
        exact ⟨fun hr => (hok (p, e) hf.fired token hr).2 q₀ hq₀ ht₀, hnot⟩
    · obtain ⟨i, rfl, hp⟩ := hf
      obtain ⟨k, hm⟩ := (program E).move_of_step hp h
      obtain ⟨hle, heff⟩ := effect hm
      -- A submission that takes a challenge replaces none.
      have hnone : replaces { c.store with clock := e.now } p = [] := by
        cases p <;> first | rfl | cases htake
      rw [heff.replaced, hnone, List.nil_append]
      exact hC.cached.takes hle htake

/-- As long as older challenges are gone when one is stored, those that were replaced are
neither in the cache nor in hand. -/
theorem current_of_run (h : (program E).Run start tr c) (hok : ∀ st ∈ tr, Forgotten st) : Current c := by
  induction h with
  | nil => exact ⟨fun _ h => (List.not_mem_nil h).elim, fun _ h => (List.not_mem_nil h).elim⟩
  | snoc a hr hs ih =>
    exact current_step (holds_of_run hr) (ih fun st hst => hok st (List.mem_append_left _ hst)) hs (hok _ (by simp))

/-- A challenge that was replaced is not accepted. -/
theorem not_accepts_of_current {st : Step Store Point Input} {token : ℕ} {now : Time} (hC : Current st.pre)
    (hs : (program E).step st.pre st.act = some st.post) (h : Accepts st token now) :
    token ∉ st.pre.store.replaced := by
  obtain ⟨p, e, hf, rfl, ha⟩ := h
  obtain ⟨hmem, k, hm⟩ := (program E).move_of_fires hs hf
  rcases carried_or_takes_of_accepts ha with ht | ht
  · exact hC.hand p hmem token ht
  · exact hC.cached.takes (effect hm).1 ht

/-! ### Challenges along runs -/

/-- A challenge has one code checked as long as submissions that take an entry do not
overlap; it is accepted before it expires, as long as none expires in hand, and not once
it was replaced, as long as it was forgotten by then; and a session is granted for the
user it was created for. -/
theorem challenge_of_run (h : (program E).Run start tr c) :
    ((∀ st ∈ tr, Alone st) → ∀ token, c.store.checked.count token ≤ 1) ∧
    ((∀ st ∈ tr, InTime st) → ∀ st ∈ tr, ∀ token now, Accepts st token now →
      ∃ ch, st.pre.store.challenge token = some ch ∧ now < ch.expiresAt) ∧
    ((∀ st ∈ tr, Forgotten st) → ∀ st ∈ tr, ∀ token now, Accepts st token now →
      token ∉ st.pre.store.replaced) ∧
    ∀ g ∈ c.store.granted, CreatedFor c.store g.1 g.2 := by
  refine ⟨fun hok token => ?_, fun hok st hst token now ha => ?_, fun hok st hst token now ha => ?_,
    (holds_of_run h).1.granted⟩
  · have := (once_of_run h hok token).one
    omega
  · obtain ⟨tr₁, tr₂, rfl, hr, -, -⟩ := h.of_mem (program E) hst
    have hu := unexpired_of_run hr fun st hst => hok st (List.mem_append_left _ hst)
    exact accepts_before (holds_of_run hr) hu (hok st hst) ha
  · obtain ⟨tr₁, tr₂, rfl, hr, hs, -⟩ := h.of_mem (program E) hst
    exact not_accepts_of_current (current_of_run hr fun st hst => hok st (List.mem_append_left _ hst)) hs ha

/-! ### A run with each outcome -/

namespace Sample

def env : Env := ⟨[⟨7, "a@example.org"⟩], fun a b => a == b, 5⟩

def go (n i : ℕ) : List (Act Point Input) := List.replicate n (.move i ⟨0, true⟩)

def login : Act Point Input := .arrive (.startLogin 1 "a@example.org" false)

/-- Two submissions in one session; one reads the entry before the other has deleted it. -/
def overlapping : List (Act Point Input) :=
  login :: go 5 0 ++ [.arrive (.submit 1), .arrive (.submit 1)] ++ go 3 0 ++ go 3 1 ++ go 3 0 ++ go 3 1

/-- Two logins start in one session before either has stored its challenge. -/
def concurrentLogins : List (Act Point Input) :=
  [login, login] ++ go 1 0 ++ go 1 1 ++ go 4 0 ++ .arrive (.submit 1) :: go 1 1 ++ go 4 0 ++ go 2 0

/-- A submission reads the entry, and the rest of it takes a day. -/
def late : List (Act Point Input) :=
  login :: go 5 0 ++ .arrive (.submit 1) :: go 3 0 ++ List.replicate 4 (.move 0 ⟨minutes 1440, true⟩)

/-- Two logins, one after the other, and two submissions after them. -/
def oneByOne : List (Act Point Input) :=
  login :: go 5 0 ++ login :: go 5 0 ++ .arrive (.submit 1) :: go 7 0 ++ .arrive (.submit 1) :: go 4 0

end Sample

/-- Two overlapping submissions have two codes checked for one challenge; a challenge is
accepted that the newer login did not see; and a session is granted for one that has
expired in hand. -/
theorem guessed_twice : (∃ E tr c, (program E).Run start tr c ∧ c.store.checked.count 0 = 2 ∧
      c.store.granted = [(0, 7), (0, 7)]) ∧
    (∃ E tr c, (program E).Run start tr c ∧
      ∃ st ∈ tr, ∃ token now, Accepts st token now ∧ token ∈ st.pre.store.replaced) ∧
    ∃ E tr c, (program E).Run start tr c ∧ c.store.granted = [(0, 7)] ∧
      ∃ st ∈ tr, ∃ token now, Accepts st token now ∧ ∃ ch ∈ st.pre.store.challenge token, ch.expiresAt < now := by
  refine ⟨?_, ?_, ?_⟩
  · obtain ⟨tr, c, h, hc⟩ := (program Sample.env).exists_run_of_replay (Sample.overlapping ++ Sample.go 2 0) (c := start)
      (q := fun _ c => c.store.checked.count 0 == 2 && c.store.granted == [(0, 7), (0, 7)]) (by decide)
    simp only [Bool.and_eq_true, beq_iff_eq] at hc
    exact ⟨Sample.env, tr, c, h, hc⟩
  · obtain ⟨tr, c, h, hc⟩ := (program Sample.env).exists_run_of_replay Sample.concurrentLogins (c := start)
      (q := fun tr _ => tr.any fun st => st.fired.any fun x =>
        (accepts st.pre.store x.1 x.2).any st.pre.store.replaced.contains) (by decide)
    simp only [List.any_eq_true, Option.any_eq_true, List.contains_iff_mem] at hc
    obtain ⟨st, hst, x, hx, token, ht, hr⟩ := hc
    exact ⟨Sample.env, tr, c, h, st, hst, token, x.2.now, ⟨x.1, x.2, Step.fires_of_fired hx, rfl, ht⟩, hr⟩
  · obtain ⟨tr, c, h, hc⟩ := (program Sample.env).exists_run_of_replay Sample.late (c := start)
      (q := fun tr c => c.store.granted == [(0, 7)] && tr.any fun st => st.fired.any fun x : Point × Input =>
        (accepts st.pre.store x.1 x.2).any fun token =>
          (st.pre.store.challenge token).any fun ch : Challenge => decide (ch.expiresAt < x.2.now)) (by decide)
    simp only [Bool.and_eq_true, beq_iff_eq, List.any_eq_true, Option.any_eq_true, decide_eq_true_eq] at hc
    obtain ⟨hg, st, hst, x, hx, token, ht, hlt⟩ := hc
    exact ⟨Sample.env, tr, c, h, hg, st, hst, token, x.2.now, ⟨x.1, x.2, Step.fires_of_fired hx, rfl, ht⟩, hlt⟩

/-- The challenge of the second login is accepted, once. -/
theorem challenge_oneByOne : ∃ tr c, (program Sample.env).Run start tr c ∧ c.store.granted = [(1, 7)] ∧
    c.store.replaced = [0] ∧ (∀ token, c.store.checked.count token ≤ 1) ∧
    (∀ g ∈ c.store.granted, CreatedFor c.store g.1 g.2) ∧
    (∀ st ∈ tr, ∀ token now, Accepts st token now →
      ∃ ch, st.pre.store.challenge token = some ch ∧ now < ch.expiresAt) ∧
    ∀ st ∈ tr, ∀ token now, Accepts st token now → token ∉ st.pre.store.replaced := by
  obtain ⟨tr, c, h, hc⟩ := (program Sample.env).exists_run_of_replay Sample.oneByOne (c := start)
    (q := fun tr c => c.store.granted == [(1, 7)] && c.store.replaced == [0] &&
      tr.all fun st => decide (Alone st) && decide (InTime st) && decide (Forgotten st)) (by decide)
  simp only [Bool.and_eq_true, beq_iff_eq, List.all_eq_true, decide_eq_true_eq] at hc
  have hch := challenge_of_run h
  exact ⟨tr, c, h, hc.1.1, hc.1.2, hch.1 fun st hst => (hc.2 st hst).1.1, hch.2.2.2,
    hch.2.1 fun st hst => (hc.2 st hst).1.2, hch.2.2.1 fun st hst => (hc.2 st hst).2⟩

end TwoFactor
end Daywright
