/-
# There is always an administrator

`AdminAccessService::revokeAdminAccess` locks the rows of all administrators, counts
them, and does not revoke the last one; whoever is counted stays an administrator until
the transaction is over. `UserService::deleteUser` counts nothing: it deletes the
account of an administrator, even the last one (`last_admin_deleted`). Accounts are
removed for good only after that.

So there is always an administrator exactly as long as each account is deleted while
there is another one (`hasAdmin_iff`).

Key definitions: `User`, `Request`, `Statement`, `adminAccessService`, `HasAdmin`, `AnotherAdmin`.
Key theorem: `hasAdmin_iff`.
-/
import Mathlib.Data.List.Perm.Subperm
import Daywright.Guard
import Daywright.Table

namespace Daywright
namespace Admin

open Interleave Guard

/-- The columns of a user that decide who is an administrator. -/
structure User where
  id : ℕ
  isAdmin : Bool
  trashed : Bool
  deriving DecidableEq, Repr

/-- An administrator whose account is not deleted. -/
def User.activeAdmin (u : User) : Bool := u.isAdmin && !u.trashed

abbrev Data := List User

/-- The request that runs in a transaction. -/
structure Request where
  revokedBy : ℕ
  user : ℕ
  deriving DecidableEq

inductive Statement where
  | grantAdminAccess (performedBy user : ℕ)
  | deleteUser (actor user : ℕ)
  | forceDelete (actor user : ℕ)
  /-- An account that has been deleted for long enough. -/
  | purge (user : ℕ)
  deriving DecidableEq

inductive Refusal where
  | modelNotFound
  | forbidden
  | conflict (message : String)
  | validation (key message : String)
  deriving DecidableEq, Repr

/-- The user, if not deleted. -/
def find (d : Data) (id : ℕ) : Option User := d.find? fun u => u.id == id && !u.trashed

def isAdmin (d : Data) (actor : ℕ) : Bool := (find d actor).any (·.isAdmin)

/-- `UsersPolicy`: an administrator may do anything, and a user what is theirs. -/
def owner (d : Data) (actor target : ℕ) : Bool := isAdmin d actor || ((find d actor).isSome && actor == target)

def setAdmin (id : ℕ) (isAdmin : Bool) (d : Data) : Data :=
  Table.updateWhere (fun u => u.id == id) (fun u => { u with isAdmin := isAdmin }) d

/-- `EnsureUserIsAdmin`, and the user that the route names. -/
def refuse (d : Data) (q : Request) : Option Refusal :=
  if !isAdmin d q.revokedBy then some .forbidden
  else if (find d q.user).isNone then some .modelNotFound
  else none

/-- The rows of `where('is_admin', true)`. -/
def lockedAdmins (d : Data) : List ℕ := (d.filter User.activeAdmin).map User.id

def ensureRevokeable (q : Request) (lockedAdmins : List ℕ) : Option Refusal :=
  if !lockedAdmins.contains q.user then some (.validation "user" "Selected user does not have admin access.")
  else if lockedAdmins.length ≤ 1 then some (.validation "user" "Cannot revoke the last admin account.")
  else none

/-- The user whose access is cleared. -/
def clearGrantAccess (d : Data) (q : Request) : Except Refusal ℕ :=
  match find d q.user with
  | none => .error .modelNotFound
  | some u => .ok u.id

def refuseStatement (d : Data) : Statement → Option Refusal
  | .grantAdminAccess performedBy user =>
    if !isAdmin d performedBy then some .forbidden
    else
      match find d user with
      | none => some .modelNotFound
      | some u => if u.isAdmin then some (.validation "user" "Selected user already has admin access.") else none
  | .deleteUser actor user =>
    if (find d user).isNone then some .modelNotFound
    else if !owner d actor user then some .forbidden
    else none
  | .forceDelete actor user =>
    match d.find? fun u => u.id == user with
    | none => some .modelNotFound
    | some u =>
      if !owner d actor user then some .forbidden
      else if !u.trashed then some (.conflict "User must be soft-deleted before force deletion.")
      else none
  | .purge user =>
    match d.find? fun u => u.id == user with
    | none => some .modelNotFound
    | some u => if u.trashed then none else some .modelNotFound

def statement (d : Data) : Statement → Data
  | .grantAdminAccess _ user => setAdmin user true d
  | .deleteUser _ user => Table.updateWhere (fun u => u.id == user) (fun u => { u with trashed := true }) d
  | .forceDelete _ user | .purge user => d.filter fun u => u.id != user

def Statement.user : Statement → ℕ
  | .grantAdminAccess _ user | .deleteUser _ user | .forceDelete _ user | .purge user => user

def adminAccessService : Service Data ℕ Request ℕ Statement Refusal where
  refuse := refuse
  lock d _ := .ok (lockedAdmins d)
  check _ q rows := ensureRevokeable q rows
  callback := clearGrantAccess
  write d user := setAdmin user false d
  refuseStatement := refuseStatement
  statement := statement
  rows f := [f.user]

/-! ### What the lock is good for -/

def HasAdmin (d : Data) : Prop := ∃ u ∈ d, u.activeAdmin = true

/-- An account is deleted while another administrator is there. -/
def AnotherAdmin (s : Store Data ℕ Request ℕ) (f : Statement) : Prop :=
  ∀ actor user, f = .deleteUser actor user → ∃ u ∈ s.data, u.id ≠ user ∧ u.activeAdmin = true

instance (s : Store Data ℕ Request ℕ) (f : Statement) : Decidable (AnotherAdmin s f) :=
  match f with
  | .deleteUser _ user => decidable_of_iff (∃ u ∈ s.data, u.id ≠ user ∧ u.activeAdmin = true)
    ⟨fun h _ _ he => by cases he; exact h, fun h => h _ _ rfl⟩
  | .grantAdminAccess _ _ | .forceDelete _ _ | .purge _ => isTrue fun _ _ he => by cases he

/-- The users are told apart, and one is an administrator. -/
structure Inv (d : Data) : Prop where
  ids : (d.map User.id).Nodup
  hasAdmin : HasAdmin d

/-- The users that a revocation has locked are administrators; once it is let through,
they are more than the one whose access it clears. -/
structure Holds (d : Data) (tx : Tx ℕ Request ℕ) : Prop where
  admins : ∀ k ∈ tx.keys, ∃ u ∈ d, u.id = k ∧ u.activeAdmin = true
  distinct : tx.keys.Nodup
  admitted : tx.stage ≠ .locked → tx.request.user ∈ tx.keys ∧ 1 < tx.keys.length
  decided : ∀ w, tx.stage = .decided w → w = tx.request.user

/-- An account that is about to be removed has been deleted. -/
def Seen (d : Data) (x : Request ⊕ Statement) : Prop :=
  ∀ user, ((∃ actor, x = .inr (.forceDelete actor user)) ∨ x = .inr (.purge user)) →
    ∀ u ∈ d, u.id = user → u.trashed = true

variable {d d' : Data} {user : ℕ} {f : Statement}

theorem mem_setAdmin {b : Bool} {u : User} (hu : u ∈ d) :
    (if u.id = user then { u with isAdmin := b } else u) ∈ setAdmin user b d := by
  refine Table.mem_updateWhere.mpr ⟨u, hu, ?_⟩
  simp

/-- An administrator stays one, unless the step is about that user. -/
theorem stays_setAdmin {b : Bool} {u : User} (hu : u ∈ d) (hne : u.id ≠ user ∨ b = true) (ha : u.activeAdmin = true) :
    ∃ u' ∈ setAdmin user b d, u'.id = u.id ∧ u'.activeAdmin = true := by
  refine ⟨_, mem_setAdmin hu, ?_⟩
  split
  · rename_i hid
    obtain hne | rfl := hne
    · exact absurd hid hne
    · refine ⟨rfl, ?_⟩
      simp only [User.activeAdmin, Bool.and_eq_true] at ha
      simp [User.activeAdmin, ha.2]
  · exact ⟨rfl, ha⟩

theorem stays_statement {u : User} (hu : u ∈ d) (hne : u.id ≠ f.user) (ha : u.activeAdmin = true) :
    ∃ u' ∈ statement d f, u'.id = u.id ∧ u'.activeAdmin = true := by
  cases f with
  | grantAdminAccess _ user => exact stays_setAdmin hu (.inr rfl) ha
  | deleteUser _ user =>
    refine ⟨u, Table.mem_updateWhere.mpr ⟨u, hu, ?_⟩, rfl, ha⟩
    rw [if_neg (by simpa [Statement.user] using hne)]
  | forceDelete | purge => exact ⟨u, List.mem_filter.mpr ⟨hu, by simpa [Statement.user] using hne⟩, rfl, ha⟩

theorem map_id_setAdmin {b : Bool} : (setAdmin user b d).map User.id = d.map User.id :=
  Table.map_updateWhere fun _ => rfl

/-- Nobody gets a new number, and a deleted account stays deleted. -/
theorem origin_statement {u' : User} (h : u' ∈ statement d f) :
    ∃ u ∈ d, u.id = u'.id ∧ (u.trashed = true → u'.trashed = true) := by
  cases f with
  | grantAdminAccess | deleteUser =>
    obtain ⟨u, hu, rfl⟩ := Table.mem_updateWhere.mp h
    refine ⟨u, hu, ?_⟩
    split <;> simp
  | forceDelete | purge => exact ⟨u', List.mem_of_mem_filter h, rfl, id⟩

theorem ids_statement (h : (d.map User.id).Nodup) : ((statement d f).map User.id).Nodup := by
  cases f with
  | grantAdminAccess =>
    rw [statement, map_id_setAdmin]
    exact h
  | deleteUser =>
    rw [statement, Table.map_updateWhere]
    · exact h
    · exact fun _ => rfl
  | forceDelete | purge => exact (List.filter_sublist.map _).nodup h

theorem stays_of_holds {tx : Tx ℕ Request ℕ} (h : Holds d tx)
    (hs : ∀ u ∈ d, u.id ∈ tx.keys → u.activeAdmin = true → ∃ u' ∈ d', u'.id = u.id ∧ u'.activeAdmin = true) :
    Holds d' tx where
  admins k hk := by
    obtain ⟨u, hu, rfl, ha⟩ := h.admins k hk
    exact hs u hu hk ha
  distinct := h.distinct
  admitted := h.admitted
  decided := h.decided

/-- A revocation that is let through has locked another administrator. -/
theorem Holds.another {tx : Tx ℕ Request ℕ} (h : Holds d tx) (hst : tx.stage ≠ .locked) :
    ∃ u ∈ d, u.id ≠ tx.request.user ∧ u.activeAdmin = true := by
  obtain ⟨-, hlt⟩ := h.admitted hst
  obtain ⟨k, hk, hne⟩ : ∃ k ∈ tx.keys, k ≠ tx.request.user := by
    by_contra hall
    have hsub : tx.keys ⊆ [tx.request.user] := fun k hk => List.mem_singleton.mpr (by
      by_contra hne
      exact hall ⟨k, hk, hne⟩)
    have := (List.subperm_of_subset h.distinct hsub).length_le
    rw [List.length_singleton] at this
    omega
  obtain ⟨u, hu, rfl, ha⟩ := h.admins k hk
  exact ⟨u, hu, hne, ha⟩

theorem ensureRevokeable_none {q : Request} {rows : List ℕ} (h : ensureRevokeable q rows = none) :
    q.user ∈ rows ∧ 1 < rows.length := by
  unfold ensureRevokeable at h
  split at h
  · cases h
  · rename_i hc
    split at h
    · cases h
    · rename_i hlt
      exact ⟨by simpa using hc, by omega⟩

theorem seen_of_refuse (hids : (d.map User.id).Nodup) (h : refuseStatement d f = none) : Seen d (.inr f) := by
  rintro user hf u hu rfl
  obtain ⟨v, hfind, htr⟩ : ∃ v, (d.find? fun v => v.id == u.id) = some v ∧ v.trashed = true := by
    rcases hf with ⟨actor, hf⟩ | hf <;> cases hf
    · simp only [refuseStatement] at h
      split at h
      · cases h
      · rename_i v hfind
        split at h
        · cases h
        split at h
        · cases h
        · rename_i htr
          exact ⟨v, hfind, by simpa using htr⟩
    · simp only [refuseStatement] at h
      split at h
      · cases h
      · rename_i v hfind
        split at h
        · rename_i htr
          exact ⟨v, hfind, htr⟩
        · cases h
  have hid : v.id = u.id := by simpa using List.find?_some hfind
  rw [← List.inj_on_of_nodup_map hids (List.mem_of_find?_eq_some hfind) hu hid]
  exact htr

theorem seen_setAdmin {b : Bool} {x : Request ⊕ Statement} (h : Seen d x) : Seen (setAdmin user b d) x := by
  intro target hx u' hu' hid
  obtain ⟨u, hu, rfl⟩ := Table.mem_updateWhere.mp hu'
  have hid' : u.id = target := by
    rw [← hid]
    split <;> rfl
  have := h target hx u hu hid'
  split <;> exact this

theorem seen_statement {x : Request ⊕ Statement} (h : Seen d x) : Seen (statement d f) x := by
  intro target hx u' hu' hid
  obtain ⟨u, hu, hid', htr⟩ := origin_statement hu'
  exact htr (h target hx u hu (hid'.trans hid))

/-- A statement leaves an administrator, if it deletes no account or leaves another. -/
theorem hasAdmin_statement {s : Store Data ℕ Request ℕ} (hI : Inv s.data) (hseen : Seen s.data (.inr f))
    (hok : AnotherAdmin s f) : HasAdmin (statement s.data f) := by
  obtain ⟨u, hu, hne, ha⟩ : ∃ u ∈ s.data, (u.id ≠ f.user ∨ ∃ p, f = .grantAdminAccess p u.id) ∧
      u.activeAdmin = true := by
    cases f with
    | grantAdminAccess p user =>
      obtain ⟨u, hu, ha⟩ := hI.hasAdmin
      by_cases hid : u.id = user
      · exact ⟨u, hu, .inr ⟨p, hid ▸ rfl⟩, ha⟩
      · exact ⟨u, hu, .inl hid, ha⟩
    | deleteUser actor user =>
      obtain ⟨u, hu, hne, ha⟩ := hok actor user rfl
      exact ⟨u, hu, .inl hne, ha⟩
    | forceDelete | purge =>
      obtain ⟨u, hu, ha⟩ := hI.hasAdmin
      refine ⟨u, hu, .inl fun hid => ?_, ha⟩
      have htr := hseen _ (by simp [Statement.user]) u hu hid
      simp [User.activeAdmin, htr] at ha
  rcases hne with hne | ⟨p, rfl⟩
  · obtain ⟨u', hu', -, ha'⟩ := stays_statement hu hne ha
    exact ⟨u', hu', ha'⟩
  · obtain ⟨u', hu', -, ha'⟩ := stays_setAdmin (b := true) hu (.inr rfl) ha
    exact ⟨u', hu', ha'⟩

theorem isProtected : Protected adminAccessService AnotherAdmin Inv Holds Seen where
  refuse _ _ _ _ _ hx := by simp at hx
  refuseStatement _ _ hI h := seen_of_refuse hI.ids h
  lock d q ks id hI _ h := by
    cases h
    refine ⟨fun k hk => ?_, (List.filter_sublist.map _).nodup hI.ids, fun h => absurd rfl h, by rintro _ ⟨⟩⟩
    obtain ⟨u, hu, rfl⟩ := List.mem_map.mp hk
    obtain ⟨hu, ha⟩ := List.mem_filter.mp hu
    exact ⟨u, hu, rfl, ha⟩
  check d q ks id _ hh h := ⟨hh.admins, hh.distinct, fun _ => ensureRevokeable_none h, by rintro _ ⟨⟩⟩
  callback d q ks id w _ hh h := by
    refine ⟨hh.admins, hh.distinct, fun _ => hh.admitted (by simp), ?_⟩
    rintro _ ⟨⟩
    simp only [adminAccessService, clearGrantAccess] at h
    split at h <;> cases h
    rename_i u hf
    have := List.find?_some hf
    simp only [Bool.and_eq_true, beq_iff_eq] at this
    exact this.1
  write d q ks id w hI hh := by
    obtain rfl : w = q.user := hh.decided w rfl
    obtain ⟨u, hu, hne, ha⟩ := hh.another (by simp)
    obtain ⟨u', hu', -, ha'⟩ := stays_setAdmin (b := false) hu (.inl hne) ha
    have hids : (setAdmin q.user false d).map User.id = d.map User.id := map_id_setAdmin
    exact ⟨hids ▸ hI.ids, u', hu', ha'⟩
  writeFrame d q ks id w tx _ hh htx hapart := by
    obtain rfl : w = q.user := hh.decided w rfl
    refine stays_of_holds htx fun u hu hk ha => stays_setAdmin (b := false) hu (.inl fun hid => ?_) ha
    exact hapart u.id hk (hid ▸ (hh.admitted (by simp)).1)
  writeSeen _ _ _ _ _ _ _ _ hx := seen_setAdmin hx
  statement s f hI hok hseen _ := ⟨ids_statement hI.data.ids, hasAdmin_statement hI.data hseen hok⟩
  statementFrame s f tx hI _ _ hfree htx := by
    refine stays_of_holds (hI.holds tx htx) fun u hu hk ha => stays_statement hu (fun hid => ?_) ha
    exact hfree tx htx u.id hk (hid ▸ List.mem_singleton_self _)
  statementSeen _ _ _ _ _ hx := seen_statement hx

/-! ### Runs -/

/-- The account that is deleted is that of the last administrator. -/
theorem not_hasAdmin_deleteUser (actor : ℕ) (h : ¬ ∃ u ∈ d, u.id ≠ user ∧ u.activeAdmin = true) :
    ¬ HasAdmin (statement d (.deleteUser actor user)) := by
  rintro ⟨u', hu', ha⟩
  obtain ⟨u, hu, rfl⟩ := Table.mem_updateWhere.mp hu'
  split at ha
  · simp [User.activeAdmin] at ha
  · rename_i hid
    exact h ⟨u, hu, by simpa using hid, ha⟩

/-- A step leaves an administrator exactly if it does not delete the account of the last one. -/
theorem hasAdmin_step_iff {s s' : Store Data ℕ Request ℕ} {p : Point Request ℕ Statement Refusal} {e : Reply}
    {k : Option (Point Request ℕ Statement Refusal)} (hI : Guard.Inv Inv Holds s) (hA : Knows Seen s p)
    (hm : adminAccessService.program.move s p e = some (s', k)) :
    HasAdmin s'.data ↔ Made AnotherAdmin s p e := by
  constructor
  · rintro hadmin f rfl rfl
    simp only [Service.program, Service.step] at hm
    split at hm <;> cases hm
    rintro actor user rfl
    by_contra hno
    exact not_hasAdmin_deleteUser actor hno hadmin
  · intro hok
    exact (isProtected.step hI hA hok hm).1.data.hasAdmin

/-- No transaction is under way. -/
def start (d : Data) : Config (Store Data ℕ Request ℕ) (Point Request ℕ Statement Refusal) := ⟨⟨d, [], 0⟩, []⟩

theorem holds_start (h : Inv d) : Interleave.Holds (Guard.Inv Inv Holds) (Knows Seen) (start d) :=
  ⟨{ data := h, holds := by rintro _ ⟨⟩, lt := by rintro _ ⟨⟩, apart := .nil }, by rintro _ ⟨⟩⟩

/-- **There is always an administrator** exactly if each account is deleted while there
is another one. -/
theorem hasAdmin_iff (hids : (d.map User.id).Nodup) (hadmin : HasAdmin d) {tr c}
    (h : adminAccessService.program.Run (start d) tr c) :
    (∀ st ∈ tr, HasAdmin st.post.store.data) ↔ ∀ st ∈ tr, st.Meets (Made AnotherAdmin) :=
  isProtected.outline.forall_store_iff (fun _ hI => hI.data.hasAdmin)
    (fun _ _ _ _ _ hI hA hm => hasAdmin_step_iff hI hA hm) (holds_start ⟨hids, hadmin⟩) h

namespace Sample

def admins : Data := [⟨1, true, false⟩, ⟨2, true, false⟩, ⟨3, true, false⟩]

end Sample

/-- The only administrator deletes their own account. -/
theorem last_admin_deleted : ∃ d tr c, (d.map User.id).Nodup ∧ HasAdmin d ∧
    adminAccessService.program.Run (start d) tr c ∧ ¬ HasAdmin c.store.data := by
  obtain ⟨tr, c, h, hc⟩ := adminAccessService.program.exists_run_of_replay
    [.arrive (.ask (.deleteUser 1 1)), .move 0 .done, .move 0 .done] (c := start [⟨1, true, false⟩, ⟨2, false, false⟩])
    (q := fun _ c => c.store.data.all fun u => !u.activeAdmin) (by decide)
  refine ⟨_, tr, c, by decide, ⟨⟨1, true, false⟩, by simp, rfl⟩, h, ?_⟩
  rintro ⟨u, hu, ha⟩
  simpa [ha] using List.all_eq_true.mp hc u hu

/-- An administrator deletes their account; two others revoke each other's access at once,
and one request is refused. -/
theorem hasAdmin_revoked : ∃ tr c, adminAccessService.program.Run (start Sample.admins) tr c ∧
    c.store.data.find? (·.id == 3) = some ⟨3, true, true⟩ ∧ lockedAdmins c.store.data = [1] ∧
    ∀ st ∈ tr, HasAdmin st.post.store.data := by
  obtain ⟨tr, c, h, hc⟩ := adminAccessService.program.exists_run_of_replay
    (.arrive (.ask (.deleteUser 3 3)) :: .move 0 .done :: .move 0 .done ::
      .arrive (.request ⟨1, 2⟩) :: .arrive (.request ⟨2, 1⟩) :: .move 1 .done ::
      (List.replicate 5 (.move 0 .done) ++ List.replicate 2 (.move 1 .done))) (c := start Sample.admins)
    (q := fun tr c => (c.store.data.find? (·.id == 3) == some ⟨3, true, true⟩ && lockedAdmins c.store.data == [1]) &&
      tr.all fun st => decide (∀ f ∈ made st, AnotherAdmin st.pre.store f)) (by decide)
  simp only [Bool.and_eq_true, beq_iff_eq, List.all_eq_true, decide_eq_true_eq] at hc
  refine ⟨tr, c, h, hc.1.1, hc.1.2,
    (hasAdmin_iff (by decide) ⟨⟨1, true, false⟩, by simp [Sample.admins], rfl⟩ h).mpr fun st hst => ?_⟩
  exact meets_made (hc.2 st hst)

end Admin
end Daywright
