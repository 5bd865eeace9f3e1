/-
# Transactions on one row

Requests that each run one transaction on the same row, which they read under its
lock. What a transaction does is a `Body`: it saves the row some times and ends with
a commit or a failure. Its saves are seen by nobody else until it commits, and the
database may roll it back at any moment.

However the requests interleave, the row changes only when one of them commits, and
then to what its body makes of the row as it was just before (`row_of_run`). If a
body commits only on the version its request carries, and makes one step of it
whenever it changes the row (`Versioned`), no update is lost
(`Versioned.noLostUpdate`): a version is one state of the row, and no two requests
that change the row carry the same.

Key definitions: `Body`, `Body.Commits`, `Service`, `Service.program`, `Versioned`,
`NoLostUpdate`.
Key theorems: `outline`, `row_of_run`, `Versioned.noLostUpdate`.
-/
import Daywright.Interleave
import Mathlib.Algebra.Order.Ring.Int

namespace Transaction

open Interleave

/-- What is left of a transaction; a save may depend on an input of its step. -/
inductive Body (α ε τ : Type*) where
  | commit (model : α)
  | fail (e : ε)
  | save (write : τ → α) (next : τ → Body α ε τ)

variable {α ρ ε τ : Type*}

namespace Body

/-- The saves that lead from `b`, on a row `r`, to `b'` and the row `r'`. -/
inductive Saves (b : Body α ε τ) (r : α) : Body α ε τ → α → Prop
  | refl : Saves b r b r
  | save {write : τ → α} {next : τ → Body α ε τ} {r' : α} (t : τ) :
      Saves b r (.save write next) r' → Saves b r (next t) (write t)

/-- The body, run on the row `r`, commits the row `r'` and returns `model`. -/
def Commits (b : Body α ε τ) (r r' model : α) : Prop := Saves b r (.commit model) r'

variable {b b' : Body α ε τ} {r r' model : α} {e : ε} {write : τ → α} {next : τ → Body α ε τ}

/-- The first save of a body comes first. -/
theorem Saves.cases_save (h : Saves (.save write next) r b' r') :
    (b' = .save write next ∧ r' = r) ∨ ∃ t, Saves (next t) (write t) b' r' := by
  induction h with
  | refl => exact .inl ⟨rfl, rfl⟩
  | save t _ ih =>
    rcases ih with ⟨he, -⟩ | ⟨t₀, h⟩
    · cases he
      exact .inr ⟨t, .refl⟩
    · exact .inr ⟨t₀, h.save t⟩

theorem Saves.of_commit (h : Saves (.commit model) r b' r') : b' = .commit model ∧ r' = r := by
  induction h with
  | refl => exact ⟨rfl, rfl⟩
  | save _ _ ih => cases ih.1

theorem Saves.of_fail (h : Saves (.fail e) r b' r') : b' = .fail e ∧ r' = r := by
  induction h with
  | refl => exact ⟨rfl, rfl⟩
  | save _ _ ih => cases ih.1

@[simp] theorem commits_commit {model' : α} : Commits (.commit model' : Body α ε τ) r r' model ↔
    model = model' ∧ r' = r := by
  constructor
  · intro h
    obtain ⟨he, hr⟩ := Saves.of_commit h
    cases he
    exact ⟨rfl, hr⟩
  · rintro ⟨rfl, rfl⟩
    exact .refl

@[simp] theorem commits_fail : ¬ Commits (.fail e : Body α ε τ) r r' model := fun h => by
  cases (Saves.of_fail h).1

@[simp] theorem commits_save : Commits (.save write next) r r' model ↔
    ∃ t, Commits (next t) (write t) r' model := by
  constructor
  · intro h
    rcases Saves.cases_save h with ⟨he, -⟩ | h
    · cases he
    · exact h
  · rintro ⟨t, h⟩
    have extend : ∀ {b' r'}, Saves (next t) (write t) b' r' → Saves (.save write next) r b' r' := by
      intro b' r' h
      induction h with
      | refl => exact Saves.refl.save t
      | save t' _ ih => exact ih.save t'
    exact extend h

/-- A save, of which what comes next depends only on the row it leaves. -/
def update (write : τ → α) (next : α → Body α ε τ) : Body α ε τ := .save write fun t => next (write t)

@[simp] theorem commits_update {next : α → Body α ε τ} : Commits (.update write next) r r' model ↔
    ∃ t, Commits (next (write t)) (write t) r' model := commits_save

/-- The body with its failures renamed. -/
def mapError {ε' : Type*} (f : ε → ε') : Body α ε τ → Body α ε' τ
  | .commit model => .commit model
  | .fail e => .fail (f e)
  | .save write next => .save write fun t => (next t).mapError f

@[simp] theorem commits_mapError {ε' : Type*} {f : ε → ε'} : ∀ {b : Body α ε τ} {r : α},
    (b.mapError f).Commits r r' model ↔ b.Commits r r' model
  | .commit _, _ => by rw [mapError, commits_commit, commits_commit]
  | .fail _, _ => by rw [mapError, iff_false_right commits_fail]; exact commits_fail
  | .save write next, _ => by
    rw [mapError, commits_save, commits_save]
    exact exists_congr fun t => commits_mapError

end Body

/-- How the database answers a statement. -/
inductive Reply where
  | done
  | failed
  /-- It took effect, and was reported as failed. -/
  | lost
  deriving DecidableEq, Repr

/-- What a request is refused for before its transaction, and the transaction. -/
structure Service (α ρ ε τ : Type*) where
  refuse : ρ → Option ε
  body : ρ → α → Body α ε τ

/-- Where a request stands. -/
inductive Point (α ρ ε τ : Type*) where
  | request (q : ρ)
  /-- About to lock and read the row. -/
  | lock (q : ρ)
  | running (tx : ℕ) (q : ρ) (b : Body α ε τ)
  | committed (q : ρ) (model : α)
  | answered (q : ρ) (result : Except ε α)
  /-- The database rolls back the transaction that holds the lock. -/
  | rollback

structure Input (τ : Type*) where
  value : τ
  reply : Reply

/-- The committed row; the transaction that holds its lock and the row as it has
written it; and the number of the next transaction. -/
structure Store (α : Type*) where
  row : α
  held : Option (ℕ × α)
  next : ℕ

namespace Store

variable (s : Store α)

/-- The lock is given up, and the row is as it was. -/
def release : Store α := { s with held := none }

/-- The transaction has the lock, and has written the row so. -/
def holding (tx : ℕ) (r : α) : Store α := { s with held := some (tx, r) }

/-- What the transaction has written becomes the row. -/
def commit (r : α) : Store α := { s with row := r, held := none }

end Store

/-- A statement of the transaction that holds the lock, having written the row `r`. -/
def runStep (s : Store α) (tx : ℕ) (r : α) (q : ρ) (e : Input τ) :
    Body α ε τ → Store α × Option (Point α ρ ε τ)
  | .save write next =>
    match e.reply with
    | .done => (s.holding tx (write e.value), some (.running tx q (next e.value)))
    | _ => (s.release, none)
  | .fail x => (s.release, some (.answered q (.error x)))
  | .commit model =>
    match e.reply with
    | .done => (s.commit r, some (.committed q model))
    | .failed => (s.release, none)
    | .lost => (s.commit r, none)

namespace Service

variable (S : Service α ρ ε τ)

def step (s : Store α) (p : Point α ρ ε τ) (e : Input τ) : Option (Store α × Option (Point α ρ ε τ)) :=
  match p with
  | .request q =>
    match S.refuse q with
    | some x => some (s, some (.answered q (.error x)))
    | none => some (s, some (.lock q))
  | .lock q =>
    match s.held, e.reply with
    | none, .done => some (⟨s.row, some (s.next, s.row), s.next + 1⟩, some (.running s.next q (S.body q s.row)))
    -- The lock is waited for, until the database gives up.
    | some _, .done => none
    | _, _ => some (s, none)
  | .running tx q b =>
    match s.held with
    | some (tx', r) => if tx' = tx then some (runStep s tx r q e b) else some (s, none)
    | none => some (s, none)
  | .committed q model =>
    match e.reply with
    | .done => some (s, some (.answered q (.ok model)))
    | _ => some (s, none)
  | .answered _ _ => none
  | .rollback => some (s.release, none)

def program : Program (Store α) (Point α ρ ε τ) (Input τ) where
  entry
    | .request _ | .rollback => true
    | _ => false
  move := S.step

end Service

/-- The row, and no request yet. -/
def start (r : α) : Config (Store α) (Point α ρ ε τ) := ⟨⟨r, none, 0⟩, []⟩

/-! ### What a step can do -/

/-- The process is not in a transaction, nor has it just committed one. -/
def Point.Quiet : Point α ρ ε τ → Prop
  | .running _ _ _ => False
  | .committed _ _ => False
  | _ => True

variable {S : Service α ρ ε τ} {s s' : Store α} {p p' : Point α ρ ε τ} {e : Input τ} {q q' : ρ} {r model : α}
  {k : Option (Point α ρ ε τ)}

inductive Moved (S : Service α ρ ε τ) (s : Store α) (p : Point α ρ ε τ) (e : Input τ) :
    Store α → Option (Point α ρ ε τ) → Prop
  | idle {k : Option (Point α ρ ε τ)} : (∀ p', k = some p' → p'.Quiet) → Moved S s p e s k
  | released {k : Option (Point α ρ ε τ)} : (∀ p', k = some p' → p'.Quiet) → Moved S s p e s.release k
  | locked {q : ρ} : p = .lock q → s.held = none →
      Moved S s p e ⟨s.row, some (s.next, s.row), s.next + 1⟩ (some (.running s.next q (S.body q s.row)))
  | saved {tx : ℕ} {q : ρ} {r : α} {write : τ → α} {next : τ → Body α ε τ} :
      p = .running tx q (.save write next) → s.held = some (tx, r) →
      Moved S s p e (s.holding tx (write e.value)) (some (.running tx q (next e.value)))
  | committed {tx : ℕ} {q : ρ} {r model : α} {k : Option (Point α ρ ε τ)} :
      p = .running tx q (.commit model) → s.held = some (tx, r) → (∀ p', k = some p' → p' = .committed q model) →
      Moved S s p e (s.commit r) k

theorem moved_runStep {tx : ℕ} {b : Body α ε τ} (hp : p = .running tx q b) (hh : s.held = some (tx, r))
    (h : runStep s tx r q e b = (s', k)) : Moved S s p e s' k := by
  cases b with
  | commit model =>
    simp only [runStep] at h
    split at h <;> cases h
    · refine .committed hp hh fun p' hp' => ?_
      cases hp'
      rfl
    · exact .released nofun
    · exact .committed hp hh nofun
  | fail x =>
    cases h
    refine .released fun p' hp' => ?_
    cases hp'
    trivial
  | save write next =>
    simp only [runStep] at h
    split at h <;> cases h
    · exact .saved hp hh
    · exact .released nofun

theorem moved (h : S.program.move s p e = some (s', k)) : Moved S s p e s' k := by
  simp only [Service.program] at h
  cases p with
  | request q =>
    simp only [Service.step] at h
    split at h <;> cases h
    all_goals
      refine .idle fun p' hp' => ?_
      cases hp'
      trivial
  | lock q =>
    simp only [Service.step] at h
    split at h
    · rename_i hh _
      cases h
      exact .locked rfl hh
    · cases h
    · cases h
      exact .idle nofun
  | running tx q b =>
    simp only [Service.step] at h
    split at h
    · rename_i tx' r hh
      split at h
      · rename_i htx
        subst htx
        exact moved_runStep rfl hh (Option.some.inj h)
      · cases h
        exact .idle nofun
    · cases h
      exact .idle nofun
  | committed q model =>
    simp only [Service.step] at h
    split at h <;> cases h
    · refine .idle fun p' hp' => ?_
      cases hp'
      trivial
    · exact .idle nofun
  | answered => cases h
  | rollback =>
    cases h
    exact .released nofun

/-! ### The outline -/

/-- The transaction that holds the lock has begun. -/
def Inv (s : Store α) : Prop := ∀ tx r, s.held = some (tx, r) → tx < s.next

/-- A transaction that holds the lock has written what its body saves on the row. -/
def Knowledge (S : Service α ρ ε τ) (s : Store α) (p : Point α ρ ε τ) : Prop :=
  ∀ tx q b, p = .running tx q b → tx < s.next ∧
    ∀ r, s.held = some (tx, r) → (S.body q s.row).Saves s.row b r

def Distinct (p p' : Point α ρ ε τ) : Prop :=
  ∀ tx q b tx' q' b', p = .running tx q b → p' = .running tx' q' b' → tx ≠ tx'

theorem Point.Quiet.not_running (h : p.Quiet) {tx : ℕ} {b : Body α ε τ} : p ≠ .running tx q b := by
  rintro rfl
  exact h

theorem Point.Quiet.knowledge (h : p.Quiet) : Knowledge S s p := fun _ _ _ hp => absurd hp h.not_running

theorem quiet_of_entry (h : S.program.entry p = true) : p.Quiet := by
  cases p with
  | request | rollback => trivial
  | _ => cases h

theorem Moved.inv (h : Moved S s p e s' k) (hI : Inv s) : Inv s' := by
  cases h with
  | idle => exact hI
  | released | committed => exact nofun
  | locked =>
    rintro tx r hh
    cases hh
    exact Nat.lt_succ_self _
  | saved _ hh =>
    rintro tx r hh'
    cases hh'
    exact hI _ _ hh

theorem Moved.knowledge (h : Moved S s p e s' k) (hK : Knowledge S s p) (hk : k = some p') : Knowledge S s' p' := by
  cases h with
  | idle hq | released hq => exact (hq p' hk).knowledge
  | locked =>
    cases hk
    rintro tx q b hp
    cases hp
    refine ⟨Nat.lt_succ_self _, fun r hr => ?_⟩
    cases hr
    exact .refl
  | saved hp hh =>
    cases hk
    rintro tx q b hp'
    cases hp'
    obtain ⟨hlt, hsaves⟩ := hK _ _ _ hp
    refine ⟨hlt, fun r hr => ?_⟩
    cases hr
    exact (hsaves _ hh).save e.value
  | committed _ _ hq =>
    rw [hq p' hk]
    exact nofun

theorem Moved.frame (h : Moved S s p e s' k) (hK : Knowledge S s p') (hd : Distinct p p') : Knowledge S s' p' := by
  rintro tx q b rfl
  obtain ⟨hlt, hsaves⟩ := hK _ _ _ rfl
  cases h with
  | idle => exact ⟨hlt, hsaves⟩
  | released | committed => exact ⟨hlt, nofun⟩
  | locked =>
    refine ⟨hlt.trans (Nat.lt_succ_self _), fun r hr => ?_⟩
    cases hr
    exact absurd hlt (Nat.lt_irrefl _)
  | saved hp =>
    refine ⟨hlt, fun r hr => ?_⟩
    cases hr
    exact absurd rfl (hd _ _ _ _ _ _ hp rfl)

theorem outline (S : Service α ρ ε τ) : ApartOutline S.program Inv (Knowledge S) Distinct where
  symm _ _ h _ _ _ _ _ _ hp hp' := (h _ _ _ _ _ _ hp' hp).symm
  entry _ _ _ hp := (quiet_of_entry hp).knowledge
  arrive _ _ _ _ hp _ _ _ _ _ _ _ hp' := absurd hp' (quiet_of_entry hp).not_running
  move _ _ _ _ _ hI hK h := ⟨(moved h).inv hI, fun _ hk => (moved h).knowledge hK hk⟩
  goOn s p e s' p₁ p' hI hK hK' hd h := by
    rintro tx q b tx' q' b' rfl rfl
    cases moved h with
    | idle hq | released hq => exact absurd rfl (hq _ rfl).not_running
    | locked =>
      have := (hK' _ _ _ rfl).1
      omega
    | saved hp => exact hd _ _ _ _ _ _ hp rfl
    | committed _ _ hq => cases hq _ rfl
  frame _ _ _ _ _ _ _ _ hK' hd h := (moved h).frame hK' hd

theorem holds_of_run {tr : List (Step (Store α) (Point α ρ ε τ) (Input τ))} {c : Config (Store α) (Point α ρ ε τ)}
    {r₀ : α} (h : S.program.Run (start r₀) tr c) : Holds Inv (Knowledge S) c ∧ Apart Distinct c.procs := by
  refine (outline S).run ⟨?_, ?_⟩ ?_ h
  · intro tx r hh
    cases hh
  · intro p hp
    cases hp
  · intro i j p p' _ hp
    cases hp

/-! ### Who changes the row -/

/-- In this step the request `q` commits its transaction. -/
def CommitOf (q : ρ) (st : Step (Store α) (Point α ρ ε τ) (Input τ)) : Prop :=
  ∃ tx model e, st.Fires (.running tx q (.commit model)) e

/-- The row before a step, and after it. -/
abbrev before (st : Step (Store α) (Point α ρ ε τ) (Input τ)) : α := st.pre.store.row
abbrev after (st : Step (Store α) (Point α ρ ε τ) (Input τ)) : α := st.post.store.row

theorem CommitOf.unique {st : Step (Store α) (Point α ρ ε τ) (Input τ)} (h : CommitOf q st) (h' : CommitOf q' st) :
    q = q' := by
  obtain ⟨tx, model, e, hf⟩ := h
  obtain ⟨tx', model', e', hf'⟩ := h'
  cases hf.mover.symm.trans hf'.mover
  rfl

variable {c c' : Config (Store α) (Point α ρ ε τ)} {tr : List (Step (Store α) (Point α ρ ε τ) (Input τ))}
  {st : Step (Store α) (Point α ρ ε τ) (Input τ)} {r₀ : α}

theorem Moved.row (h : Moved S s p e s' k) (hK : Knowledge S s p) : s'.row = s.row ∨
    ∃ tx q model, p = .running tx q (.commit model) ∧ (S.body q s.row).Commits s.row s'.row model := by
  cases h with
  | idle | released | locked | saved => exact .inl rfl
  | committed hp hh => exact .inr ⟨_, _, _, hp, (hK _ _ _ hp).2 _ hh⟩

/-- The row changes in a step only if a request commits in it, and then to what the
body of the request makes of the row. -/
theorem row_of_step (hc : Holds Inv (Knowledge S) c) {a : Act (Point α ρ ε τ) (Input τ)}
    (hs : S.program.step c a = some c') : c'.store.row = c.store.row ∨
    ∃ q model, CommitOf q ⟨c, a, c'⟩ ∧ (S.body q c.store.row).Commits c.store.row c'.store.row model := by
  rcases S.program.step_store hs with hrow | ⟨p, e, k, hf, hm⟩
  · exact .inl (congrArg Store.row hrow)
  · obtain ⟨i, -, hp⟩ := id hf
    rcases (moved hm).row (hc.2 p (List.mem_of_getElem? hp)) with hrow | ⟨tx, q, model, rfl, hb⟩
    · exact .inl hrow
    · exact .inr ⟨q, model, ⟨tx, model, e, hf⟩, hb⟩

theorem row_of_run (h : S.program.Run (start r₀) tr c) (hst : st ∈ tr) : after st = before st ∨
    ∃ q model, CommitOf q st ∧ (S.body q (before st)).Commits (before st) (after st) model := by
  obtain ⟨tr₁, tr₂, -, h₁, hs, -⟩ := h.of_mem _ hst
  exact row_of_step (holds_of_run h₁).1 hs

/-- In this step a process goes on to the point `p'`. -/
def GoesOn (S : Service α ρ ε τ) (p' : Point α ρ ε τ) (st : Step (Store α) (Point α ρ ε τ) (Input τ)) : Prop :=
  ∃ p e, st.Fires p e ∧ S.program.move st.pre.store p e = some (st.post.store, some p')

theorem Moved.commits (h : Moved S s p e s' (some (.committed q model))) (hK : Knowledge S s p) :
    ∃ tx, p = .running tx q (.commit model) ∧ (S.body q s.row).Commits s.row s'.row model := by
  cases h with
  | idle hq | released hq => exact (hq _ rfl).elim
  | committed hp hh hq =>
    cases hq _ rfl
    exact ⟨_, hp, (hK _ _ _ hp).2 _ hh⟩

/-- A request that goes on to answer has committed what its body made of the row. -/
theorem commits_of_goesOn (h : S.program.Run (start r₀) tr c) (hst : st ∈ tr) (hg : GoesOn S (.committed q model) st) :
    CommitOf q st ∧ (S.body q (before st)).Commits (before st) (after st) model := by
  obtain ⟨p, e, hf, hm⟩ := hg
  obtain ⟨tr₁, tr₂, -, h₁, -, -⟩ := h.of_mem _ hst
  obtain ⟨i, -, hi⟩ := id hf
  obtain ⟨tx, rfl, hb⟩ := (moved hm).commits ((holds_of_run h₁).1.2 p (List.mem_of_getElem? hi))
  exact ⟨⟨tx, model, e, hf⟩, hb⟩

theorem committed_of_success (h : S.program.move s p e = some (s', some (.answered q (.ok model)))) :
    p = .committed q model ∧ s' = s := by
  simp only [Service.program] at h
  cases p with
  | request | lock =>
    simp only [Service.step] at h
    split at h <;> cases h
  | running tx q b =>
    simp only [Service.step] at h
    split at h
    · split at h
      · cases b <;> simp only [runStep, Option.some.injEq] at h
        · split at h <;> cases h
        · cases h
        · split at h <;> cases h
      · cases h
    · cases h
  | committed =>
    simp only [Service.step] at h
    split at h <;> cases h
    exact ⟨rfl, rfl⟩
  | answered => cases h
  | rollback => cases h

/-- Success is answered by nothing but a request that has committed, which leaves the row alone. -/
theorem committed_of_answered (hg : GoesOn S (.answered q (.ok model)) st) :
    st.mover = some (.committed q model) ∧ after st = before st := by
  obtain ⟨p, e, hf, hm⟩ := hg
  obtain ⟨rfl, hs⟩ := committed_of_success hm
  exact ⟨hf.mover, congrArg Store.row hs⟩

/-! ### Versions -/

/-- Each request carries a version of the row. A body commits only if it is the version
of the row and the request is legal on it, and then it has left the row alone or made
one step of the version. -/
def Versioned (S : Service α ρ ε τ) (ver : α → ℤ) (carried : ρ → Option ℤ) (legal : ρ → α → Prop) : Prop :=
  ∀ q r r' model, (S.body q r).Commits r r' model →
    (carried q = some (ver r) ∧ legal q r) ∧ (r' = r ∨ ver r' = ver r + 1)

namespace Versioned

variable {ver : α → ℤ} {carried : ρ → Option ℤ} {legal : ρ → α → Prop}

theorem of_step (hV : Versioned S ver carried legal) (hc : Holds Inv (Knowledge S) c)
    {a : Act (Point α ρ ε τ) (Input τ)} (hs : S.program.step c a = some c') :
    c'.store.row = c.store.row ∨ ver c'.store.row = ver c.store.row + 1 := by
  rcases row_of_step hc hs with hrow | ⟨q, model, -, hb⟩
  · exact .inl hrow
  · exact (hV _ _ _ _ hb).2

/-- The version never goes back, and as long as it stays so does the row. -/
theorem mono (hV : Versioned S ver carried legal) (h₁ : S.program.Run (start r₀) tr c)
    {tr' : List (Step (Store α) (Point α ρ ε τ) (Input τ))} (h : S.program.Run c tr' c') :
    ver c.store.row ≤ ver c'.store.row ∧
      (ver c'.store.row = ver c.store.row → c'.store.row = c.store.row) := by
  induction h with
  | nil => exact ⟨le_rfl, fun _ => rfl⟩
  | @snoc tr' c' c'' a hr hs ih =>
    rcases hV.of_step (holds_of_run (h₁.append _ hr)).1 hs with hrow | hver
    · rw [hrow]
      exact ih
    · exact ⟨by omega, by omega⟩

/-- A step that changes the row is the commit of a request that carries the version it
finds and is legal there, and it makes one step of the version. -/
theorem changed (hV : Versioned S ver carried legal) (h : S.program.Run (start r₀) tr c) (hst : st ∈ tr)
    (hne : after st ≠ before st) : ∃ q, CommitOf q st ∧ carried q = some (ver (before st)) ∧
      legal q (before st) ∧ ver (after st) = ver (before st) + 1 := by
  rcases row_of_run h hst with hrow | ⟨q, model, hcommit, hb⟩
  · exact absurd hrow hne
  · obtain ⟨⟨hcarried, hlegal⟩, hver⟩ := hV _ _ _ _ hb
    exact ⟨q, hcommit, hcarried, hlegal, hver.resolve_left hne⟩

/-- Of the requests that carry one version, at most one changes the row. -/
theorem once (hV : Versioned S ver carried legal) (h : S.program.Run (start r₀) tr c) :
    tr.Pairwise fun st st' => after st ≠ before st → after st' ≠ before st' →
      ∀ q q', CommitOf q st → CommitOf q' st' → carried q ≠ carried q' := by
  induction h with
  | nil => exact .nil
  | @snoc tr c c' a hr hs ih =>
    refine List.pairwise_append.mpr ⟨ih, List.pairwise_singleton _ _, ?_⟩
    intro st hst st' hst' hne hne' q q' hq hq' hcarried
    rw [List.mem_singleton] at hst'
    subst hst'
    obtain ⟨q₁, hq₁, hc₁, -, hv₁⟩ := hV.changed hr hst hne
    obtain ⟨q₂, hq₂, hc₂, -, -⟩ := hV.changed (hr.snoc a hs) (by simp) hne'
    obtain ⟨tr₁, tr₂, -, h₁, hs₁, h₂⟩ := hr.of_mem _ hst
    have hle := (hV.mono (h₁.snoc _ hs₁) h₂).1
    -- The version the earlier request carried is behind for good.
    rw [hq.unique hq₁, hq'.unique hq₂, hc₁, hc₂, Option.some.injEq] at hcarried
    simp only [before, after] at hcarried hv₁
    omega

theorem eq_of_version (hV : Versioned S ver carried legal) (h : S.program.Run (start r₀) tr c) (hst : st ∈ tr)
    (hver : ver (before st) = ver c.store.row) : before st = c.store.row := by
  obtain ⟨tr₁, tr₂, -, h₁, hs, h₂⟩ := h.of_mem _ hst
  have hrun := (S.program.run_single hs).append _ h₂
  exact ((hV.mono h₁ hrun).2 hver.symm).symm

/-- A version is one state of the row. -/
theorem state_of_version (hV : Versioned S ver carried legal) (h : S.program.Run (start r₀) tr c) :
    ∀ st ∈ tr, ∀ st' ∈ tr, ver (before st) = ver (before st') → before st = before st' := by
  induction h with
  | nil => simp
  | @snoc tr c c' a hr hs ih =>
    intro st hst st' hst' hver
    rcases List.mem_append.mp hst with hst | hst <;> rcases List.mem_append.mp hst' with hst' | hst'
    · exact ih st hst st' hst' hver
    · rw [List.mem_singleton] at hst'
      subst hst'
      exact hV.eq_of_version hr hst hver
    · rw [List.mem_singleton] at hst
      subst hst
      exact (hV.eq_of_version hr hst' hver.symm).symm
    · rw [List.mem_singleton.mp hst, List.mem_singleton.mp hst']

end Versioned

/-- The request whose process stands here. -/
def Point.of : Point α ρ ε τ → Option ρ
  | .request q | .lock q | .running _ q _ | .committed q _ | .answered q _ => some q
  | .rollback => none

/-- No update of the run is lost. -/
structure NoLostUpdate (S : Service α ρ ε τ) (ver : α → ℤ) (carried : ρ → Option ℤ) (legal : ρ → α → Prop)
    (tr : List (Step (Store α) (Point α ρ ε τ) (Input τ))) : Prop where
  /-- The row changes when a request commits that carries its version and is legal. -/
  changed : ∀ st ∈ tr, after st ≠ before st → ∃ q, CommitOf q st ∧ carried q = some (ver (before st)) ∧
    legal q (before st) ∧ ver (after st) = ver (before st) + 1
  /-- At most one of the requests that carry a version changes the row. -/
  once : tr.Pairwise fun st st' => after st ≠ before st → after st' ≠ before st' →
    ∀ q q', CommitOf q st → CommitOf q' st' → carried q ≠ carried q'
  /-- A request that succeeds has left the version it carried, and the row, or one greater. -/
  succeeded : ∀ st ∈ tr, ∀ q model, GoesOn S (.committed q model) st → carried q = some (ver (before st)) ∧
    legal q (before st) ∧ (after st = before st ∨ ver (after st) = ver (before st) + 1)
  answered : ∀ st ∈ tr, ∀ q model, GoesOn S (.answered q (.ok model)) st →
    st.mover = some (.committed q model) ∧ after st = before st
  /-- A request that carries another version, or is not legal, does nothing to the row. -/
  refused : ∀ st ∈ tr, ∀ p q, st.mover = some p → p.of = some q →
    (carried q ≠ some (ver (before st)) ∨ ¬ legal q (before st)) → after st = before st
  /-- A change is made to the one state of the row that has the version it carries. -/
  read : ∀ st ∈ tr, ∀ q, after st ≠ before st → CommitOf q st →
    ∀ st₀ ∈ tr, carried q = some (ver (before st₀)) → before st₀ = before st

theorem Versioned.noLostUpdate {ver : α → ℤ} {carried : ρ → Option ℤ} {legal : ρ → α → Prop}
    (hV : Versioned S ver carried legal) (h : S.program.Run (start r₀) tr c) :
    NoLostUpdate S ver carried legal tr where
  changed st hst hne := hV.changed h hst hne
  once := hV.once h
  succeeded st hst q model hg := by
    obtain ⟨⟨hcarried, hlegal⟩, hver⟩ := hV _ _ _ _ (commits_of_goesOn h hst hg).2
    exact ⟨hcarried, hlegal, hver⟩
  answered st _ q model hg := committed_of_answered hg
  refused st hst p q hp hq href := by
    by_contra hne
    obtain ⟨q', ⟨tx, model, e, hf⟩, hcarried, hlegal, -⟩ := hV.changed h hst hne
    cases hp.symm.trans hf.mover
    cases hq
    rcases href with h' | h'
    · exact h' hcarried
    · exact h' hlegal
  read st hst q hne hq st₀ hst₀ hver := by
    obtain ⟨q', hq', hcarried, -, -⟩ := hV.changed h hst hne
    rw [hq.unique hq', hcarried, Option.some.injEq] at hver
    exact hV.state_of_version h st₀ hst₀ st hst hver.symm

end Transaction
