/-
# Writes guarded by locks

Requests that lock some rows, check the data, decide in a callback what they are
going to write, and write it when they commit. The locks are held to the end of the
transaction; nothing else is: between two steps of a transaction any other request
whose rows are not locked may commit, and so may statements on their own, which wait
only for the rows they write. The database may roll a transaction back at any moment.

`Protected` is a proof outline for such a service: what a transaction knows at each
stage (`Holds`) is kept by the writes of those whose rows are disjoint from its own,
so a check that has passed still holds when the write is made. `Protected.outline`
makes an outline of the program of it.

Key definitions: `Service`, `Store`, `Service.program`, `Protected`.
Key theorems: `data_of_step`, `Protected.outline`.
-/
import Mathlib.Data.List.Pairwise
import Daywright.Interleave

namespace Guard

open Interleave

variable {σ κ ρ ω φ ε : Type*}

/-- Requests `ρ` and statements `φ` on data `σ` with rows `κ`. -/
structure Service (σ κ ρ ω φ ε : Type*) where
  /-- What a request is refused for before its transaction. -/
  refuse : σ → ρ → Option ε
  /-- The rows that it locks. -/
  lock : σ → ρ → Except ε (List κ)
  /-- What it is refused for with these rows locked. -/
  check : σ → ρ → List κ → Option ε
  /-- What it is going to write. -/
  callback : σ → ρ → Except ε ω
  write : σ → ω → σ
  /-- What a statement is refused for before it is made. -/
  refuseStatement : σ → φ → Option ε
  statement : σ → φ → σ
  /-- The rows that a statement writes. -/
  rows : φ → List κ

/-- How far a transaction is. -/
inductive Stage (ω : Type*) where
  | locked
  | admitted
  | decided (w : ω)
  deriving DecidableEq, Repr

structure Tx (κ ρ ω : Type*) where
  id : ℕ
  keys : List κ
  request : ρ
  stage : Stage ω

/-- The committed data, the transactions under way, and the number of the next. -/
structure Store (σ κ ρ ω : Type*) where
  data : σ
  txs : List (Tx κ ρ ω)
  next : ℕ

/-- Where a request stands. -/
inductive Point (ρ ω φ ε : Type*) where
  | request (q : ρ)
  | lock (q : ρ)
  | running (tx : ℕ)
  | answered (q : ρ) (result : Except ε ω)
  | ask (f : φ)
  | statement (f : φ)
  | refused (f : φ) (e : ε)
  /-- The database rolls back a transaction. -/
  | rollback (tx : ℕ)

/-- How the database answers a statement; one that took effect has done so
whether or not the answer arrives. -/
inductive Reply where
  | done
  | failed
  deriving DecidableEq, Repr

/-! ### Steps -/

namespace Store

variable (s : Store σ κ ρ ω)

/-- None of the rows is locked. -/
def Free (ks : List κ) : Prop := ∀ tx ∈ s.txs, ∀ k ∈ tx.keys, k ∉ ks

instance [DecidableEq κ] (ks : List κ) : Decidable (s.Free ks) := by
  unfold Free
  infer_instance

def find (id : ℕ) : Option (Tx κ ρ ω) := s.txs.find? fun tx => tx.id == id

/-- The transaction is over. -/
def release (id : ℕ) : Store σ κ ρ ω := { s with txs := s.txs.filter fun tx => tx.id != id }

def begin (ks : List κ) (q : ρ) : Store σ κ ρ ω :=
  { s with txs := ⟨s.next, ks, q, .locked⟩ :: s.txs, next := s.next + 1 }

def advance (id : ℕ) (stage : Stage ω) : Store σ κ ρ ω :=
  { s with txs := s.txs.map fun tx => if tx.id = id then { tx with stage := stage } else tx }

def set (d : σ) : Store σ κ ρ ω := { s with data := d }

end Store

namespace Service

variable (S : Service σ κ ρ ω φ ε)

/-- The next step of a transaction, which has been answered so far. -/
def runStep (s : Store σ κ ρ ω) (tx : Tx κ ρ ω) : Store σ κ ρ ω × Option (Point ρ ω φ ε) :=
  match tx.stage with
  | .locked =>
    match S.check s.data tx.request tx.keys with
    | some e => (s.release tx.id, some (.answered tx.request (.error e)))
    | none => (s.advance tx.id .admitted, some (.running tx.id))
  | .admitted =>
    match S.callback s.data tx.request with
    | .error e => (s.release tx.id, some (.answered tx.request (.error e)))
    | .ok w => (s.advance tx.id (.decided w), some (.running tx.id))
  | .decided w => ((s.set (S.write s.data w)).release tx.id, some (.answered tx.request (.ok w)))

variable [DecidableEq κ]

def step (s : Store σ κ ρ ω) (p : Point ρ ω φ ε) (e : Reply) : Option (Store σ κ ρ ω × Option (Point ρ ω φ ε)) :=
  match p with
  | .request q =>
    match S.refuse s.data q with
    | some x => some (s, some (.answered q (.error x)))
    | none => some (s, some (.lock q))
  | .lock q =>
    match e, S.lock s.data q with
    | .failed, _ => some (s, none)
    | .done, .error x => some (s, some (.answered q (.error x)))
    -- The locks are waited for, until the database gives up.
    | .done, .ok ks => if s.Free ks then some (s.begin ks q, some (.running s.next)) else none
  | .running id =>
    match e, s.find id with
    | _, none => some (s, none)
    | .failed, some _ => some (s.release id, none)
    | .done, some tx => some (S.runStep s tx)
  | .ask f =>
    match S.refuseStatement s.data f with
    | some x => some (s, some (.refused f x))
    | none => some (s, some (.statement f))
  | .statement f =>
    match e with
    | .failed => some (s, none)
    | .done => if s.Free (S.rows f) then some (s.set (S.statement s.data f), none) else none
  | .rollback id => some (s.release id, none)
  | .answered _ _ | .refused _ _ => none

def program : Program (Store σ κ ρ ω) (Point ρ ω φ ε) Reply where
  entry
    | .request _ | .ask _ | .rollback _ => true
    | _ => false
  move := S.step

end Service

/-! ### What a step writes -/

/-- The write that a transaction makes in a step, or the statement that is made. -/
def Store.did (s : Store σ κ ρ ω) (p : Point ρ ω φ ε) (e : Reply) : Option (ω ⊕ φ) :=
  match p, e with
  | .running id, .done =>
    match (s.find id).map Tx.stage with
    | some (.decided w) => some (.inl w)
    | _ => none
  | .statement f, .done => some (.inr f)
  | _, _ => none

def Service.apply (S : Service σ κ ρ ω φ ε) (d : σ) : Option (ω ⊕ φ) → σ
  | none => d
  | some (.inl w) => S.write d w
  | some (.inr f) => S.statement d f

section Did

variable {S : Service σ κ ρ ω φ ε} {s s' : Store σ κ ρ ω} {p : Point ρ ω φ ε} {e : Reply} {k : Option (Point ρ ω φ ε)}

theorem Store.find_of_did {w : ω} (h : s.did p e = some (.inl w)) :
    ∃ tx ∈ s.txs, tx.stage = .decided w := by
  unfold Store.did at h
  split at h
  · split at h <;> cases h
    rename_i id hst
    obtain ⟨tx, hf, hw⟩ := Option.map_eq_some_iff.mp hst
    exact ⟨tx, List.mem_of_find?_eq_some hf, hw⟩
  · cases h
  · cases h

/-- Nothing else changes the data. -/
theorem data_of_step [DecidableEq κ] (h : S.step s p e = some (s', k)) : s'.data = S.apply s.data (s.did p e) := by
  cases p with
  | request q =>
    simp only [Service.step] at h
    split at h <;> cases h <;> rfl
  | lock q =>
    simp only [Service.step] at h
    split at h
    · cases h
      rfl
    · cases h
      rfl
    · split at h <;> cases h
      rfl
  | running id =>
    simp only [Service.step] at h
    cases hf : s.find id with
    | none =>
      rw [hf] at h
      cases e <;> cases h <;> simp [Store.did, hf, Service.apply]
    | some tx =>
      rw [hf] at h
      obtain ⟨i, ks, q, stage⟩ := tx
      cases e with
      | failed =>
        cases h
        rfl
      | done =>
        cases stage with
        | locked =>
          simp only [Service.runStep] at h
          split at h <;> cases h <;> simp [Store.did, hf, Service.apply, Store.release, Store.advance]
        | admitted =>
          simp only [Service.runStep] at h
          split at h <;> cases h <;> simp [Store.did, hf, Service.apply, Store.release, Store.advance]
        | decided w =>
          cases h
          simp [Store.did, hf, Service.apply, Store.release, Store.set]
  | ask f =>
    simp only [Service.step] at h
    split at h <;> cases h <;> rfl
  | statement f =>
    simp only [Service.step] at h
    split at h
    · cases h
      rfl
    · split at h <;> cases h
      rfl
  | rollback id =>
    cases h
    rfl
  | answered | refused => cases h

end Did

/-! ### What a transaction relies on -/

/-- Two transactions that are not the same, and lock no row both. -/
def Tx.Apart (a b : Tx κ ρ ω) : Prop := a.id ≠ b.id ∧ ∀ k ∈ a.keys, k ∉ b.keys

instance : Std.Symm (Tx.Apart (κ := κ) (ρ := ρ) (ω := ω)) where
  symm _ _ h := ⟨h.1.symm, fun k hb ha => h.2 k ha hb⟩

/-- The data is right, and each transaction under way may rely on what it has seen. -/
structure Inv (I : σ → Prop) (Holds : σ → Tx κ ρ ω → Prop) (s : Store σ κ ρ ω) : Prop where
  data : I s.data
  holds : ∀ tx ∈ s.txs, Holds s.data tx
  lt : ∀ tx ∈ s.txs, tx.id < s.next
  apart : s.txs.Pairwise Tx.Apart

/-- The steps of a service keep the data right, and leave what the transactions under
way know true, where their rows are not written. `Seen` is what is known of a request
or a statement that has not been refused, and `ok` are the statements looked at. -/
structure Protected (S : Service σ κ ρ ω φ ε) (ok : Store σ κ ρ ω → φ → Prop) (I : σ → Prop)
    (Holds : σ → Tx κ ρ ω → Prop) (Seen : σ → ρ ⊕ φ → Prop) : Prop where
  refuse : ∀ d q, I d → S.refuse d q = none → Seen d (.inl q)
  refuseStatement : ∀ d f, I d → S.refuseStatement d f = none → Seen d (.inr f)
  lock : ∀ d q ks id, I d → Seen d (.inl q) → S.lock d q = .ok ks → Holds d ⟨id, ks, q, .locked⟩
  check : ∀ d q ks id, I d → Holds d ⟨id, ks, q, .locked⟩ → S.check d q ks = none → Holds d ⟨id, ks, q, .admitted⟩
  callback : ∀ d q ks id w, I d → Holds d ⟨id, ks, q, .admitted⟩ → S.callback d q = .ok w →
    Holds d ⟨id, ks, q, .decided w⟩
  write : ∀ d q ks id w, I d → Holds d ⟨id, ks, q, .decided w⟩ → I (S.write d w)
  writeFrame : ∀ d q ks id w tx, I d → Holds d ⟨id, ks, q, .decided w⟩ → Holds d tx → (∀ k ∈ tx.keys, k ∉ ks) →
    Holds (S.write d w) tx
  writeSeen : ∀ d q ks id w x, I d → Holds d ⟨id, ks, q, .decided w⟩ → Seen d x → Seen (S.write d w) x
  statement : ∀ s f, Inv I Holds s → ok s f → Seen s.data (.inr f) → s.Free (S.rows f) → I (S.statement s.data f)
  statementFrame : ∀ s f tx, Inv I Holds s → ok s f → Seen s.data (.inr f) → s.Free (S.rows f) → tx ∈ s.txs →
    Holds (S.statement s.data f) tx
  statementSeen : ∀ d f x, I d → Seen d (.inr f) → Seen d x → Seen (S.statement d f) x

/-- What is known where a process stands. -/
def Knows (Seen : σ → ρ ⊕ φ → Prop) (s : Store σ κ ρ ω) : Point ρ ω φ ε → Prop
  | .lock q => Seen s.data (.inl q)
  | .statement f => Seen s.data (.inr f)
  | _ => True

/-- The statements that are made meet `ok`. -/
def Made (ok : Store σ κ ρ ω → φ → Prop) (s : Store σ κ ρ ω) (p : Point ρ ω φ ε) (e : Reply) : Prop :=
  ∀ f, p = .statement f → e = .done → ok s f

/-- The statement that is made in a step. -/
def made (st : Interleave.Step (Store σ κ ρ ω) (Point ρ ω φ ε) Reply) : Option φ :=
  match st.act with
  | .move i .done =>
    match st.pre.procs[i]? with
    | some (.statement f) => some f
    | _ => none
  | _ => none

theorem meets_made {ok : Store σ κ ρ ω → φ → Prop} {st : Interleave.Step (Store σ κ ρ ω) (Point ρ ω φ ε) Reply}
    (h : ∀ f ∈ made st, ok st.pre.store f) : st.Meets (Made ok) := by
  rintro p e ⟨i, ha, hp⟩ f rfl rfl
  exact h f (by simp [made, ha, hp])

theorem Knows.mono {Seen : σ → ρ ⊕ φ → Prop} {s s' : Store σ κ ρ ω} {p : Point ρ ω φ ε} (h : Knows Seen s p)
    (hs : ∀ x, Seen s.data x → Seen s'.data x) : Knows Seen s' p := by
  cases p with
  | lock | statement => exact hs _ h
  | _ => trivial

namespace Inv

variable {I : σ → Prop} {Holds : σ → Tx κ ρ ω → Prop} {s : Store σ κ ρ ω}

theorem release (h : Inv I Holds s) (id : ℕ) : Inv I Holds (s.release id) where
  data := h.data
  holds tx htx := h.holds tx (List.mem_of_mem_filter htx)
  lt tx htx := h.lt tx (List.mem_of_mem_filter htx)
  apart := h.apart.filter _

theorem begin (h : Inv I Holds s) {ks : List κ} {q : ρ} (hfree : s.Free ks)
    (hq : Holds s.data ⟨s.next, ks, q, .locked⟩) : Inv I Holds (s.begin ks q) where
  data := h.data
  holds tx htx := by
    rcases List.mem_cons.mp htx with rfl | htx
    · exact hq
    · exact h.holds tx htx
  lt tx htx := by
    rcases List.mem_cons.mp htx with rfl | htx
    · exact Nat.lt_succ_self _
    · exact Nat.lt_succ_of_lt (h.lt tx htx)
  apart := by
    refine List.pairwise_cons.mpr ⟨fun tx htx => ⟨(Nat.ne_of_lt (h.lt tx htx)).symm, fun k hk hkt => ?_⟩, h.apart⟩
    exact hfree tx htx k hkt hk

/-- Any two transactions under way are apart. -/
theorem forall_apart (h : Inv I Holds s) {a b : Tx κ ρ ω} (ha : a ∈ s.txs) (hb : b ∈ s.txs) (hab : a ≠ b) :
    a.Apart b :=
  h.apart.forall ha hb hab

/-- Other transactions than the one that is found have other numbers, and other rows. -/
theorem find (h : Inv I Holds s) {id : ℕ} {tx : Tx κ ρ ω} (hf : s.find id = some tx) :
    tx ∈ s.txs ∧ tx.id = id ∧ ∀ t ∈ s.txs, t.id ≠ id → ∀ k ∈ t.keys, k ∉ tx.keys := by
  have hmem := List.mem_of_find?_eq_some hf
  have hid : tx.id = id := by simpa using List.find?_some hf
  refine ⟨hmem, hid, fun t ht hne => (h.forall_apart ht hmem ?_).2⟩
  rintro rfl
  exact hne hid

theorem eq_of_id (h : Inv I Holds s) {a b : Tx κ ρ ω} (ha : a ∈ s.txs) (hb : b ∈ s.txs) (hid : a.id = b.id) :
    a = b := by
  by_contra hab
  exact (h.forall_apart ha hb hab).1 hid

theorem advance (h : Inv I Holds s) {tx : Tx κ ρ ω} (htx : tx ∈ s.txs) {stage : Stage ω}
    (hs : Holds s.data { tx with stage := stage }) : Inv I Holds (s.advance tx.id stage) where
  data := h.data
  holds t ht := by
    obtain ⟨t, hmem, rfl⟩ := List.mem_map.mp ht
    split
    · rename_i hid
      rw [h.eq_of_id hmem htx hid]
      exact hs
    · exact h.holds t hmem
  lt t ht := by
    obtain ⟨t, hmem, rfl⟩ := List.mem_map.mp ht
    split <;> exact h.lt t hmem
  apart := by
    refine List.pairwise_map.mpr (h.apart.imp fun {a b} hab => ?_)
    split <;> split <;> exact hab

theorem statement {S : Service σ κ ρ ω φ ε} {ok : Store σ κ ρ ω → φ → Prop} {Seen : σ → ρ ⊕ φ → Prop}
    (R : Protected S ok I Holds Seen) (h : Inv I Holds s) {f : φ} (hok : ok s f) (hf : Seen s.data (.inr f))
    (hfree : s.Free (S.rows f)) : Inv I Holds (s.set (S.statement s.data f)) where
  data := R.statement s f h hok hf hfree
  holds tx htx := R.statementFrame s f tx h hok hf hfree htx
  lt := h.lt
  apart := h.apart

theorem commit {S : Service σ κ ρ ω φ ε} {ok : Store σ κ ρ ω → φ → Prop} {Seen : σ → ρ ⊕ φ → Prop}
    (R : Protected S ok I Holds Seen) (h : Inv I Holds s) {id : ℕ} {tx : Tx κ ρ ω} (hf : s.find id = some tx)
    {w : ω} (hw : tx.stage = .decided w) : Inv I Holds ((s.set (S.write s.data w)).release tx.id) := by
  obtain ⟨hmem, hid, hothers⟩ := h.find hf
  have hh : Holds s.data ⟨tx.id, tx.keys, tx.request, .decided w⟩ := hw ▸ h.holds tx hmem
  exact {
    data := R.write _ _ _ _ _ h.data hh
    holds := fun t ht => by
      obtain ⟨ht, hne⟩ := List.mem_filter.mp ht
      exact R.writeFrame _ _ _ _ _ t h.data hh (h.holds t ht) (hothers t ht (by simpa [hid] using hne))
    lt := fun t ht => h.lt t (List.mem_of_mem_filter ht)
    apart := h.apart.filter _ }

end Inv

namespace Protected

variable {S : Service σ κ ρ ω φ ε} {ok : Store σ κ ρ ω → φ → Prop} {I : σ → Prop} {Holds : σ → Tx κ ρ ω → Prop}
  {Seen : σ → ρ ⊕ φ → Prop} {s : Store σ κ ρ ω}

/-- A step of a transaction keeps the invariant, and what has been seen. -/
theorem runStep (R : Protected S ok I Holds Seen) (h : Inv I Holds s) {id : ℕ} {tx : Tx κ ρ ω}
    (hf : s.find id = some tx) :
    Inv I Holds (S.runStep s tx).1 ∧ ∀ x, Seen s.data x → Seen (S.runStep s tx).1.data x := by
  have hmem := (h.find hf).1
  have hh := h.holds tx hmem
  obtain ⟨i, ks, q, stage⟩ := tx
  cases stage with
  | locked =>
    simp only [Service.runStep]
    split
    · exact ⟨h.release _, fun x hx => hx⟩
    · rename_i hc
      exact ⟨h.advance hmem (R.check _ _ _ _ h.data hh hc), fun x hx => hx⟩
  | admitted =>
    simp only [Service.runStep]
    split
    · exact ⟨h.release _, fun x hx => hx⟩
    · rename_i w hw
      exact ⟨h.advance hmem (R.callback _ _ _ _ _ h.data hh hw), fun x hx => hx⟩
  | decided w => exact ⟨h.commit R hf rfl, fun x hx => R.writeSeen _ _ _ _ _ x h.data hh hx⟩

/-- Nothing need be known where a transaction goes on. -/
theorem runStep_point {tx : Tx κ ρ ω} {s' : Store σ κ ρ ω} {p : Point ρ ω φ ε}
    (h : (S.runStep s tx).2 = some p) : Knows Seen s' p := by
  unfold Service.runStep at h
  split at h
  · split at h <;> cases h <;> trivial
  · split at h <;> cases h <;> trivial
  · cases h
    trivial

variable [DecidableEq κ] {p : Point ρ ω φ ε} {e : Reply} {s' : Store σ κ ρ ω} {k : Option (Point ρ ω φ ε)}

/-- What one step keeps. -/
theorem step (R : Protected S ok I Holds Seen) (h : Inv I Holds s) (hA : Knows Seen s p) (hok : Made ok s p e)
    (hs : S.step s p e = some (s', k)) :
    Inv I Holds s' ∧ (∀ q, k = some q → Knows Seen s' q) ∧ ∀ x, Seen s.data x → Seen s'.data x := by
  cases p with
  | request q =>
    simp only [Service.step] at hs
    split at hs <;> cases hs
    · exact ⟨h, by rintro _ ⟨⟩; trivial, fun x hx => hx⟩
    · rename_i hn
      exact ⟨h, by rintro _ ⟨⟩; exact R.refuse _ _ h.data hn, fun x hx => hx⟩
  | lock q =>
    simp only [Service.step] at hs
    split at hs
    · cases hs
      exact ⟨h, by rintro _ ⟨⟩, fun x hx => hx⟩
    · cases hs
      exact ⟨h, by rintro _ ⟨⟩; trivial, fun x hx => hx⟩
    · rename_i ks hks
      split at hs <;> cases hs
      rename_i hfree
      exact ⟨h.begin hfree (R.lock _ _ _ _ h.data hA hks), by rintro _ ⟨⟩; trivial, fun x hx => hx⟩
  | running id =>
    simp only [Service.step] at hs
    split at hs
    · cases hs
      exact ⟨h, by rintro _ ⟨⟩, fun x hx => hx⟩
    · cases hs
      exact ⟨h.release id, by rintro _ ⟨⟩, fun x hx => hx⟩
    · rename_i tx hf
      obtain ⟨hI, hx⟩ := R.runStep h hf
      have hst : S.runStep s tx = (s', k) := by simpa using hs
      refine ⟨by rwa [hst] at hI, fun q hq => ?_, by rwa [hst] at hx⟩
      exact runStep_point (show (S.runStep s tx).2 = some q by rw [hst, hq])
  | ask f =>
    simp only [Service.step] at hs
    split at hs <;> cases hs
    · exact ⟨h, by rintro _ ⟨⟩; trivial, fun x hx => hx⟩
    · rename_i hn
      exact ⟨h, by rintro _ ⟨⟩; exact R.refuseStatement _ _ h.data hn, fun x hx => hx⟩
  | statement f =>
    simp only [Service.step] at hs
    split at hs
    · cases hs
      exact ⟨h, by rintro _ ⟨⟩, fun x hx => hx⟩
    · split at hs <;> cases hs
      rename_i hfree
      exact ⟨h.statement R (hok f rfl rfl) hA hfree, by rintro _ ⟨⟩, fun x hx => R.statementSeen _ f x h.data hA hx⟩
  | rollback id =>
    cases hs
    exact ⟨h.release id, by rintro _ ⟨⟩, fun x hx => hx⟩
  | answered | refused => cases hs

theorem outline (R : Protected S ok I Holds Seen) : Outline S.program (Made ok) (Inv I Holds) (Knows Seen) where
  entry s p _ hp := by
    cases p with
    | lock | statement => cases hp
    | _ => trivial
  move s p e s' k h hA hok hm := by
    obtain ⟨hI, hk, -⟩ := R.step h hA hok hm
    exact ⟨hI, hk⟩
  frame s p e s' k q h hA hok hm hq := hq.mono (R.step h hA hok hm).2.2

end Protected

end Guard
