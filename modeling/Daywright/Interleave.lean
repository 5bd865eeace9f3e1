/-
# Processes interleaved over one store

A `Program` is a set of processes that share one store: `entry` says which
processes may arrive at any moment, `move` is one atomic step of a process, from
a store and an input (what the environment decides: the time, an answer, a fresh
name) to the store it leaves and the point the process goes on from. A process
may crash between any two of its steps. A run lists the steps it took.

Reasoning is by proof outlines: an invariant `I` of the store and, for each
process, an assertion `A` about the store that holds as long as it stands at its
point. `Outline` asks that a step keeps the invariant, establishes the assertion
of the point it goes on to and leaves the assertions of the other processes
true; then all of them hold along every run (`Outline.run`). An outline may be
relative to a condition `ok` on the steps: `Outline.forall_iff` turns "a step is
right exactly if it meets `ok`" into the same statement about runs.

Where a process may rely on no other being at the same point (holding the same
token, say), `ApartOutline` keeps a relation between any two of them as well. For
runs whose steps meet a condition it is strengthened (`ApartOutline.strengthen`)
over the moves that do (`Program.restrict`).

A program that is put together from others has them as components (`Component`);
the outlines of a component are outlines of the whole (`Outline.pullback`).

Key definitions: `Program`, `Config`, `Run`, `Outline`, `ApartOutline`, `Component`.
Key theorems: `Outline.run`, `Outline.forall_iff`, `Outline.strengthen`, `Outline.credits`, `Outline.count`,
`ApartOutline.run`, `ApartOutline.and`, `ApartOutline.strengthen`, `ApartOutline.run_store`, `Outline.pullback`,
`run_of_replay`.
-/
import Mathlib.Data.List.Basic

namespace Interleave

variable {σ π ε : Type*}

/-- Processes `π` over a store `σ`; a step reads an input `ε`. -/
structure Program (σ π ε : Type*) where
  /-- The processes that may arrive. -/
  entry : π → Bool
  /-- One atomic step: the store after it, and the point the process goes on
  from (`none`: it is over). `none` if the input does not fit the point. -/
  move : σ → π → ε → Option (σ × Option π)

/-- The store and the processes under way. -/
structure Config (σ π : Type*) where
  store : σ
  procs : List π

/-- What can happen next. -/
inductive Act (π ε : Type*) where
  | arrive (p : π)
  | move (i : ℕ) (e : ε)
  | crash (i : ℕ)

/-- One step of a run: what happened, between which configurations. -/
structure Step (σ π ε : Type*) where
  pre : Config σ π
  act : Act π ε
  post : Config σ π

/-- The step is process `p` moving with input `e`. -/
def Step.Fires (st : Step σ π ε) (p : π) (e : ε) : Prop :=
  ∃ i, st.act = .move i e ∧ st.pre.procs[i]? = some p

/-- The process that moves in a step. -/
def Step.mover (st : Step σ π ε) : Option π :=
  match st.act with
  | .move i _ => st.pre.procs[i]?
  | _ => none

theorem Step.fires_of_mover {st : Step σ π ε} {p : π} (h : st.mover = some p) : ∃ e, st.Fires p e := by
  unfold Step.mover at h
  split at h
  · rename_i i e ha
    exact ⟨e, i, ha, h⟩
  · cases h

theorem Step.Fires.mover {st : Step σ π ε} {p : π} {e : ε} (h : st.Fires p e) : st.mover = some p := by
  obtain ⟨i, ha, hp⟩ := h
  simp [Step.mover, ha, hp]

theorem Step.Fires.unique {st : Step σ π ε} {p q : π} {e e' : ε} (h : st.Fires p e) (h' : st.Fires q e') :
    p = q ∧ e = e' := by
  obtain ⟨i, ha, hp⟩ := h
  obtain ⟨j, ha', hq⟩ := h'
  obtain ⟨rfl, rfl⟩ : i = j ∧ e = e' := by simpa using ha.symm.trans ha'
  exact ⟨Option.some.inj (hp.symm.trans hq), rfl⟩

theorem Step.fires_move {c c' : Config σ π} {i : ℕ} {e e' : ε} {p p' : π} (hp : c.procs[i]? = some p) :
    (⟨c, .move i e, c'⟩ : Step σ π ε).Fires p' e' ↔ p' = p ∧ e' = e := by
  constructor
  · rintro ⟨j, hj, hp'⟩
    obtain ⟨rfl, rfl⟩ : i = j ∧ e = e' := by simpa using hj
    exact ⟨Option.some.inj (hp'.symm.trans hp), rfl⟩
  · rintro ⟨rfl, rfl⟩
    exact ⟨i, rfl, hp⟩

/-- If the step is a move, the move satisfies `ok`. -/
def Step.Meets (ok : σ → π → ε → Prop) (st : Step σ π ε) : Prop :=
  ∀ p e, st.Fires p e → ok st.pre.store p e

/-- The process that moves, and its input. -/
def Step.fired (st : Step σ π ε) : Option (π × ε) :=
  match st.act with
  | .move i e => st.pre.procs[i]?.map fun p => (p, e)
  | _ => none

theorem Step.fires_of_fired {st : Step σ π ε} {x : π × ε} (h : x ∈ st.fired) : st.Fires x.1 x.2 := by
  unfold Step.fired at h
  split at h
  · rename_i i e ha
    obtain ⟨p, hp, rfl⟩ := Option.map_eq_some_iff.mp h
    exact ⟨i, ha, hp⟩
  · cases h

theorem Step.Fires.fired {st : Step σ π ε} {p : π} {e : ε} (h : st.Fires p e) : (p, e) ∈ st.fired := by
  obtain ⟨i, ha, hp⟩ := h
  simp [Step.fired, ha, hp]

theorem Step.meets_iff_fired {ok : σ → π → ε → Prop} {st : Step σ π ε} :
    (∀ x ∈ st.fired, ok st.pre.store x.1 x.2) ↔ st.Meets ok := by
  constructor
  · exact fun h p e hf => h (p, e) hf.fired
  · exact fun h x hx => h x.1 x.2 (Step.fires_of_fired hx)

instance {ok : σ → π → ε → Prop} [∀ s p e, Decidable (ok s p e)] (st : Step σ π ε) : Decidable (st.Meets ok) :=
  decidable_of_iff _ Step.meets_iff_fired

/-- The step is a move that satisfies `q`. -/
def Step.firing (q : σ → π → ε → Bool) (st : Step σ π ε) : Bool := st.fired.any fun x => q st.pre.store x.1 x.2

theorem Step.firing_arrive {q : σ → π → ε → Bool} {c c' : Config σ π} {p : π} :
    (⟨c, .arrive p, c'⟩ : Step σ π ε).firing q = false := rfl

theorem Step.firing_crash {q : σ → π → ε → Bool} {c c' : Config σ π} {i : ℕ} :
    (⟨c, .crash i, c'⟩ : Step σ π ε).firing q = false := rfl

theorem Step.firing_move {q : σ → π → ε → Bool} {c c' : Config σ π} {i : ℕ} {e : ε} {p : π}
    (hp : c.procs[i]? = some p) : (⟨c, .move i e, c'⟩ : Step σ π ε).firing q = q c.store p e := by
  simp [Step.firing, Step.fired, hp]

theorem Step.firing_iff {q : σ → π → ε → Bool} {st : Step σ π ε} :
    st.firing q = true ↔ ∃ p e, st.Fires p e ∧ q st.pre.store p e = true := by
  constructor
  · intro h
    obtain ⟨x, hx, hq⟩ := (Option.any_eq_true _ _).mp h
    exact ⟨x.1, x.2, Step.fires_of_fired hx, hq⟩
  · rintro ⟨p, e, ⟨i, ha, hp⟩, hq⟩
    simp [Step.firing, Step.fired, ha, hp, hq]

namespace Program

variable (P : Program σ π ε)

def step (c : Config σ π) : Act π ε → Option (Config σ π)
  | .arrive p => if P.entry p then some ⟨c.store, c.procs ++ [p]⟩ else none
  | .move i e =>
    match c.procs[i]? with
    | none => none
    | some p =>
      match P.move c.store p e with
      | none => none
      | some (s, none) => some ⟨s, c.procs.eraseIdx i⟩
      | some (s, some q) => some ⟨s, c.procs.set i q⟩
  | .crash i => if i < c.procs.length then some ⟨c.store, c.procs.eraseIdx i⟩ else none

/-- The runs from `c₀`: the steps taken, in order, and where they lead. -/
inductive Run (c₀ : Config σ π) : List (Step σ π ε) → Config σ π → Prop
  | nil : Run c₀ [] c₀
  | snoc {tr c c'} (a : Act π ε) : Run c₀ tr c → P.step c a = some c' →
      Run c₀ (tr ++ [⟨c, a, c'⟩]) c'

/-- Replay a list of acts: the steps taken and the configuration reached. -/
def replay : Config σ π → List (Act π ε) → Option (List (Step σ π ε) × Config σ π)
  | c, [] => some ([], c)
  | c, a :: acts =>
    match P.step c a with
    | none => none
    | some c' => (replay c' acts).map fun r => (⟨c, a, c'⟩ :: r.1, r.2)

/-- What a step can be: an arrival, a crash, or the move of a process. -/
theorem step_cases {c c' : Config σ π} {a : Act π ε} (h : P.step c a = some c') :
    (∃ p, a = .arrive p ∧ P.entry p = true ∧ c' = ⟨c.store, c.procs ++ [p]⟩) ∨
    (∃ i, a = .crash i ∧ c' = ⟨c.store, c.procs.eraseIdx i⟩) ∨
    (∃ i e p s k, a = .move i e ∧ c.procs[i]? = some p ∧ P.move c.store p e = some (s, k) ∧
      c'.store = s ∧ ∀ q ∈ c'.procs, q ∈ c.procs ∨ k = some q) := by
  cases a with
  | arrive p =>
    simp only [step, Option.ite_none_right_eq_some, Option.some.injEq] at h
    exact Or.inl ⟨p, rfl, h.1, h.2.symm⟩
  | crash i =>
    simp only [step, Option.ite_none_right_eq_some, Option.some.injEq] at h
    exact Or.inr (Or.inl ⟨i, rfl, h.2.symm⟩)
  | move i e =>
    refine Or.inr (Or.inr ?_)
    simp only [step] at h
    split at h
    · cases h
    · rename_i p hp
      split at h
      · cases h
      · rename_i s hm
        cases h
        exact ⟨i, e, p, s, none, rfl, hp, hm, rfl, fun q hq => Or.inl (List.mem_of_mem_eraseIdx hq)⟩
      · rename_i s q hm
        cases h
        refine ⟨i, e, p, s, some q, rfl, hp, hm, rfl, fun r hr => ?_⟩
        rcases List.mem_or_eq_of_mem_set hr with hr | rfl
        · exact Or.inl hr
        · exact Or.inr rfl

/-- The move behind a step. -/
theorem move_of_step {c c' : Config σ π} {i : ℕ} {e : ε} {p : π} (hp : c.procs[i]? = some p)
    (h : P.step c (.move i e) = some c') : ∃ k, P.move c.store p e = some (c'.store, k) := by
  simp only [step, hp] at h
  split at h <;> cases h <;> exact ⟨_, by assumption⟩

theorem move_of_fires {st : Step σ π ε} {p : π} {e : ε} (hs : P.step st.pre st.act = some st.post)
    (h : st.Fires p e) : p ∈ st.pre.procs ∧ ∃ k, P.move st.pre.store p e = some (st.post.store, k) := by
  obtain ⟨i, ha, hp⟩ := h
  rw [ha] at hs
  exact ⟨List.mem_of_getElem? hp, P.move_of_step hp hs⟩

/-- A move takes its process from those that satisfy `f`, and puts the point it goes
on from among them. -/
theorem countP_move (f : π → Bool) {c c' : Config σ π} {i : ℕ} {e : ε} {p : π} (hp : c.procs[i]? = some p)
    (h : P.step c (.move i e) = some c') : ∃ s k, P.move c.store p e = some (s, k) ∧ c'.store = s ∧
      (∀ q ∈ c'.procs, q ∈ c.procs ∨ k = some q) ∧
      c'.procs.countP f + (if f p then 1 else 0) = c.procs.countP f + if k.any f then 1 else 0 := by
  obtain ⟨hi, hpi⟩ := List.getElem?_eq_some_iff.mp hp
  have hsplit : c.procs = c.procs.take i ++ p :: c.procs.drop (i + 1) := by
    rw [← hpi, List.getElem_cons_drop, List.take_append_drop]
  have hcount : c.procs.countP f =
      (c.procs.take i).countP f + (c.procs.drop (i + 1)).countP f + if f p then 1 else 0 := by
    conv_lhs => rw [hsplit]
    rw [List.countP_append, List.countP_cons, Nat.add_assoc]
  simp only [step, hp] at h
  split at h
  · cases h
  · rename_i s hm
    cases h
    refine ⟨s, none, hm, rfl, fun q hq => .inl (List.mem_of_mem_eraseIdx hq), ?_⟩
    rw [List.eraseIdx_eq_take_drop_succ, List.countP_append, hcount]
    rfl
  · rename_i s q hm
    cases h
    refine ⟨s, some q, hm, rfl, fun r hr => (List.mem_or_eq_of_mem_set hr).imp_right fun h => congrArg some h.symm, ?_⟩
    rw [List.set_eq_take_append_cons_drop, if_pos hi, List.countP_append, List.countP_cons, hcount]
    simp only [Option.any_some]
    omega

/-- A move leaves the other processes where they are, and puts its own where it goes on. -/
theorem procs_of_step {c c' : Config σ π} {i : ℕ} {e : ε} {p : π} (hp : c.procs[i]? = some p)
    (h : P.step c (.move i e) = some c') : ∃ k, P.move c.store p e = some (c'.store, k) ∧
      (∀ j q, j ≠ i → c.procs[j]? = some q → q ∈ c'.procs) ∧ ∀ q, k = some q → q ∈ c'.procs := by
  simp only [step, hp] at h
  split at h <;> cases h
  · rename_i s hm
    exact ⟨none, hm, fun j q hj hq => List.mem_eraseIdx_iff_getElem?.mpr ⟨j, hj, hq⟩, nofun⟩
  · rename_i s q hm
    refine ⟨some q, hm, fun j r hj hr => ?_, fun r hr => ?_⟩
    · exact List.mem_iff_getElem?.mpr ⟨j, by rw [List.getElem?_set_ne (Ne.symm hj)]; exact hr⟩
    · cases hr
      exact List.mem_set (List.getElem?_eq_some_iff.mp hp).1 _

/-- After a move, the others are where they were. -/
theorem mem_of_step {c c' : Config σ π} {i : ℕ} {e : ε} {p : π} (hp : c.procs[i]? = some p)
    (h : P.step c (.move i e) = some c') : ∃ k, P.move c.store p e = some (c'.store, k) ∧
      ∀ q ∈ c'.procs, k = some q ∨ ∃ j, j ≠ i ∧ c.procs[j]? = some q := by
  simp only [step, hp] at h
  split at h <;> cases h
  · rename_i s hm
    exact ⟨none, hm, fun q hq => .inr (List.mem_eraseIdx_iff_getElem?.mp hq)⟩
  · rename_i s r hm
    refine ⟨some r, hm, fun q hq => ?_⟩
    obtain ⟨j, hq⟩ := List.mem_iff_getElem?.mp hq
    rw [List.getElem?_set] at hq
    split at hq
    · split at hq <;> cases hq
      exact .inl rfl
    · rename_i hij
      exact .inr ⟨j, Ne.symm hij, hq⟩

/-- The store changes only in a move. -/
theorem step_store {c c' : Config σ π} {a : Act π ε} (h : P.step c a = some c') :
    c'.store = c.store ∨
    ∃ p e k, (⟨c, a, c'⟩ : Step σ π ε).Fires p e ∧ P.move c.store p e = some (c'.store, k) := by
  rcases P.step_cases h with ⟨p, rfl, -, rfl⟩ | ⟨i, rfl, rfl⟩ | ⟨i, e, p, s, k, rfl, hp, hm, rfl, -⟩
  · exact Or.inl rfl
  · exact Or.inl rfl
  · exact Or.inr ⟨p, e, k, ⟨i, rfl, hp⟩, hm⟩

theorem Run.append {c₀ c₁ c₂ : Config σ π} {tr tr' : List (Step σ π ε)}
    (h : P.Run c₀ tr c₁) (h' : P.Run c₁ tr' c₂) : P.Run c₀ (tr ++ tr') c₂ := by
  induction h' with
  | nil => simpa using h
  | snoc a _ hs ih => rw [← List.append_assoc]; exact .snoc a ih hs

theorem run_single {c c' : Config σ π} {a : Act π ε} (h : P.step c a = some c') :
    P.Run c [⟨c, a, c'⟩] c' := by
  simpa using Run.snoc a (Run.nil (P := P)) h

/-- A step of a run lies between two runs. -/
theorem Run.of_mem {c₀ c : Config σ π} {tr : List (Step σ π ε)} (h : P.Run c₀ tr c) {st : Step σ π ε}
    (hst : st ∈ tr) : ∃ tr₁ tr₂, tr = tr₁ ++ st :: tr₂ ∧ P.Run c₀ tr₁ st.pre ∧
      P.step st.pre st.act = some st.post ∧ P.Run st.post tr₂ c := by
  induction h with
  | nil => cases hst
  | snoc a hr hs ih =>
    rcases List.mem_append.mp hst with hst | hst
    · obtain ⟨tr₁, tr₂, rfl, h₁, h₂, h₃⟩ := ih hst
      exact ⟨tr₁, _, by rw [List.append_assoc, List.cons_append], h₁, h₂, .snoc a h₃ hs⟩
    · rw [List.mem_singleton.mp hst]
      exact ⟨_, [], rfl, hr, hs, .nil⟩

theorem Run.of_split {c₀ c : Config σ π} {tr tr₁ tr₂ : List (Step σ π ε)} {st : Step σ π ε}
    (h : P.Run c₀ tr c) (he : tr = tr₁ ++ st :: tr₂) :
    P.Run c₀ tr₁ st.pre ∧ P.step st.pre st.act = some st.post := by
  induction h generalizing tr₂ with
  | nil => simp at he
  | @snoc tr c c' a hr hs ih =>
    rcases List.eq_nil_or_concat tr₂ with rfl | ⟨tr₂, st', rfl⟩
    · obtain ⟨rfl, hst⟩ := List.append_inj' he rfl
      cases hst
      exact ⟨hr, hs⟩
    · rw [List.concat_eq_append, ← List.cons_append, ← List.append_assoc] at he
      exact ih (List.append_inj' he rfl).1

/-- A process under way was there from the start, has just arrived, or goes on from
a step of the run. -/
theorem Run.origin {c₀ c : Config σ π} {tr : List (Step σ π ε)} (h : P.Run c₀ tr c) {q : π}
    (hq : q ∈ c.procs) : q ∈ c₀.procs ∨ P.entry q = true ∨
      ∃ st ∈ tr, ∃ p e s, st.Fires p e ∧ P.move st.pre.store p e = some (s, some q) := by
  induction h with
  | nil => exact .inl hq
  | @snoc tr c c' a hr hs ih =>
    have older : q ∈ c.procs → q ∈ c₀.procs ∨ P.entry q = true ∨
        ∃ st ∈ tr ++ [⟨c, a, c'⟩], ∃ p e s, st.Fires p e ∧ P.move st.pre.store p e = some (s, some q) := by
      intro hqc
      rcases ih hqc with h | h | ⟨st, hst, h⟩
      · exact .inl h
      · exact .inr (.inl h)
      · exact .inr (.inr ⟨st, List.mem_append_left _ hst, h⟩)
    rcases P.step_cases hs with ⟨p, rfl, hp, rfl⟩ | ⟨i, rfl, rfl⟩ | ⟨i, e, p, s, k, rfl, hp, hm, -, hk⟩
    · rcases List.mem_append.mp hq with hq | hq
      · exact older hq
      · rw [List.mem_singleton.mp hq]
        exact .inr (.inl hp)
    · exact older (List.mem_of_mem_eraseIdx hq)
    · rcases hk q hq with hq | rfl
      · exact older hq
      · exact .inr (.inr ⟨_, List.mem_append_right _ (List.mem_singleton_self _), p, e, s, ⟨i, rfl, hp⟩, hm⟩)

/-- A replay is a run. -/
theorem run_of_replay : ∀ (acts : List (Act π ε)) {c : Config σ π} {r}, P.replay c acts = some r →
    P.Run c r.1 r.2
  | [], c, r, h => by
    cases h
    exact .nil
  | a :: acts, c, r, h => by
    simp only [replay] at h
    split at h
    · cases h
    · rename_i c' hc'
      obtain ⟨r', hr', rfl⟩ := Option.map_eq_some_iff.mp h
      exact (P.run_single hc').append P (run_of_replay acts hr')

/-- A replay that satisfies `q` witnesses a run that does. -/
theorem exists_run_of_replay (acts : List (Act π ε)) {c : Config σ π}
    {q : List (Step σ π ε) → Config σ π → Bool} (h : ((P.replay c acts).any fun r => q r.1 r.2) = true) :
    ∃ tr c', P.Run c tr c' ∧ q tr c' = true := by
  obtain ⟨r, hr, hq⟩ := (Option.any_eq_true _ _).mp h
  exact ⟨r.1, r.2, P.run_of_replay acts hr, hq⟩

end Program

/-! ### Proof outlines -/

/-- The invariant of the store and the assertions of the processes under way. -/
def Holds (I : σ → Prop) (A : σ → π → Prop) (c : Config σ π) : Prop :=
  I c.store ∧ ∀ p ∈ c.procs, A c.store p

/-- A proof outline, for the steps that meet `ok`. -/
structure Outline (P : Program σ π ε) (ok : σ → π → ε → Prop) (I : σ → Prop)
    (A : σ → π → Prop) : Prop where
  entry : ∀ s p, I s → P.entry p = true → A s p
  move : ∀ s p e s' k, I s → A s p → ok s p e → P.move s p e = some (s', k) →
    I s' ∧ ∀ q, k = some q → A s' q
  frame : ∀ s p e s' k q, I s → A s p → ok s p e → P.move s p e = some (s', k) → A s q → A s' q

namespace Outline

variable {P : Program σ π ε} {ok : σ → π → ε → Prop} {I : σ → Prop} {A : σ → π → Prop}

theorem step (O : Outline P ok I A) {c c' : Config σ π} {a : Act π ε} (h : Holds I A c)
    (hs : P.step c a = some c') (hok : Step.Meets ok ⟨c, a, c'⟩) : Holds I A c' := by
  rcases P.step_cases hs with ⟨p, rfl, hp, rfl⟩ | ⟨i, rfl, rfl⟩ | ⟨i, e, p, s, k, rfl, hp, hm, rfl, hq⟩
  · refine ⟨h.1, fun q hq => ?_⟩
    rcases List.mem_append.mp hq with hq | hq
    · exact h.2 q hq
    · rw [List.mem_singleton.mp hq]; exact O.entry _ _ h.1 hp
  · exact ⟨h.1, fun q hq => h.2 q (List.mem_of_mem_eraseIdx hq)⟩
  · have hA := h.2 p (List.mem_of_getElem? hp)
    have hk := hok p e ⟨i, rfl, hp⟩
    obtain ⟨hI, hnext⟩ := O.move _ _ _ _ _ h.1 hA hk hm
    refine ⟨hI, fun q hqm => ?_⟩
    rcases hq q hqm with hqc | hqk
    · exact O.frame _ _ _ _ _ q h.1 hA hk hm (h.2 q hqc)
    · exact hnext q hqk

/-- Along a run whose steps all meet `ok`, the outline holds. -/
theorem run (O : Outline P ok I A) {c₀ c : Config σ π} {tr : List (Step σ π ε)}
    (h₀ : Holds I A c₀) (h : P.Run c₀ tr c) (hok : ∀ st ∈ tr, st.Meets ok) : Holds I A c := by
  induction h with
  | nil => exact h₀
  | snoc a _ hs ih =>
    have := ih fun st hst => hok st (List.mem_append_left _ hst)
    exact O.step this hs (hok _ (by simp))

/-- Each step of such a run sets out from where the outline holds. -/
theorem run_pre (O : Outline P ok I A) {c₀ c : Config σ π} {tr : List (Step σ π ε)}
    (h₀ : Holds I A c₀) (h : P.Run c₀ tr c) (hok : ∀ st ∈ tr, st.Meets ok) :
    ∀ st ∈ tr, Holds I A st.pre ∧ P.step st.pre st.act = some st.post := by
  induction h with
  | nil => simp
  | @snoc tr c c' a hr hs ih =>
    have hok' : ∀ st ∈ tr, st.Meets ok := fun st hst => hok st (List.mem_append_left _ hst)
    intro st hst
    rcases List.mem_append.mp hst with hst | hst
    · exact ih hok' st hst
    · rw [List.mem_singleton.mp hst]
      exact ⟨O.run h₀ hr hok', hs⟩

/-- If a step from a configuration in the outline is right exactly if it meets
`ok`, the steps of a run are all right exactly if they all meet it. -/
theorem forall_iff (O : Outline P ok I A) {Q : Step σ π ε → Prop}
    (hQ : ∀ c a c', Holds I A c → P.step c a = some c' →
      (Q ⟨c, a, c'⟩ ↔ Step.Meets ok ⟨c, a, c'⟩))
    {c₀ c : Config σ π} {tr : List (Step σ π ε)} (h₀ : Holds I A c₀) (h : P.Run c₀ tr c) :
    (∀ st ∈ tr, Q st) ↔ ∀ st ∈ tr, st.Meets ok := by
  induction h with
  | nil => simp
  | @snoc tr c c' a hr hs ih =>
    simp only [List.mem_append, List.mem_singleton, or_imp, forall_and, forall_eq]
    rw [ih]
    refine and_congr_right fun hok => ?_
    exact hQ c a c' (O.run h₀ hr hok) hs

/-- Where the invariant implies `Q` and a move leads to `Q` exactly if it meets
`ok`, a run stays in `Q` exactly if its moves all meet `ok`. -/
theorem forall_store_iff (O : Outline P ok I A) {Q : σ → Prop} (hI : ∀ s, I s → Q s)
    (hQ : ∀ s p e s' k, I s → A s p → P.move s p e = some (s', k) → (Q s' ↔ ok s p e))
    {c₀ c : Config σ π} {tr : List (Step σ π ε)} (h₀ : Holds I A c₀) (h : P.Run c₀ tr c) :
    (∀ st ∈ tr, Q st.post.store) ↔ ∀ st ∈ tr, st.Meets ok := by
  refine O.forall_iff (fun c a c' hc hs => ?_) h₀ h
  rcases P.step_cases hs with ⟨p, rfl, -, rfl⟩ | ⟨i, rfl, rfl⟩ | ⟨i, e, p, s, k, rfl, hp, hm, rfl, -⟩
  · exact ⟨fun _ p' e ⟨i, hi, _⟩ => by simp at hi, fun _ => hI _ hc.1⟩
  · exact ⟨fun _ p' e ⟨i, hi, _⟩ => by simp at hi, fun _ => hI _ hc.1⟩
  · have hiff := hQ _ _ _ _ _ hc.1 (hc.2 p (List.mem_of_getElem? hp)) hm
    refine hiff.trans ⟨fun hok p' e' hf => ?_, fun hok => hok p e ((Step.fires_move hp).mpr ⟨rfl, rfl⟩)⟩
    obtain ⟨rfl, rfl⟩ := (Step.fires_move hp).mp hf
    exact hok

/-- Credits: a process that satisfies `f` holds one, a move that satisfies `spend` spends
it, and only a move that satisfies `earn` hands out another. Along a run no more are spent
or held than there were and were handed out. -/
theorem credits (O : Outline P ok I A) (f : π → Bool) (spend earn : σ → π → ε → Bool)
    (entry : ∀ p, P.entry p = true → f p = false)
    (spends : ∀ s p e, I s → A s p → spend s p e = true → f p = true)
    (holds : ∀ s p e s' r, I s → A s p → ok s p e → P.move s p e = some (s', some r) → f r = true →
      earn s p e = true ∨ (f p = true ∧ spend s p e = false))
    {c₀ c : Config σ π} {tr : List (Step σ π ε)} (h₀ : Holds I A c₀) (h : P.Run c₀ tr c)
    (hok : ∀ st ∈ tr, st.Meets ok) :
    tr.countP (·.firing spend) + c.procs.countP f ≤ c₀.procs.countP f + tr.countP (·.firing earn) := by
  induction h with
  | nil => simp
  | @snoc tr c c' a hr hs ih =>
    have hok' : ∀ st ∈ tr, st.Meets ok := fun st hst => hok st (List.mem_append_left _ hst)
    have ih := ih hok'
    rw [List.countP_append, List.countP_singleton, List.countP_append, List.countP_singleton]
    rcases P.step_cases hs with ⟨p, rfl, hp, rfl⟩ | ⟨i, rfl, rfl⟩ | ⟨i, e, p, -, -, rfl, hp, -⟩
    · rw [Step.firing_arrive, Step.firing_arrive, List.countP_append, List.countP_singleton, entry p hp]
      exact ih
    · rw [Step.firing_crash, Step.firing_crash]
      exact Nat.le_trans (Nat.add_le_add_left (List.eraseIdx_sublist _ _).countP_le _) ih
    · obtain ⟨s, k, hm, rfl, -, hc⟩ := P.countP_move f hp hs
      obtain ⟨hI, hA⟩ := O.run h₀ hr hok'
      replace hA := hA p (List.mem_of_getElem? hp)
      have hk := hok _ (List.mem_append_right _ (List.mem_singleton_self _)) p e ⟨i, rfl, hp⟩
      rw [Step.firing_move hp, Step.firing_move hp]
      have hspend : (if spend c.store p e then 1 else 0) ≤ if f p then 1 else 0 := by
        split
        · exact Nat.le_of_eq (if_pos (spends _ p e hI hA (by assumption))).symm
        · exact Nat.zero_le _
      by_cases hkf : k.any f = true
      · obtain ⟨r, rfl, hfr⟩ := (Option.any_eq_true _ _).mp hkf
        rw [if_pos hkf] at hc
        rcases holds _ p e _ r hI hA hk hm hfr with he | ⟨hfp, hs⟩
        · rw [if_pos he]
          omega
        · have hs : (if spend c.store p e then 1 else 0) = 0 := by rw [hs]; rfl
          rw [if_pos hfp] at hc
          omega
      · rw [if_neg hkf] at hc
        omega

/-- Add an invariant `K` and assertions `B` that may speak of the number `n` of moves so
far that satisfy `q`. -/
theorem count (O : Outline P ok I A) (q : σ → π → ε → Bool) {K : ℕ → σ → Prop} {B : ℕ → σ → π → Prop}
    (entry : ∀ n s p, I s → K n s → P.entry p = true → B n s p)
    (move : ∀ n s p e s' k, I s → A s p → K n s → B n s p → ok s p e → P.move s p e = some (s', k) →
      K (n + if q s p e then 1 else 0) s' ∧ ∀ r, k = some r → B (n + if q s p e then 1 else 0) s' r)
    (frame : ∀ n s p e s' k r, I s → A s p → K n s → B n s p → ok s p e →
      P.move s p e = some (s', k) → A s r → B n s r → B (n + if q s p e then 1 else 0) s' r)
    {c₀ c : Config σ π} {tr : List (Step σ π ε)} (h₀ : Holds I A c₀) (hK : Holds (K 0) (B 0) c₀)
    (h : P.Run c₀ tr c) (hok : ∀ st ∈ tr, st.Meets ok) :
    Holds (K (tr.countP (·.firing q))) (B (tr.countP (·.firing q))) c := by
  induction h with
  | nil => exact hK
  | @snoc tr c c' a hr hs ih =>
    have hok' : ∀ st ∈ tr, st.Meets ok := fun st hst => hok st (List.mem_append_left _ hst)
    obtain ⟨hI, hA⟩ := O.run h₀ hr hok'
    obtain ⟨hK, hB⟩ := ih hok'
    rw [List.countP_append, List.countP_singleton]
    rcases P.step_cases hs with ⟨p, rfl, hp, rfl⟩ | ⟨i, rfl, rfl⟩ | ⟨i, e, p, s, k, rfl, hp, hm, rfl, hq⟩
    · rw [Step.firing_arrive]
      refine ⟨hK, fun r hr => ?_⟩
      rcases List.mem_append.mp hr with hr | hr
      · exact hB r hr
      · rw [List.mem_singleton.mp hr]
        exact entry _ _ _ hI hK hp
    · rw [Step.firing_crash]
      exact ⟨hK, fun r hr => hB r (List.mem_of_mem_eraseIdx hr)⟩
    · rw [Step.firing_move hp]
      have hpm := List.mem_of_getElem? hp
      have hk := hok _ (List.mem_append_right _ (List.mem_singleton_self _)) p e ⟨i, rfl, hp⟩
      obtain ⟨hK', hnext⟩ := move _ _ _ _ _ _ hI (hA p hpm) hK (hB p hpm) hk hm
      refine ⟨hK', fun r hr => ?_⟩
      rcases hq r hr with hr | hr
      · exact frame _ _ _ _ _ _ r hI (hA p hpm) hK (hB p hpm) hk hm (hA r hr) (hB r hr)
      · exact hnext r hr

/-- An outline for fewer steps. -/
theorem restrict (O : Outline P ok I A) {ok' : σ → π → ε → Prop}
    (hok : ∀ s p e, ok' s p e → ok s p e) : Outline P ok' I A where
  entry := O.entry
  move s p e s' k hI hA hk := O.move s p e s' k hI hA (hok _ _ _ hk)
  frame s p e s' k q hI hA hk := O.frame s p e s' k q hI hA (hok _ _ _ hk)

/-- Add an invariant `K` and assertions `B` to an outline: their obligations may
use what the outline has. -/
theorem strengthen (O : Outline P ok I A) {ok' : σ → π → ε → Prop} {K : σ → Prop}
    {B : σ → π → Prop} (hok : ∀ s p e, ok' s p e → ok s p e)
    (entry : ∀ s p, I s → K s → P.entry p = true → B s p)
    (move : ∀ s p e s' k, I s → A s p → K s → B s p → ok' s p e → P.move s p e = some (s', k) →
      K s' ∧ ∀ q, k = some q → B s' q)
    (frame : ∀ s p e s' k q, I s → A s p → K s → B s p → ok' s p e →
      P.move s p e = some (s', k) → A s q → B s q → B s' q) :
    Outline P ok' (fun s => I s ∧ K s) (fun s p => A s p ∧ B s p) where
  entry s p h hp := ⟨O.entry s p h.1 hp, entry s p h.1 h.2 hp⟩
  move s p e s' k h hA hk hm := by
    obtain ⟨hI, hnext⟩ := O.move s p e s' k h.1 hA.1 (hok _ _ _ hk) hm
    obtain ⟨hK, hnext'⟩ := move s p e s' k h.1 hA.1 h.2 hA.2 hk hm
    exact ⟨⟨hI, hK⟩, fun q hq => ⟨hnext q hq, hnext' q hq⟩⟩
  frame s p e s' k q h hA hk hm hq :=
    ⟨O.frame s p e s' k q h.1 hA.1 (hok _ _ _ hk) hm hq.1,
      frame s p e s' k q h.1 hA.1 h.2 hA.2 hk hm hq.1 hq.2⟩

/-- Add an invariant of the store alone. -/
theorem strengthenStore (O : Outline P ok I A) {ok' : σ → π → ε → Prop} {K : σ → Prop}
    (hok : ∀ s p e, ok' s p e → ok s p e)
    (move : ∀ s p e s' k, I s → A s p → K s → ok' s p e → P.move s p e = some (s', k) → K s') :
    Outline P ok' (fun s => I s ∧ K s) A where
  entry s p h hp := O.entry s p h.1 hp
  move s p e s' k h hA hk hm := by
    obtain ⟨hI, hnext⟩ := O.move s p e s' k h.1 hA (hok _ _ _ hk) hm
    exact ⟨⟨hI, move s p e s' k h.1 hA h.2 hk hm⟩, hnext⟩
  frame s p e s' k q h hA hk hm hq := O.frame s p e s' k q h.1 hA (hok _ _ _ hk) hm hq

/-- Add assertions of the processes alone. -/
theorem strengthenProcs (O : Outline P ok I A) {B : σ → π → Prop}
    (entry : ∀ s p, I s → P.entry p = true → B s p)
    (move : ∀ s p e s' q, I s → A s p → B s p → ok s p e → P.move s p e = some (s', some q) → B s' q)
    (frame : ∀ s p e s' k q, I s → A s p → ok s p e → P.move s p e = some (s', k) → A s q → B s q → B s' q) :
    Outline P ok I (fun s p => A s p ∧ B s p) where
  entry s p h hp := ⟨O.entry s p h hp, entry s p h hp⟩
  move s p e s' k h hA hk hm := by
    obtain ⟨hI, hnext⟩ := O.move s p e s' k h hA.1 hk hm
    refine ⟨hI, fun q hq => ⟨hnext q hq, ?_⟩⟩
    subst hq
    exact move s p e s' q h hA.1 hA.2 hk hm
  frame s p e s' k q h hA hk hm hq :=
    ⟨O.frame s p e s' k q h hA.1 hk hm hq.1, frame s p e s' k q h hA.1 hk hm hq.1 hq.2⟩

end Outline

/-! ### Processes kept apart -/

/-- Any two processes under way are in relation `B`. -/
def Apart (B : π → π → Prop) (procs : List π) : Prop :=
  ∀ (i j : ℕ) (p q : π), i ≠ j → procs[i]? = some p → procs[j]? = some q → B p q

namespace Apart

variable {B : π → π → Prop} {procs : List π}

theorem nil : Apart B [] := by
  intro i j p q _ hp _
  rw [List.getElem?_nil] at hp
  cases hp

theorem append (h : Apart B procs) (symm : ∀ p q, B p q → B q p) {p : π}
    (hp : ∀ q ∈ procs, B p q) : Apart B (procs ++ [p]) := by
  have last {i : ℕ} {q : π} (hq : (procs ++ [p])[i]? = some q) :
      (i < procs.length ∧ procs[i]? = some q) ∨ (i = procs.length ∧ q = p) := by
    rcases Nat.lt_or_ge i procs.length with hi | hi
    · exact .inl ⟨hi, by rwa [List.getElem?_append_left hi] at hq⟩
    · rw [List.getElem?_append_right hi, List.getElem?_singleton] at hq
      split at hq <;> cases hq
      exact .inr ⟨by omega, rfl⟩
  intro i j q r hij hq hr
  rcases last hq with ⟨hi, hq'⟩ | ⟨hi, rfl⟩ <;> rcases last hr with ⟨hj, hr'⟩ | ⟨hj, rfl⟩
  · exact h i j q r hij hq' hr'
  · exact symm _ _ (hp q (List.mem_of_getElem? hq'))
  · exact hp r (List.mem_of_getElem? hr')
  · omega

theorem eraseIdx (h : Apart B procs) (i : ℕ) : Apart B (procs.eraseIdx i) := by
  intro j k p q hjk hp hq
  rw [List.getElem?_eraseIdx] at hp hq
  split at hp <;> split at hq
  · exact h _ _ p q hjk hp hq
  · exact h j (k + 1) p q (by omega) hp hq
  · exact h (j + 1) k p q (by omega) hp hq
  · exact h (j + 1) (k + 1) p q (by omega) hp hq

theorem set (h : Apart B procs) (symm : ∀ p q, B p q → B q p) {i : ℕ} {p : π}
    (hp : ∀ j q, j ≠ i → procs[j]? = some q → B p q) : Apart B (procs.set i p) := by
  intro j k q r hjk hq hr
  rw [List.getElem?_set] at hq hr
  split at hq <;> split at hr
  · omega
  · rename_i hij hik
    split at hq <;> cases hq
    exact hp k r (Ne.symm hik) hr
  · rename_i hij hik
    split at hr <;> cases hr
    exact symm _ _ (hp j q (Ne.symm hij) hq)
  · exact h j k q r hjk hq hr

end Apart

/-- A proof outline for processes any two of which are in relation `B`: a step has
to leave the assertions of only those others true. -/
structure ApartOutline (P : Program σ π ε) (I : σ → Prop) (A : σ → π → Prop) (B : π → π → Prop) :
    Prop where
  symm : ∀ p q, B p q → B q p
  entry : ∀ s p, I s → P.entry p = true → A s p
  arrive : ∀ s p q, I s → P.entry p = true → A s q → B p q
  move : ∀ s p e s' k, I s → A s p → P.move s p e = some (s', k) → I s' ∧ ∀ q, k = some q → A s' q
  goOn : ∀ s p e s' p' q, I s → A s p → A s q → B p q → P.move s p e = some (s', some p') → B p' q
  frame : ∀ s p e s' k q, I s → A s p → A s q → B p q → P.move s p e = some (s', k) → A s' q

namespace ApartOutline

variable {P : Program σ π ε} {I : σ → Prop} {A : σ → π → Prop} {B : π → π → Prop}

theorem step (O : ApartOutline P I A B) {c c' : Config σ π} {a : Act π ε} (h : Holds I A c)
    (hB : Apart B c.procs) (hs : P.step c a = some c') : Holds I A c' ∧ Apart B c'.procs := by
  cases a with
  | arrive p =>
    simp only [Program.step, Option.ite_none_right_eq_some, Option.some.injEq] at hs
    obtain ⟨hp, rfl⟩ := hs
    refine ⟨⟨h.1, fun q hq => ?_⟩, hB.append O.symm fun q hq => O.arrive _ _ _ h.1 hp (h.2 q hq)⟩
    rcases List.mem_append.mp hq with hq | hq
    · exact h.2 q hq
    · rw [List.mem_singleton.mp hq]; exact O.entry _ _ h.1 hp
  | crash i =>
    simp only [Program.step, Option.ite_none_right_eq_some, Option.some.injEq] at hs
    obtain ⟨-, rfl⟩ := hs
    exact ⟨⟨h.1, fun q hq => h.2 q (List.mem_of_mem_eraseIdx hq)⟩, hB.eraseIdx i⟩
  | move i e =>
    simp only [Program.step] at hs
    split at hs
    · cases hs
    rename_i p hp
    have hA := h.2 p (List.mem_of_getElem? hp)
    have others {s' k} (hm : P.move c.store p e = some (s', k)) {j : ℕ} {q : π} (hj : j ≠ i)
        (hq : c.procs[j]? = some q) : A s' q :=
      O.frame _ _ _ _ _ _ h.1 hA (h.2 q (List.mem_of_getElem? hq)) (hB i j p q (Ne.symm hj) hp hq) hm
    split at hs <;> cases hs
    · rename_i s' hm
      refine ⟨⟨(O.move _ _ _ _ _ h.1 hA hm).1, fun q hq => ?_⟩, hB.eraseIdx i⟩
      obtain ⟨j, hj, hq⟩ := List.mem_eraseIdx_iff_getElem?.mp hq
      exact others hm hj hq
    · rename_i s' p' hm
      obtain ⟨hI, hnext⟩ := O.move _ _ _ _ _ h.1 hA hm
      refine ⟨⟨hI, fun q hq => ?_⟩, hB.set O.symm fun j q hj hq => ?_⟩
      · obtain ⟨j, hq⟩ := List.mem_iff_getElem?.mp hq
        rw [List.getElem?_set] at hq
        split at hq
        · split at hq <;> cases hq
          exact hnext _ rfl
        · rename_i hij
          exact others hm (Ne.symm hij) hq
      · exact O.goOn _ _ _ _ _ _ h.1 hA (h.2 q (List.mem_of_getElem? hq))
          (hB i j p q (Ne.symm hj) hp hq) hm

/-- Along a run the outline holds, and the processes are apart. -/
theorem run (O : ApartOutline P I A B) {c₀ c : Config σ π} {tr : List (Step σ π ε)}
    (h₀ : Holds I A c₀) (hB : Apart B c₀.procs) (h : P.Run c₀ tr c) : Holds I A c ∧ Apart B c.procs := by
  induction h with
  | nil => exact ⟨h₀, hB⟩
  | snoc a _ hs ih => exact O.step ih.1 ih.2 hs

end ApartOutline

/-- Two outlines that do not need each other. -/
theorem ApartOutline.and {P : Program σ π ε} {I I' : σ → Prop} {A A' : σ → π → Prop} {B B' : π → π → Prop}
    (O : ApartOutline P I A B) (O' : ApartOutline P I' A' B') :
    ApartOutline P (fun s => I s ∧ I' s) (fun s p => A s p ∧ A' s p) (fun p q => B p q ∧ B' p q) where
  symm p q h := ⟨O.symm p q h.1, O'.symm p q h.2⟩
  entry s p h hp := ⟨O.entry s p h.1 hp, O'.entry s p h.2 hp⟩
  arrive s p q h hp hq := ⟨O.arrive s p q h.1 hp hq.1, O'.arrive s p q h.2 hp hq.2⟩
  move s p e s' k h hA hm := by
    obtain ⟨hI, hnext⟩ := O.move s p e s' k h.1 hA.1 hm
    obtain ⟨hI', hnext'⟩ := O'.move s p e s' k h.2 hA.2 hm
    exact ⟨⟨hI, hI'⟩, fun q hq => ⟨hnext q hq, hnext' q hq⟩⟩
  goOn s p e s' p' q h hA hq hB hm :=
    ⟨O.goOn s p e s' p' q h.1 hA.1 hq.1 hB.1 hm, O'.goOn s p e s' p' q h.2 hA.2 hq.2 hB.2 hm⟩
  frame s p e s' k q h hA hq hB hm :=
    ⟨O.frame s p e s' k q h.1 hA.1 hq.1 hB.1 hm, O'.frame s p e s' k q h.2 hA.2 hq.2 hB.2 hm⟩

/-- The moves of `P` that meet `ok`. -/
noncomputable def Program.restrict (P : Program σ π ε) (ok : σ → π → ε → Prop) : Program σ π ε where
  entry := P.entry
  move s p e := by
    classical
    exact if ok s p e then P.move s p e else none

theorem Program.restrict_move {P : Program σ π ε} {ok : σ → π → ε → Prop} {s s' : σ} {p : π} {e : ε}
    {k : Option π} : (P.restrict ok).move s p e = some (s', k) ↔ ok s p e ∧ P.move s p e = some (s', k) := by
  simp [restrict]

/-- A run whose steps meet `ok` is a run of the moves that do. -/
theorem Program.Run.restrict {P : Program σ π ε} {ok : σ → π → ε → Prop} {c₀ c : Config σ π}
    {tr : List (Step σ π ε)} (h : P.Run c₀ tr c) (hok : ∀ st ∈ tr, st.Meets ok) : (P.restrict ok).Run c₀ tr c := by
  induction h with
  | nil => exact .nil
  | @snoc tr c c' a hr hs ih =>
    refine .snoc a (ih fun st hst => hok st (List.mem_append_left _ hst)) ?_
    have hlast := hok ⟨c, a, c'⟩ (List.mem_append_right _ (List.mem_singleton_self _))
    cases a with
    | arrive | crash => exact hs
    | move i e =>
      simp only [Program.step] at hs ⊢
      split at hs
      · cases hs
      · rename_i p hp
        have hmove : (P.restrict ok).move c.store p e = P.move c.store p e :=
          if_pos (hlast p e ⟨i, rfl, hp⟩)
        rw [hmove]
        exact hs

/-- Add an invariant `K`, assertions `C` and a relation `D` to an outline, for the
moves that meet `ok`: their obligations may use what the outline has. -/
theorem ApartOutline.strengthen {P : Program σ π ε} {I : σ → Prop} {A : σ → π → Prop} {B : π → π → Prop}
    (O : ApartOutline P I A B) {ok : σ → π → ε → Prop} {K : σ → Prop} {C : σ → π → Prop} {D : π → π → Prop}
    (symm : ∀ p q, D p q → D q p)
    (entry : ∀ s p, I s → K s → P.entry p = true → C s p)
    (arrive : ∀ s p q, I s → K s → P.entry p = true → A s q → C s q → D p q)
    (move : ∀ s p e s' k, I s → K s → A s p → C s p → ok s p e → P.move s p e = some (s', k) →
      K s' ∧ ∀ q, k = some q → C s' q)
    (goOn : ∀ s p e s' p' q, I s → K s → A s p → C s p → A s q → C s q → B p q → D p q → ok s p e →
      P.move s p e = some (s', some p') → D p' q)
    (frame : ∀ s p e s' k q, I s → K s → A s p → C s p → A s q → C s q → B p q → D p q → ok s p e →
      P.move s p e = some (s', k) → C s' q) :
    ApartOutline (P.restrict ok) (fun s => I s ∧ K s) (fun s p => A s p ∧ C s p) (fun p q => B p q ∧ D p q) where
  symm p q h := ⟨O.symm p q h.1, symm p q h.2⟩
  entry s p h hp := ⟨O.entry s p h.1 hp, entry s p h.1 h.2 hp⟩
  arrive s p q h hp hq := ⟨O.arrive s p q h.1 hp hq.1, arrive s p q h.1 h.2 hp hq.1 hq.2⟩
  move s p e s' k h hA hm := by
    obtain ⟨hok, hm⟩ := Program.restrict_move.mp hm
    obtain ⟨hI, hnext⟩ := O.move s p e s' k h.1 hA.1 hm
    obtain ⟨hK, hnext'⟩ := move s p e s' k h.1 h.2 hA.1 hA.2 hok hm
    exact ⟨⟨hI, hK⟩, fun q hq => ⟨hnext q hq, hnext' q hq⟩⟩
  goOn s p e s' p' q h hA hq hB hm := by
    obtain ⟨hok, hm⟩ := Program.restrict_move.mp hm
    exact ⟨O.goOn s p e s' p' q h.1 hA.1 hq.1 hB.1 hm,
      goOn s p e s' p' q h.1 h.2 hA.1 hA.2 hq.1 hq.2 hB.1 hB.2 hok hm⟩
  frame s p e s' k q h hA hq hB hm := by
    obtain ⟨hok, hm⟩ := Program.restrict_move.mp hm
    exact ⟨O.frame s p e s' k q h.1 hA.1 hq.1 hB.1 hm,
      frame s p e s' k q h.1 h.2 hA.1 hA.2 hq.1 hq.2 hB.1 hB.2 hok hm⟩

/-- Along a run whose steps meet `ok`, an invariant of the store alone may use what the
outline has. -/
theorem ApartOutline.run_store {P : Program σ π ε} {I : σ → Prop} {A : σ → π → Prop} {B : π → π → Prop}
    (O : ApartOutline P I A B) {ok : σ → π → ε → Prop} {K : σ → Prop}
    (move : ∀ s p e s' k, I s → A s p → K s → ok s p e → P.move s p e = some (s', k) → K s')
    {c₀ c : Config σ π} {tr : List (Step σ π ε)} (h₀ : Holds I A c₀) (hB : Apart B c₀.procs) (hK : K c₀.store)
    (h : P.Run c₀ tr c) (hok : ∀ st ∈ tr, st.Meets ok) : K c.store := by
  induction h with
  | nil => exact hK
  | @snoc tr c c' a hr hs ih =>
    have hK := ih fun st hst => hok st (List.mem_append_left _ hst)
    have hlast := hok ⟨c, a, c'⟩ (List.mem_append_right _ (List.mem_singleton_self _))
    obtain ⟨hI, hA⟩ := (O.run h₀ hB hr).1
    rcases P.step_store hs with he | ⟨p, e, k, hf, hm⟩
    · rw [he]
      exact hK
    · have hp : p ∈ c.procs := by
        obtain ⟨i, -, hp⟩ := hf
        exact List.mem_of_getElem? hp
      exact move _ _ _ _ _ hI (hA p hp) hK (hlast p e hf) hm

/-- Of processes that are not apart, there is one at most. -/
theorem Apart.countP_le_one {B : π → π → Prop} {f : π → Bool} {procs : List π} (h : Apart B procs)
    (hf : ∀ p q, B p q → f p = true → f q = false) : procs.countP f ≤ 1 := by
  induction procs with
  | nil => exact Nat.zero_le _
  | cons p procs ih =>
    have htail : Apart B procs := fun i j q r hij hq hr => h (i + 1) (j + 1) q r (by omega) hq hr
    have hhead : ∀ q ∈ procs, B p q := by
      intro q hq
      obtain ⟨i, hi⟩ := List.mem_iff_getElem?.mp hq
      exact h 0 (i + 1) p q (by omega) rfl hi
    rw [List.countP_cons]
    by_cases hp : f p = true
    · have hnone : procs.countP f = 0 := by
        refine List.countP_eq_zero.mpr fun q hq => ?_
        rw [hf p q (hhead q hq) hp]
        exact Bool.false_ne_true
      rw [if_pos hp]
      omega
    · rw [if_neg hp]
      exact ih htail

/-! ### Components -/

variable {σ' π' ε' : Type*}

/-- `P'` is a component of `P`: of the store `f` and of a process `g` belong to it.
A move of `P` is a move of `P'`, or it leaves the store of `P'` alone and at most
ends a process of `P'` or lets one arrive. `ok` and `ok'` are the steps looked at. -/
structure Component (P : Program σ π ε) (P' : Program σ' π' ε') (f : σ → σ') (g : π → Option π')
    (ok : σ → π → ε → Prop) (ok' : σ' → π' → ε' → Prop) : Prop where
  entry : ∀ p q, P.entry p = true → g p = some q → P'.entry q = true
  move : ∀ s p e s' k, ok s p e → P.move s p e = some (s', k) →
    (f s' = f s ∧ ∀ q, k.bind g = some q → g p = some q ∨ P'.entry q = true) ∨
    ∃ p' e', g p = some p' ∧ ok' (f s) p' e' ∧ P'.move (f s) p' e' = some (f s', k.bind g)

section Pullback

variable {P : Program σ π ε} {P' : Program σ' π' ε'} {f : σ → σ'} {g : π → Option π'}
  {ok : σ → π → ε → Prop} {ok' : σ' → π' → ε' → Prop} {I : σ' → Prop} {A : σ' → π' → Prop}

/-- An outline of a component is an outline of the whole. -/
theorem Outline.pullback (O : Outline P' ok' I A) (C : Component P P' f g ok ok') :
    Outline P ok (fun s => I (f s)) (fun s p => ∀ q, g p = some q → A (f s) q) where
  entry s p hI hp q hq := O.entry _ q hI (C.entry p q hp hq)
  move s p e s' k hI hA hk hm := by
    rcases C.move s p e s' k hk hm with ⟨hs, hnext⟩ | ⟨p', e', hp', hk', hm'⟩
    · rw [hs]
      refine ⟨hI, fun r hr q hq => ?_⟩
      rcases hnext q (by rw [hr]; exact hq) with hq' | hq'
      · exact hA q hq'
      · exact O.entry _ q hI hq'
    · obtain ⟨hI', hnext⟩ := O.move _ p' e' _ _ hI (hA p' hp') hk' hm'
      exact ⟨hI', fun r hr q hq => hnext q (by rw [hr]; exact hq)⟩
  frame s p e s' k r hI hA hk hm hr q hq := by
    rcases C.move s p e s' k hk hm with ⟨hs, -⟩ | ⟨p', e', hp', hk', hm'⟩
    · rw [hs]
      exact hr q hq
    · exact O.frame _ p' e' _ _ q hI (hA p' hp') hk' hm' (hr q hq)

/-- So are its processes kept apart. -/
theorem ApartOutline.pullback {B : π' → π' → Prop} (O : ApartOutline P' I A B)
    (C : Component P P' f g (fun _ _ _ => True) fun _ _ _ => True) :
    ApartOutline P (fun s => I (f s)) (fun s p => ∀ q, g p = some q → A (f s) q)
      (fun p r => ∀ p' q, g p = some p' → g r = some q → B p' q) where
  symm p r h q p' hq hp' := O.symm _ _ (h p' q hp' hq)
  entry s p hI hp q hq := O.entry _ q hI (C.entry p q hp hq)
  arrive s p r hI hp hr p' q hp' hq := O.arrive _ p' q hI (C.entry p p' hp hp') (hr q hq)
  move s p e s' k hI hA hm := by
    rcases C.move s p e s' k trivial hm with ⟨hs, hnext⟩ | ⟨p', e', hp', -, hm'⟩
    · rw [hs]
      refine ⟨hI, fun r hr q hq => ?_⟩
      rcases hnext q (by rw [hr]; exact hq) with hq' | hq'
      · exact hA q hq'
      · exact O.entry _ q hI hq'
    · obtain ⟨hI', hnext⟩ := O.move _ p' e' _ _ hI (hA p' hp') hm'
      exact ⟨hI', fun r hr q hq => hnext q (by rw [hr]; exact hq)⟩
  goOn s p e s' p₁ r hI hA hr hB hm p₁' q hp₁ hq := by
    rcases C.move s p e s' _ trivial hm with ⟨-, hnext⟩ | ⟨p', e', hp', -, hm'⟩
    · rcases hnext p₁' hp₁ with hp' | hp'
      · exact hB p₁' q hp' hq
      · exact O.arrive _ p₁' q hI hp' (hr q hq)
    · have hnext : (some p₁).bind g = some p₁' := hp₁
      rw [hnext] at hm'
      exact O.goOn _ p' e' _ p₁' q hI (hA p' hp') (hr q hq) (hB p' q hp' hq) hm'
  frame s p e s' k r hI hA hr hB hm q hq := by
    rcases C.move s p e s' k trivial hm with ⟨hs, -⟩ | ⟨p', e', hp', -, hm'⟩
    · rw [hs]
      exact hr q hq
    · exact O.frame _ p' e' _ _ q hI (hA p' hp') (hr q hq) (hB p' q hp' hq) hm'

end Pullback

end Interleave
