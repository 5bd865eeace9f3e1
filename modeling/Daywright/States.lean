/-
# The states of a row

A row has a state, and a relation says which state leads to which. If every
transaction that commits leaves the state alone or moves it along the relation, as its
request asks (`Tracked`), then between any two moments of any run the state has followed
the relation (`Tracked.path`): a state that leads nowhere is never left
(`Tracked.terminal`), and a state that has been reached was entered in a step, by a
request that asked for it (`Tracked.entered`).

What requests do to the row and keep true stays true of it (`invariant_of_run`).

Key definitions: `Tracked`, `StateHistory`.
Key theorem: `Tracked.history`.
-/
import Daywright.Transaction
import Mathlib.Logic.Relation

namespace Transaction

open Interleave Relation

variable {α β ρ ε τ : Type*} {S : Service α ρ ε τ} {r₀ : α} {c c' : Config (Store α) (Point α ρ ε τ)}
  {tr tr' : List (Step (Store α) (Point α ρ ε τ) (Input τ))}

/-- What no commit makes false stays true of the row. -/
theorem invariant_of_run {I : α → Prop} (hI : ∀ q r r' model, (S.body q r).Commits r r' model → I r → I r')
    (h : S.program.Run (start r₀) tr c) (h₀ : I r₀) : I c.store.row := by
  induction h with
  | nil => exact h₀
  | @snoc tr c c' a hr hs ih =>
    rcases row_of_step (holds_of_run hr).1 hs with hrow | ⟨q, model, -, hb⟩
    · rw [hrow]
      exact ih
    · exact hI _ _ _ _ hb ih

/-- A commit leaves the state of the row alone, or moves it to one it leads to and the
request asks for. -/
def Tracked (S : Service α ρ ε τ) (state : α → β) (leads : β → β → Prop) (asks : ρ → α → β → Prop) : Prop :=
  ∀ q r r' model, (S.body q r).Commits r r' model →
    state r' = state r ∨ (leads (state r) (state r') ∧ asks q r (state r'))

/-- What has become of the state of the row between two moments, `tr` being the steps
between them. -/
structure StateHistory (state : α → β) (leads : β → β → Prop) (asks : ρ → α → β → Prop)
    (c c' : Config (Store α) (Point α ρ ε τ)) (tr : List (Step (Store α) (Point α ρ ε τ) (Input τ))) : Prop where
  path : ReflTransGen leads (state c.store.row) (state c'.store.row)
  /-- A state that leads nowhere has not been left. -/
  terminal : (∀ b, ¬ leads (state c.store.row) b) → state c'.store.row = state c.store.row
  /-- If the state is another one, there is a last step that has changed it, and in this
  step a request has committed that asked for it. -/
  entered : state c'.store.row ≠ state c.store.row → ∃ tr₁ st tr₂, tr = tr₁ ++ st :: tr₂ ∧
    leads (state (before st)) (state c'.store.row) ∧ state (after st) = state c'.store.row ∧
    (∃ q, CommitOf q st ∧ asks q (before st) (state c'.store.row)) ∧
    ∀ st' ∈ tr₂, state (after st') = state c'.store.row

namespace Tracked

variable {state : α → β} {leads : β → β → Prop} {asks : ρ → α → β → Prop}

theorem of_step (hT : Tracked S state leads asks) (hc : Holds Inv (Knowledge S) c) {a : Act (Point α ρ ε τ) (Input τ)}
    (hs : S.program.step c a = some c') : state c'.store.row = state c.store.row ∨
      (leads (state c.store.row) (state c'.store.row) ∧
        ∃ q, CommitOf q ⟨c, a, c'⟩ ∧ asks q c.store.row (state c'.store.row)) := by
  rcases row_of_step hc hs with hrow | ⟨q, model, hcommit, hb⟩
  · exact .inl (congrArg state hrow)
  · exact (hT _ _ _ _ hb).imp_right fun ⟨hleads, hasks⟩ => ⟨hleads, q, hcommit, hasks⟩

theorem path (hT : Tracked S state leads asks) (h₁ : S.program.Run (start r₀) tr c)
    (h : S.program.Run c tr' c') : ReflTransGen leads (state c.store.row) (state c'.store.row) := by
  induction h with
  | nil => exact .refl
  | @snoc tr' c' c'' a hr hs ih =>
    rcases hT.of_step (holds_of_run (h₁.append _ hr)).1 hs with heq | ⟨hleads, -⟩
    · rw [heq]
      exact ih
    · exact ih.tail hleads

theorem terminal (hT : Tracked S state leads asks) (h₁ : S.program.Run (start r₀) tr c)
    (h : S.program.Run c tr' c') (hend : ∀ b, ¬ leads (state c.store.row) b) :
    state c'.store.row = state c.store.row := by
  rcases (hT.path h₁ h).cases_head with heq | ⟨b, hb, -⟩
  · exact heq.symm
  · exact absurd hb (hend b)

theorem entered (hT : Tracked S state leads asks) (h₁ : S.program.Run (start r₀) tr c)
    (h : S.program.Run c tr' c') (hne : state c'.store.row ≠ state c.store.row) : ∃ tr₁ st tr₂,
      tr' = tr₁ ++ st :: tr₂ ∧ leads (state (before st)) (state c'.store.row) ∧
      state (after st) = state c'.store.row ∧ (∃ q, CommitOf q st ∧ asks q (before st) (state c'.store.row)) ∧
      ∀ st' ∈ tr₂, state (after st') = state c'.store.row := by
  induction h with
  | nil => exact absurd rfl hne
  | @snoc tr' c' c'' a hr hs ih =>
    rcases hT.of_step (holds_of_run (h₁.append _ hr)).1 hs with heq | ⟨hleads, hasks⟩
    · -- The last change is one of the steps before.
      rw [heq] at hne ⊢
      obtain ⟨tr₁, st, tr₂, rfl, hl, ha, hq, hstay⟩ := ih hne
      refine ⟨tr₁, st, tr₂ ++ [⟨c', a, c''⟩], by rw [List.append_assoc, List.cons_append], hl, ha, hq, ?_⟩
      intro st' hst'
      rcases List.mem_append.mp hst' with hst' | hst'
      · exact hstay st' hst'
      · rw [List.mem_singleton.mp hst']
        exact heq
    · exact ⟨tr', _, [], rfl, hleads, rfl, hasks, nofun⟩

theorem history (hT : Tracked S state leads asks) (h₁ : S.program.Run (start r₀) tr c)
    (h : S.program.Run c tr' c') : StateHistory state leads asks c c' tr' where
  path := hT.path h₁ h
  terminal := hT.terminal h₁ h
  entered := hT.entered h₁ h

end Tracked

end Transaction
