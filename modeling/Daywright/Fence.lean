/-
# Registers fenced by fresh tags

A register holds some data under a tag; every writer that takes it over draws a
tag never drawn before, and whoever gives it up leaves it without a tag. Then a
tag is never seen with two different data: a reader that finds the tag it knows
finds the data it knew (`Change.eq_of_tag`), and what it knew of the register
under its tag no other step can make false (`Change.frame`). A tag that has been
replaced never comes back (`Change.lost`), so its owner is fenced out for good.

Key definitions: `Register`, `Change`, `Knows`.
Key theorems: `Change.eq_of_tag`, `Change.frame`, `Change.lost`.
-/
import Mathlib.Data.List.Basic

namespace Fence

variable {τ α : Type*}

/-- Data under the tag of its current owner. -/
@[ext] structure Register (τ α : Type*) where
  tag : Option τ
  data : α

/-- What a step may do to a register, `drawn` being the tags drawn before it. -/
inductive Change (drawn : List τ) : Register τ α → Register τ α → Prop
  | keep (r) : Change drawn r r
  | release (r) (d : α) : Change drawn r ⟨none, d⟩
  | grant (r) {t : τ} (d : α) : t ∉ drawn → Change drawn r ⟨some t, d⟩

/-- Whenever the register is under the tag `t`, `Q` is true of its data. -/
def Knows (t : τ) (Q : α → Prop) (r : Register τ α) : Prop := r.tag = some t → Q r.data

variable {drawn : List τ} {r r' : Register τ α} {t u : τ}

/-! ### The tags drawn -/

/-- What was drawn stays drawn in a step that may draw `u`. -/
theorem mem_drawn {draws : Bool} (h : t ∈ drawn) : t ∈ if draws then u :: drawn else drawn := by
  split
  · exact List.mem_cons_of_mem _ h
  · exact h

theorem mem_drawn_self {draws : Bool} (h : draws = true) : u ∈ if draws then u :: drawn else drawn := by
  rw [if_pos h]
  exact List.mem_cons_self

/-! ### The register -/

/-- Under a tag drawn before the step, the register is what it was. -/
theorem Change.eq_of_tag (h : Change drawn r r') (ht : t ∈ drawn) (h' : r'.tag = some t) :
    r' = r := by
  cases h with
  | keep => rfl
  | release => cases h'
  | grant d hf => cases h'; exact absurd ht hf

/-- What an owner knows under its tag, no step makes false. -/
theorem Change.frame {Q : α → Prop} (h : Change drawn r r') (ht : t ∈ drawn)
    (hk : Knows t Q r) : Knows t Q r' := fun h' => by
  have he := h.eq_of_tag ht h'
  subst he
  exact hk h'

/-- A tag that has been replaced does not come back. -/
theorem Change.lost (h : Change drawn r r') (ht : t ∈ drawn) (hl : r.tag ≠ some t) :
    r'.tag ≠ some t := fun h' => hl (by rw [← h.eq_of_tag ht h']; exact h')

end Fence
