/-
# Versioned rows and their states

What `TaskService::updateTask`, `ProjectService::updateProject` and
`ProjectService::updateStageStatus` share: the errors of a request, the enums of
states and the trait `HasStateMachine`, whose `transitionTo` checks the transition
and saves the new state on its own, in the transaction of its caller.

Key definitions: `Error`, `BackedEnum`, `HasStateMachine.transitionTo`.
-/
import Daywright.Transaction
import Daywright.Zoom

namespace Daywright
namespace Versions

open Transaction Php

inductive Error where
  /-- `ValidationException::withMessages([field => [message]])`. -/
  | validation (field message : String)
  /-- `ModelNotFoundException`. -/
  | modelNotFound
  /-- `EditConflictException`. -/
  | editConflict (expectedVersion : Option ℤ) (currentVersion : ℤ)
  /-- `InvalidStateTransitionException`. -/
  | invalidStateTransition (currentState attemptedState : String)
  /-- `ValueError`: the enum has no such case. -/
  | valueError (value : ℤ) (enum : String)
  /-- Carbon or the column takes no such date. -/
  | invalidFormat (value : Value)
  deriving DecidableEq, Repr

/-- The times a save reads: `now()` in the source, and the timestamp of the save. -/
structure Clock where
  now : Time
  freshTimestamp : Time
  deriving DecidableEq, Repr

/-- A model and the ways its transaction can go. -/
abbrev Update (α : Type) := Body α Error Clock

/-- What an update without a version is refused with. -/
def versionRequired : Error := .validation "version" "The version field is required."

/-- `lockForUpdate()->firstOrFail()`, which does not find a row that is trashed, and the
check of the version. -/
def onVersion {α : Type} (deletedAt : Option Time) (expectedVersion : Option ℤ) (currentVersion : ℤ)
    (update : Update α) : Update α :=
  if deletedAt.isSome then .fail .modelNotFound
  else if some currentVersion ≠ expectedVersion then .fail (.editConflict expectedVersion currentVersion)
  else update

@[simp] theorem commits_onVersion {α : Type} {deletedAt : Option Time} {expectedVersion : Option ℤ}
    {currentVersion : ℤ} {update : Update α} {r r' model : α} :
    (onVersion deletedAt expectedVersion currentVersion update).Commits r r' model ↔
      deletedAt = none ∧ expectedVersion = some currentVersion ∧ update.Commits r r' model := by
  unfold onVersion
  split
  · rename_i h
    simp [Option.ne_none_iff_isSome.mpr h]
  split
  · rename_i h
    simp [Ne.symm h]
  · rename_i hd hv
    simp [not_not.mp hv, Option.not_isSome_iff_eq_none.mp hd]

/-- `Arr::only`. -/
def only (names : List String) (payload : List (String × Value)) : List (String × Value) :=
  payload.filter fun f => names.contains f.1

theorem mem_only {names : List String} {payload : List (String × Value)} : ∀ f ∈ only names payload, f.1 ∈ names := by
  intro f hf
  simpa using (List.mem_filter.mp hf).2

/-- A value that `is_string`. -/
def string? : Value → Option String
  | .str s => some s
  | _ => none

/-- The version of a payload: `isset` and `is_numeric`, then `(int)`. -/
def payloadVersion (payload : List (String × Value)) : Option ℤ := (field "version" payload).bind numeric

/-- A boolean is bound as a number. -/
def bound : Value → Value
  | .bool b => .int (if b then 1 else 0)
  | v => v

/-- A column after a `fill` with the attributes. -/
def filled (name : String) (attributes : List (String × Value)) (old : Value) : Value :=
  (field name attributes).elim old bound

/-! ### States -/

/-- An enum backed by integers. -/
structure BackedEnum (E : Type) where
  enum : String
  cases : List E
  name : E → String
  value : E → ℤ

namespace BackedEnum

variable {E : Type} (B : BackedEnum E)

def tryFrom (v : ℤ) : Option E := B.cases.find? fun c => B.value c == v

theorem value_of_tryFrom {v : ℤ} {c : E} (h : B.tryFrom v = some c) : B.value c = v := by
  simpa using List.find?_some h

end BackedEnum

namespace HasStateMachine

variable {E α : Type} (B : BackedEnum E) (validTransitions : List (ℤ × List ℤ))

/-- `$this->validTransitions()[$currentStateValue] ?? []`. -/
def allowed (current : Option ℤ) : List ℤ := (current.bind fun v => validTransitions.lookup v).getD []

def getStateName : Option ℤ → String
  | none => "None"
  | some v =>
    match B.tryFrom v with
    | some c => B.name c
    | none => toString v

/-- The column is saved with the new state before the caller goes on. -/
def transitionTo (current : Option ℤ) (newStatus : E) (write : Clock → α) (next : α → Update α) : Update α :=
  if (allowed validTransitions current).contains (B.value newStatus) then .update write next
  else .fail (.invalidStateTransition (getStateName B current) (B.name newStatus))

variable {B validTransitions} {current : Option ℤ} {newStatus : E} {write : Clock → α} {next : α → Update α}
  {r r' model : α}

@[simp] theorem commits_transitionTo :
    (transitionTo B validTransitions current newStatus write next).Commits r r' model ↔
      B.value newStatus ∈ allowed validTransitions current ∧
        ∃ t, (next (write t)).Commits (write t) r' model := by
  unfold transitionTo
  split
  · rename_i h
    rw [Body.commits_update]
    exact (and_iff_right (by simpa using h)).symm
  · rename_i h
    simp only [Body.commits_fail, false_iff, not_and]
    exact fun hmem => absurd (by simpa using hmem) h

end HasStateMachine

/-- A state may be asked for if the enum has it and it is the current one or one that
the current one leads to. -/
def StateLegal {E : Type} (B : BackedEnum E) (validTransitions : List (ℤ × List ℤ)) (current : Option ℤ)
    (requested : ℤ) : Prop :=
  (B.tryFrom requested).isSome ∧
    (current = some requested ∨ requested ∈ HasStateMachine.allowed validTransitions current)

section

variable {E : Type} {B : BackedEnum E} {validTransitions : List (ℤ × List ℤ)} {current : Option ℤ} {requested : ℤ}
  {new : E}

theorem StateLegal.of_same (hnew : B.tryFrom requested = some new) (hs : some (B.value new) = current) :
    StateLegal B validTransitions current requested := by
  refine ⟨by rw [hnew]; rfl, .inl ?_⟩
  rw [← hs, B.value_of_tryFrom hnew]

theorem StateLegal.of_allowed (hnew : B.tryFrom requested = some new)
    (hm : B.value new ∈ HasStateMachine.allowed validTransitions current) :
    StateLegal B validTransitions current requested := by
  refine ⟨by rw [hnew]; rfl, .inr ?_⟩
  rwa [← B.value_of_tryFrom hnew]

end

end Versions
end Daywright
