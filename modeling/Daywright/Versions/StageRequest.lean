/-
# The request for a stage

`StageRequest` wants a reason with the stage that the table of stages calls `Postponed`.
The names of the table can be edited; the number of the stage is what
`ProjectService::updateStageStatus` goes by. As long as the table calls the postponed
stage by its name, a request that is accepted has a reason for it
(`reason_of_accepts`).

Key definitions: `StageRequest.accepts`, `StageRequest.projectStageUpdateData`, `StageRequest.Accepted`.
Key theorem: `reason_of_accepts`.
-/
import Daywright.Tasks.UpdateRequest
import Daywright.Versions.Project

namespace Daywright
namespace Versions
namespace StageRequest

open Php

/-! ### The request -/

def rules : List FieldRules :=
  [⟨["version"], [.required, .integer, .min 1]⟩, ⟨["stage"], [.required, .integer]⟩,
    ⟨["postponed_reason"], [.sometimes, .nullable, .string]⟩]

def validation : ValidationEnv := ⟨fun _ => true, fun _ => true, fun _ => true, fun _ => true⟩

/-- `empty`. -/
def empty : Option Json → Bool
  | none => true
  | some (.array es) => es.isEmpty
  | some (.float q) => q == 0
  | some v => !toBool v.toValue

section

variable (stages : ℤ → Option String) (trim : String → String) (input : Json)

def validationData : Json := Middleware.handle trim input

/-- `Stage::find`: the name of the stage that is asked for. -/
def stage : Option String := ((validationData trim input).get? "stage").bind fun v => stages (toInt v.toValue)

/-- The error that `withValidator` adds after the rules. -/
def lacksReason : Bool :=
  (stage stages trim input).any fun name =>
    name == "Postponed" && empty ((validationData trim input).get? "postponed_reason")

/-- The rules, `exists:stages,id` among them, and the check after them. -/
def accepts : Bool :=
  Validator.passes validation rules (validationData trim input) && (stage stages trim input).isSome &&
    !lacksReason stages trim input

def validated : Json := Validator.validated rules (validationData trim input)

/-- Of an input that is accepted. -/
def projectStageUpdateData : Option ProjectStageUpdateData :=
  ProjectStageUpdateData.fromArray ((validated trim input).entries.map fun e => (e.1, e.2.toValue))

end

/-- What the endpoint passes on, and the input it has been accepted with. -/
structure Accepted (stages : ℤ → Option String) (trim : String → String) where
  input : Json
  data : ProjectStageUpdateData
  accepts : accepts stages trim input = true
  toDto : projectStageUpdateData trim input = some data

/-! ### The reason -/

variable {stages : ℤ → Option String} {trim : String → String} {input : Json} {data : ProjectStageUpdateData}

def keys : List String := ["version", "stage", "postponed_reason"]

theorem get?_validated (key : String) :
    (validated trim input).get? key = if key ∈ keys then (validationData trim input).get? key else none := by
  have hkeys : rules.map (·.key) = keys.map fun k => [k] := rfl
  exact Validator.get?_validated hkeys (by decide) _ key

theorem field_validated {key : String} (hk : key ∈ keys) :
    field key ((validated trim input).entries.map fun e => (e.1, e.2.toValue)) =
      ((validationData trim input).get? key).map Json.toValue := by
  have hget : (Json.array (validated trim input).entries).get? key = (validated trim input).get? key := rfl
  rw [TaskUpdateRequest.field_toValue, hget, get?_validated, if_pos hk]

/-- What is passed on is the stage of the input, and the reason as a text. -/
theorem of_projectStageUpdateData (h : projectStageUpdateData trim input = some data) :
    (∃ v, (validationData trim input).get? "stage" = some v ∧ data.stageId = toInt v.toValue) ∧
      data.postponedReason = ((validationData trim input).get? "postponed_reason").map fun v => toText v.toValue := by
  rw [projectStageUpdateData, ProjectStageUpdateData.fromArray, field_validated (by decide),
    field_validated (by decide), Option.map_map] at h
  split at h
  · cases h
  · cases h
  · rename_i hstage
    cases h
    obtain ⟨v, hv, rfl⟩ := Option.map_eq_some_iff.mp hstage
    exact ⟨⟨v, hv, rfl⟩, rfl⟩

/-- A reason that is accepted is a text, unless it is empty. -/
theorem exists_str_of_passes {v : Json} (h : Validator.passes validation rules (validationData trim input) = true)
    (hv : (validationData trim input).get? "postponed_reason" = some v) (hfull : empty (some v) = false) :
    ∃ s, v = .str s := by
  have hfield : Validator.fieldPasses validation [.sometimes, .nullable, .string] (some v) = true := by
    rw [← hv]
    exact Validator.fieldPasses_of_passes h (by simp [rules])
  cases hb : v.isBlankString with
  | true =>
    cases v with
    | str s => exact ⟨s, rfl⟩
    | _ => cases hb
  | false =>
    have hnull : v.isNull = false := by
      cases v with
      | null => cases hfull
      | _ => rfl
    have hstring := Validator.rule_of_fieldPasses hb (.inl hnull) hfield (r := .string) (by decide)
    cases v with
    | str s => exact ⟨s, rfl⟩
    | _ => cases hstring

/-- The postponed stage is asked for with a reason, if the table calls it by its name. -/
theorem reason_of_accepts (hname : ∀ name, stages ProjectStage.Postponed.value = some name → name = "Postponed")
    (h : accepts stages trim input = true) (hdata : projectStageUpdateData trim input = some data)
    (hstage : data.stageId = ProjectStage.Postponed.value) :
    ∃ reason, data.postponedReason = some reason ∧ reason ≠ "" ∧ reason ≠ "0" := by
  obtain ⟨⟨v, hv, hid⟩, hreason⟩ := of_projectStageUpdateData hdata
  rw [accepts, Bool.and_eq_true, Bool.and_eq_true, Bool.not_eq_true'] at h
  obtain ⟨⟨hpasses, hfound⟩, hnot⟩ := h
  have hfind : stage stages trim input = stages ProjectStage.Postponed.value := by
    rw [stage, hv, Option.bind_some, ← hid, hstage]
  obtain ⟨name, hsome⟩ := Option.isSome_iff_exists.mp hfound
  have hpostponed : name = "Postponed" := hname name (hfind ▸ hsome)
  rw [lacksReason, hsome, Option.any_some, hpostponed, beq_self_eq_true, Bool.true_and] at hnot
  cases hw : (validationData trim input).get? "postponed_reason" with
  | none =>
    rw [hw] at hnot
    cases hnot
  | some w =>
    rw [hw] at hnot hreason
    obtain ⟨s, rfl⟩ := exists_str_of_passes hpasses hw hnot
    refine ⟨s, hreason, ?_, ?_⟩
    · rintro rfl
      cases hnot
    · rintro rfl
      cases hnot

end StageRequest
end Versions
end Daywright
