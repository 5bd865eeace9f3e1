/-
# The request to update a task

`TaskUpdateRequest` writes its due date in UTC before it validates the input. What it
passes on (`toDto`) has no mark of a notification, and its due date and its notification
rule, where it has them, are a normal form and one of the rules (`normal_toDto`).

Key definitions: `TaskDueNotifies`, `rules`, `accepts`, `toDto`, `Normal`.
Key theorem: `normal_toDto`.
-/
import Daywright.Rules.Iso8601Timestamp
import Daywright.Versions.Task

namespace Daywright

open Php

/-! ### When a task is notified -/

namespace TaskDueNotifies

def values : List String := ["1 Day Before", "2 Hours Before", "15 Minutes Before", "5 Minutes Before"]

def getPeriodInMinutes : String → Option ℕ
  | "1 Day Before" => some 1440
  | "2 Hours Before" => some 120
  | "15 Minutes Before" => some 15
  | "5 Minutes Before" => some 5
  | "2 Minutes Before" => some 2
  | _ => none

end TaskDueNotifies

namespace TaskUpdateRequest

open Versions

/-! ### The request -/

/-- `required_with:other`. -/
def requiredWith (data : Json) (other : String) : List ValidationRule :=
  if (data.get? other).any ValidationRule.isGiven then [.required] else []

def rules (data : Json) : List FieldRules :=
  [⟨["version"], [.required, .integer, .min 1]⟩,
    ⟨["title"], [.sometimes, .required, .string, .max 55, .unique]⟩,
    ⟨["description"], [.sometimes, .nullable, .string, .max 1000]⟩,
    ⟨["due_at"], .sometimes :: (requiredWith data "notified" ++ [.bail, .string, .iso8601Timestamp])⟩,
    ⟨["status_id"], [.sometimes, .required, .integer, .enum (TaskSystemStatus.backed.cases.map TaskSystemStatus.value)]⟩,
    ⟨["notified"], [.sometimes, .required, .ruleIn TaskDueNotifies.values]⟩]

def prepareForValidation : Json → Json := Iso8601Timestamp.normalizeInput "due_at"

section

variable (isUnique : String → Bool) (trim : String → String) (input : Json)

def validation : ValidationEnv :=
  ⟨isUnique, fun _ => true, fun s => (Iso8601Timestamp.validate (.str s)).isNone, fun _ => true⟩

/-- The input as it is validated. -/
def validationData : Json := prepareForValidation (Middleware.handle trim input)

def accepts : Bool :=
  Validator.passes (validation isUnique) (rules (validationData trim input)) (validationData trim input)

def validated : Json := Validator.validated (rules (validationData trim input)) (validationData trim input)

/-- `toDto`, of an input that is accepted. -/
def toDto : TaskUpdateData := TaskUpdateData.fromArray ((validated trim input).entries.map fun e => (e.1, e.2.toValue))

end

/-! ### What it passes on -/

/-- The due date is a normal form, the rule is one of those there are, and the mark is left alone. -/
structure Normal (data : TaskUpdateData) : Prop where
  dueAt : ∀ v, field "due_at" data.attributes = some v →
    ∃ n, Iso8601Timestamp.InRange n ∧ v = .str (Iso8601Timestamp.normalForm n)
  notified : ∀ v, field "notified" data.attributes = some v → ∃ s ∈ TaskDueNotifies.values, v = .str s
  notifySent : field "notify_sent" data.attributes = none

variable {isUnique : String → Bool} {trim : String → String} {input : Json}

def keys : List String := ["version", "title", "description", "due_at", "status_id", "notified"]

theorem field_only (names : List String) (key : String) (payload : List (String × Value)) :
    field key (only names payload) = if names.contains key then field key payload else none :=
  field_filter names.contains key payload

theorem field_toValue (key : String) : ∀ es : List (String × Json),
    field key (es.map fun e => (e.1, e.2.toValue)) = ((Json.array es).get? key).map Json.toValue
  | [] => rfl
  | e :: es => by
    have ih := field_toValue key es
    by_cases h : e.1 = key
    · simp [field, Json.get?, Json.entries, h]
    · simpa [field, Json.get?, Json.entries, h] using ih

theorem get?_validated (key : String) :
    (validated trim input).get? key = if key ∈ keys then (validationData trim input).get? key else none := by
  have hkeys : (rules (validationData trim input)).map (·.key) = keys.map fun k => [k] := rfl
  refine Validator.get?_validated hkeys (fun r hr => ?_) _ key
  simp only [rules, List.mem_cons, List.not_mem_nil, or_false] at hr
  rcases hr with rfl | rfl | rfl | rfl | rfl | rfl
  · decide
  · decide
  · decide
  · rw [requiredWith]
    split <;> decide
  · decide
  · decide

/-- An attribute that is passed on is a value of the input. -/
theorem field_toDto {key : String} {v : Value} (h : field key (toDto trim input).attributes = some v) :
    key ∈ keys ∧ ∃ w, (validationData trim input).get? key = some w ∧ v = w.toValue := by
  rw [toDto, TaskUpdateData.fromArray, field_only] at h
  split at h
  · rw [field_toValue, Option.map_eq_some_iff] at h
    obtain ⟨w, hw, rfl⟩ := h
    have hget : (validated trim input).get? key = some w := hw
    rw [get?_validated] at hget
    split at hget
    · rename_i hk
      exact ⟨hk, w, hget, rfl⟩
    · cases hget
  · cases h

theorem toText_int_not_mem (n : ℤ) : toText (.int n) ∉ TaskDueNotifies.values := by
  have hdigits (k : ℕ) : ' ' ∉ k.repr.toList := fun h => by
    rw [Nat.toList_repr] at h
    exact absurd (Nat.isDigit_of_mem_toDigits (by decide) (by decide) h) (by decide)
  have hspace : ' ' ∉ (toText (.int n)).toList := by
    rw [toText, Int.toString_eq_repr, Int.repr_eq_if]
    split
    · exact hdigits _
    · rw [String.toList_append, List.mem_append]
      exact not_or.mpr ⟨by decide, hdigits _⟩
  intro h
  have hall : ∀ s ∈ TaskDueNotifies.values, ' ' ∈ s.toList := by decide
  exact hspace (hall _ h)

/-- A value of which the text is one of the rules is this rule. -/
theorem exists_rule {w : Json} (h : ValidationRule.isIn TaskDueNotifies.values w = true) :
    ∃ s ∈ TaskDueNotifies.values, w.toValue = .str s := by
  cases w with
  | str s => exact ⟨s, by simpa [ValidationRule.isIn, toText, Json.toValue] using h, rfl⟩
  | int n =>
    have hmem : toText (.int n) ∈ TaskDueNotifies.values := by simpa [ValidationRule.isIn, Json.toValue] using h
    exact absurd hmem (toText_int_not_mem n)
  | bool b => cases b <;> exact absurd h (by decide)
  | null => exact absurd h (by decide)
  | float | array => cases h

/-- **What an accepted request passes on** is in normal form. -/
theorem normal_toDto (ht : ∀ s, isBlank (trim s) = true → trim s = "") (h : accepts isUnique trim input = true) :
    Normal (toDto trim input) where
  dueAt v hv := by
    obtain ⟨-, w, hget, rfl⟩ := field_toDto hv
    have hfield := Validator.fieldPasses_of_passes h (List.mem_of_getElem? (i := 3) rfl)
    rw [hget] at hfield
    have hnullable : ValidationRule.nullable ∉
        .sometimes :: (requiredWith (validationData trim input) "notified" ++ [.bail, .string, .iso8601Timestamp]) := by
      rw [requiredWith]
      split <;> decide
    obtain ⟨s, rfl⟩ := Validator.exists_str_of_fieldPasses hfield (by simp) hnullable
    obtain ⟨t, rfl, hlow, hhigh⟩ := Iso8601Timestamp.normalizeInput_accepted ht (by decide) hget rfl (by simp) hfield
    refine ⟨t.toSeconds, (Iso8601Timestamp.inRange_iff _).mpr ?_, ?_⟩
    · rw [Calendar.DateTime.ofSeconds_toSeconds]
      exact ⟨hlow, hhigh⟩
    · rw [Iso8601Timestamp.normalForm, Calendar.DateTime.ofSeconds_toSeconds]
      rfl
  notified v hv := by
    obtain ⟨-, w, hget, rfl⟩ := field_toDto hv
    have hfield := Validator.fieldPasses_of_passes h (List.mem_of_getElem? (i := 5) rfl)
    rw [hget] at hfield
    have hblank := Validator.not_blank_of_required hfield (by decide)
    have hrule := Validator.rule_of_fieldPasses (r := .ruleIn TaskDueNotifies.values) hblank (.inr (by decide)) hfield
      (by decide)
    exact exists_rule hrule
  notifySent := by
    rw [← Option.not_isSome_iff_eq_none, Option.isSome_iff_exists]
    rintro ⟨v, hv⟩
    exact absurd (field_toDto hv).1 (by decide)

end TaskUpdateRequest
end Daywright
