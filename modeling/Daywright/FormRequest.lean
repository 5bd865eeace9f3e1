/-
# The input of a request and its validation

A request's input is its decoded JSON (`Json`); a form request has rules for some of its
keys. A rule that is not implicit is asked only of a value that is there and not blank,
nor a null where nulls are allowed (`Validator.fieldPasses`). What has been validated
keeps of an array, for whose keys there are rules, only the keys that have rules
(`Validator.validated`).

Key definitions: `Json`, `Json.dataGet`, `ValidationRule`, `Validator.passes`, `Validator.validated`.
-/
import Daywright.Php
import Mathlib.Data.Rat.Defs

namespace Daywright

open Php

/-! ### The input -/

/-- A decoded JSON value; of an array, the keys as text. -/
inductive Json where
  | null
  | bool (b : Bool)
  | int (n : ℤ)
  | float (q : ℚ)
  | str (s : String)
  | array (entries : List (String × Json))

namespace Json

def entries : Json → List (String × Json)
  | .array es => es
  | _ => []

def get? (v : Json) (key : String) : Option Json := (v.entries.find? fun e => e.1 == key).map (·.2)

theorem get?_cons (e : String × Json) (es : List (String × Json)) (key : String) :
    (Json.array (e :: es)).get? key = if e.1 = key then some e.2 else (Json.array es).get? key := by
  by_cases h : e.1 = key <;> simp [get?, entries, h]

/-- `$v[$key]`, if it is set and not null. -/
def isset (v : Json) (key : String) : Option Json :=
  match v.get? key with
  | some .null => none
  | w => w

/-- `data_get`. -/
def dataGet : Json → List String → Option Json
  | v, [] => some v
  | v, key :: keys => (v.get? key).bind fun w => w.dataGet keys

theorem dataGet_singleton (v : Json) (key : String) : v.dataGet [key] = v.get? key := by
  rw [dataGet]
  cases v.get? key <;> rfl

theorem dataGet_append (keys keys' : List String) : ∀ v : Json,
    v.dataGet (keys ++ keys') = (v.dataGet keys).bind fun w => w.dataGet keys' := by
  induction keys with
  | nil => exact fun v => rfl
  | cons key keys ih =>
    intro v
    rw [List.cons_append, dataGet, dataGet, Option.bind_assoc]
    exact Option.bind_congr fun w _ => ih w

/-- `$entries[$key] = $v`. -/
def put {α : Type} (key : String) (v : α) : List (String × α) → List (String × α)
  | [] => [(key, v)]
  | e :: es => if e.1 = key then (key, v) :: es else e :: put key v es

/-- `Arr::set`: what is no array on the way is replaced by one. -/
def arrSet (v : Json) : List String → Json → Json
  | [], _ => v
  | key :: keys, into => .array (put key (arrSet v keys ((into.get? key).getD .null)) into.entries)

def ofValue : Value → Json
  | .null => .null
  | .bool b => .bool b
  | .int n => .int n
  | .str s => .str s

/-- A scalar: a float with its integer part, an array as a null. -/
def toValue : Json → Value
  | .null | .array _ => .null
  | .bool b => .bool b
  | .int n => .int n
  | .float q => .int (q.num.tdiv q.den)
  | .str s => .str s

/-- `filter_var($v, FILTER_VALIDATE_BOOLEAN, FILTER_NULL_ON_FAILURE)`. -/
def filterBoolean : Json → Option Bool
  | .float q => if q = 1 then some true else if q = 0 then some false else none
  | .array _ => none
  | v => Php.filterBoolean v.toValue

/-- `filter_var($v, FILTER_VALIDATE_INT)`; a float of less than sixteen digits is written
without an exponent. -/
def filterInt : Json → Option ℤ
  | .float q => if q.den = 1 ∧ q.num.natAbs < 10 ^ 15 then some q.num else none
  | .array _ => none
  | v => Php.filterInt v.toValue

/-- `is_numeric($v)`. -/
def isNumeric : Json → Bool
  | .float _ => true
  | .array _ => false
  | v => (Php.numeric v.toValue).isSome

def isNull : Json → Bool
  | .null => true
  | _ => false

/-- A string of blanks. -/
def isBlankString : Json → Bool
  | .str s => isBlank s
  | _ => false

end Json

/-! ### The middleware before a request -/

namespace Middleware

/-- `TrimStrings::$except`. -/
def notTrimmed : List String := ["password", "password_confirmation"]

/-- `TrimStrings`, on the values at the top of the input; it trims with `Str::trim`, which
takes more blanks than `trim` does. -/
def trimStrings (trim : String → String) (key : String) : Json → Json
  | .str s => if notTrimmed.contains key then .str s else .str (trim s)
  | v => v

/-- `ConvertEmptyStringsToNull`. -/
def convertEmptyStringsToNull : Json → Json
  | .str s => if s = "" then .null else .str s
  | v => v

def handle (trim : String → String) (input : Json) : Json :=
  .array (input.entries.map fun e => (e.1, convertEmptyStringsToNull (trimStrings trim e.1 e.2)))

theorem get?_handle (trim : String → String) (input : Json) (key : String) :
    (handle trim input).get? key =
      (input.get? key).map fun v => convertEmptyStringsToNull (trimStrings trim key v) := by
  have hmap (g : String → Json → Json) (es : List (String × Json)) :
      ((es.map fun e => (e.1, g e.1 e.2)).find? fun e => e.1 == key).map (·.2) =
        ((es.find? fun e => e.1 == key).map (·.2)).map (g key) := by
    induction es with
    | nil => rfl
    | cons e es ih =>
      rw [List.map_cons]
      by_cases he : e.1 = key
      · rw [List.find?_cons_of_pos (by simpa using he), List.find?_cons_of_pos (by simpa using he), ← he]
        rfl
      · rw [List.find?_cons_of_neg (by simpa using he), List.find?_cons_of_neg (by simpa using he), ih]
  exact hmap (fun key v => convertEmptyStringsToNull (trimStrings trim key v)) input.entries

/-- What is left of a string is not blank, if blanks are trimmed from it. -/
theorem not_isBlankString {trim : String → String} (ht : ∀ s, isBlank (trim s) = true → trim s = "") {key : String}
    (hk : key ∉ notTrimmed) (v : Json) : (convertEmptyStringsToNull (trimStrings trim key v)).isBlankString = false := by
  cases v with
  | str s =>
    rw [trimStrings, if_neg (by simpa using hk), convertEmptyStringsToNull]
    split
    · rfl
    · rename_i hne
      exact Bool.eq_false_iff.mpr fun hb => hne (ht s hb)
  | _ => rfl

end Middleware

/-! ### Rules -/

inductive ValidationRule where
  | required
  | sometimes
  | bail
  | nullable
  | string
  | ruleIn (values : List String)
  | integer
  | numeric
  | boolean
  | array
  | prohibited
  | min (n : ℕ)
  | max (n : ℕ)
  | enum (values : List ℤ)
  | unique
  | timezone
  | iso8601Timestamp
  | afterNow
  deriving DecidableEq, Repr

/-- What rules ask of strings, beyond the input. -/
structure ValidationEnv where
  isUnique : String → Bool
  isTimezone : String → Bool
  isTimestamp : String → Bool
  isAfterNow : String → Bool

namespace ValidationRule

/-- A value that `required` accepts. -/
def isGiven : Json → Bool
  | .null => false
  | .str s => !isBlank s
  | .array es => !es.isEmpty
  | _ => true

/-- A scalar whose text is in the list. -/
def isIn (values : List String) : Json → Bool
  | .array _ | .float _ => false
  | v => values.contains (toText v.toValue)

def isString (p : String → Bool) : Json → Bool
  | .str s => p s
  | _ => false

def isBoolean : Json → Bool
  | .bool _ => true
  | .int n => n == 0 || n == 1
  | .str s => s == "0" || s == "1"
  | _ => false

def isArray : Json → Bool
  | .array _ => true
  | _ => false

/-- The size of a number is the number, of a text its length, of an array its count. -/
def size : Json → ℤ
  | .array es => es.length
  | v => if v.isNumeric then toInt v.toValue else (toText v.toValue).length

def passes (V : ValidationEnv) : ValidationRule → Json → Bool
  | .required, v => isGiven v
  | .sometimes, _ | .bail, _ | .nullable, _ => true
  | .string, v => isString (fun _ => true) v
  | .ruleIn values, v => isIn values v
  | .integer, v => v.filterInt.isSome
  | .numeric, v => v.isNumeric
  | .boolean, v => isBoolean v
  | .array, v => isArray v
  | .prohibited, v => !isGiven v
  -- Beside `integer`, the size of a number; beside `string`, the length of a text.
  | .min n, v => decide ((n : ℤ) ≤ size v)
  | .max n, v => isString (fun s => decide (s.length ≤ n)) v
  | .enum values, v => v.filterInt.any values.contains
  | .unique, v => isString V.isUnique v
  | .timezone, v => isString V.isTimezone v
  | .iso8601Timestamp, v => isString V.isTimestamp v
  | .afterNow, v => isString V.isAfterNow v

/-- The rule is asked of a missing value too. -/
def isImplicit : ValidationRule → Bool
  | .required => true
  | _ => false

end ValidationRule

/-- The rules for one key of the input. -/
structure FieldRules where
  key : List String
  rules : List ValidationRule

namespace Validator

/-- The value of a key passes its rules. -/
def fieldPasses (V : ValidationEnv) (rules : List ValidationRule) (value : Option Json) : Bool :=
  match value with
  | none => rules.contains .sometimes || rules.all fun r => !r.isImplicit || r.passes V .null
  | some v =>
    if v.isBlankString || v.isNull && rules.contains .nullable then rules.all fun r => !r.isImplicit || r.passes V v
    else rules.all fun r => r.passes V v

def passes (V : ValidationEnv) (rules : List FieldRules) (data : Json) : Bool :=
  rules.all fun r => fieldPasses V r.rules (data.dataGet r.key)

/-- A rule of the list is about a key below this one. -/
def hasRulesBelow (rules : List FieldRules) (key : List String) : Bool :=
  rules.any fun r => key.isPrefixOf r.key && r.key != key

/-- `validated`: an array is left out for which there are rules below. -/
def validated (rules : List FieldRules) (data : Json) : Json :=
  rules.foldl (fun results r =>
    if r.rules.contains .array && hasRulesBelow rules r.key then results
    else match data.dataGet r.key with
      | none => results
      | some v => Json.arrSet v r.key results) (.array [])

/-- A required field is there. -/
theorem isSome_of_fieldPasses {V : ValidationEnv} {rules : List ValidationRule} {value : Option Json}
    (hr : .required ∈ rules) (hs : .sometimes ∉ rules) (h : fieldPasses V rules value = true) :
    ∃ v, value = some v := by
  cases value with
  | some v => exact ⟨v, rfl⟩
  | none =>
    simp only [fieldPasses, List.contains_eq_mem, hs, decide_false, Bool.false_or, List.all_eq_true] at h
    have hnone := h _ hr
    cases hnone

/-- The value of a key at the top passes its rules. -/
theorem fieldPasses_of_passes {V : ValidationEnv} {rules : List FieldRules} {data : Json} (h : passes V rules data = true)
    {key : String} {fieldRules : List ValidationRule} (hr : ⟨[key], fieldRules⟩ ∈ rules) :
    fieldPasses V fieldRules (data.get? key) = true := by
  rw [← Json.dataGet_singleton]
  exact List.all_eq_true.mp h _ hr

/-- A value that is neither blank nor null passes each of the rules. -/
theorem rule_of_fieldPasses {V : ValidationEnv} {rules : List ValidationRule} {v : Json} (hb : v.isBlankString = false)
    (hn : v.isNull = false ∨ .nullable ∉ rules) (h : fieldPasses V rules (some v) = true) {r : ValidationRule}
    (hr : r ∈ rules) : r.passes V v = true := by
  have hskip : (v.isBlankString || v.isNull && rules.contains .nullable) = false := by
    rw [hb, Bool.false_or, List.contains_eq_mem]
    rcases hn with hn | hn
    · rw [hn, Bool.false_and]
    · rw [decide_eq_false hn, Bool.and_false]
  rw [fieldPasses, if_neg (by rw [hskip]; exact Bool.false_ne_true)] at h
  exact List.all_eq_true.mp h r hr

/-- What is required is not blank. -/
theorem not_blank_of_required {V : ValidationEnv} {rules : List ValidationRule} {v : Json}
    (h : fieldPasses V rules (some v) = true) (hr : .required ∈ rules) : v.isBlankString = false := by
  cases hb : v.isBlankString with
  | false => rfl
  | true =>
    rw [fieldPasses, hb, Bool.true_or, if_pos rfl] at h
    have hgiven : ValidationRule.isGiven v = true := List.all_eq_true.mp h _ hr
    cases v with
    | str s =>
      have hblank : isBlank s = true := hb
      rw [ValidationRule.isGiven, hblank] at hgiven
      cases hgiven
    | _ => cases hb

/-- What passes for a string is one, blank or not. -/
theorem exists_str_of_fieldPasses {V : ValidationEnv} {rules : List ValidationRule} {v : Json}
    (h : fieldPasses V rules (some v) = true) (hr : .string ∈ rules) (hn : .nullable ∉ rules) : ∃ s, v = .str s := by
  cases hb : v.isBlankString with
  | true => cases v with
    | str s => exact ⟨s, rfl⟩
    | _ => cases hb
  | false =>
    have hstring := rule_of_fieldPasses hb (.inr hn) h hr
    cases v with
    | str s => exact ⟨s, rfl⟩
    | _ => cases hstring

theorem get?_put (key k : String) (v : Json) : ∀ es : List (String × Json),
    (Json.array (Json.put key v es)).get? k = if k = key then some v else (Json.array es).get? k
  | [] => by
    by_cases hk : k = key
    · simp [Json.put, Json.get?, Json.entries, hk]
    · simp [Json.put, Json.get?, Json.entries, hk, Ne.symm hk]
  | e :: es => by
    have ih := get?_put key k v es
    rw [Json.put]
    by_cases he : e.1 = key
    · rw [if_pos he]
      by_cases hk : k = key
      · simp [Json.get?, Json.entries, hk]
      · simp [Json.get?, Json.entries, hk, Ne.symm hk, he]
    · rw [if_neg he]
      by_cases hek : e.1 = k
      · have hk : k ≠ key := fun h => he (hek.trans h)
        simp [Json.get?, Json.entries, hek, hk]
      · simpa [Json.get?, Json.entries, hek] using ih

/-- One key of `validated`. -/
def keep (data : Json) (results : Json) (key : List String) : Json :=
  match data.dataGet key with
  | none => results
  | some v => Json.arrSet v key results

theorem get?_keep (data results : Json) (key k : String) :
    (keep data results [key]).get? k = if k = key then (data.get? key).or (results.get? k) else results.get? k := by
  rw [keep, Json.dataGet_singleton]
  cases data.get? key with
  | none =>
    rw [Option.none_or, ite_self]
  | some v =>
    have hput : (Json.arrSet v [key] results).get? k = if k = key then some v else results.get? k :=
      get?_put key k v results.entries
    rw [Option.some_or]
    exact hput

theorem get?_foldl_keep (data : Json) (k : String) : ∀ (keys : List String) (results : Json),
    (keys.foldl (fun results key => keep data results [key]) results).get? k =
      if k ∈ keys then (data.get? k).or (results.get? k) else results.get? k
  | [], results => rfl
  | key :: keys, results => by
    rw [List.foldl_cons, get?_foldl_keep data k keys, get?_keep]
    by_cases hk : k = key
    · subst hk
      rw [if_pos rfl, if_pos List.mem_cons_self, ← Option.or_assoc, Option.or_self, ite_self]
    · rw [if_neg hk]
      simp only [List.mem_cons, hk, false_or]

/-- Of an input whose rules are about keys at the top, these keys are kept. -/
theorem get?_validated {rules : List FieldRules} {keys : List String} (hkeys : rules.map (·.key) = keys.map fun k => [k])
    (harray : ∀ r ∈ rules, .array ∉ r.rules) (data : Json) (k : String) :
    (validated rules data).get? k = if k ∈ keys then data.get? k else none := by
  have hkeep : validated rules data = (rules.map (·.key)).foldl (keep data) (.array []) := by
    rw [validated, List.foldl_map]
    refine List.foldl_ext _ _ _ fun results r hr => ?_
    rw [List.contains_eq_mem, decide_eq_false (harray r hr), Bool.false_and, if_neg Bool.false_ne_true]
    rfl
  have hnil : (Json.array []).get? k = none := rfl
  rw [hkeep, hkeys, List.foldl_map, get?_foldl_keep, hnil, Option.or_none]

end Validator

end Daywright
