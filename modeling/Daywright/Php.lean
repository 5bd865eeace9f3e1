/-
# PHP's scalars

The columns of a meeting, the fields of an update and the fields of a webhook
hold PHP scalars, and the code compares them with PHP's own conversions:
`is_numeric`, `(int)`, `(bool)`, `(string)` and `filter_var`.

Key definitions: `Value`, `numeric`, `toInt`, `filterInt`, `toBool`, `filterBoolean`.
-/
import Mathlib.Algebra.Order.Ring.Int
import Mathlib.Data.List.DropRight

namespace Daywright
namespace Php

/-- The scalars a column, a request or an event can hold. -/
inductive Value where
  | null
  | bool (b : Bool)
  | int (n : ℤ)
  | str (s : String)
  deriving DecidableEq, Repr

def Value.isBool : Value → Bool
  | .bool _ => true
  | _ => false

/-- What `array_key_exists` and `$array[$key]` find: the value under a key. -/
def field (key : String) (fields : List (String × Value)) : Option Value :=
  (fields.find? fun f => f.1 == key).map (·.2)

def hasKey (key : String) (fields : List (String × Value)) : Bool :=
  fields.any fun f => f.1 == key

theorem field_append (key : String) (fields fields' : List (String × Value)) :
    field key (fields ++ fields') = (field key fields).or (field key fields') := by
  rw [field, field, field, List.find?_append, Option.map_or]

theorem field_filter (p : String → Bool) (key : String) : ∀ fields : List (String × Value),
    field key (fields.filter fun f => p f.1) = if p key then field key fields else none
  | [] => (ite_self _).symm
  | f :: fields => by
    have ih := field_filter p key fields
    rw [field] at ih ⊢
    by_cases hf : f.1 = key
    · by_cases hk : p key = true
      · simp [field, hf, hk]
      · simpa [hf, hk] using ih
    · by_cases hp : p f.1 = true <;> simpa [field, hf, hp] using ih

theorem hasKey_eq (key : String) (fields : List (String × Value)) : hasKey key fields = (field key fields).isSome := by
  rw [hasKey, field, Option.isSome_map, List.isSome_find?]

/-- What the filters strip from either end. -/
def trimBlanks (cs : List Char) : List Char :=
  let blank (c : Char) := [32, 9, 10, 11, 13].contains c.toNat
  ((cs.dropWhile blank).reverse.dropWhile blank).reverse

/-- `(string) $v`. -/
def toText : Value → String
  | .null => ""
  | .bool b => if b then "1" else ""
  | .int n => toString n
  | .str s => s

def isTrimmed (c : Char) : Bool := [32, 9, 10, 11, 13, 0].contains c.toNat

/-- `trim`. -/
def trim (s : String) : String :=
  String.ofList ((s.toList.dropWhile isTrimmed).reverse.dropWhile isTrimmed).reverse

/-- `trim($s) === ''`. -/
def isBlank (s : String) : Bool := s.toList.all isTrimmed

theorem trim_of_isBlank (s : String) (h : isBlank (trim s) = true) : trim s = "" := by
  rw [isBlank, trim, String.toList_ofList, List.all_reverse, List.all_eq_true] at h
  have hnil : (s.toList.dropWhile isTrimmed).reverse.dropWhile isTrimmed = [] := by
    rw [← List.dropWhile_idempotent]
    exact List.dropWhile_eq_nil_iff.mpr h
  rw [trim, hnil]
  rfl

/-! ### Numbers -/

def minInt : ℤ := -2 ^ 63
def maxInt : ℤ := 2 ^ 63 - 1

/-- Space, tab, line feed, vertical tab, form feed and carriage return. -/
def isSpace (c : Char) : Bool := [32, 9, 10, 11, 12, 13].contains c.toNat

/-- A numeric string, read: `± mantissa * 10 ^ exponent`. -/
structure Numeral where
  negative : Bool
  mantissa : ℕ
  exponent : ℤ
  /-- Neither a point nor an exponent is written. -/
  integral : Bool

def digitsValue (ds : List Char) : ℕ := ds.foldl (fun n c => 10 * n + (c.toNat - 48)) 0

def readSign : List Char → Bool × List Char
  | c :: cs => if c = '-' then (true, cs) else if c = '+' then (false, cs) else (false, c :: cs)
  | [] => (false, [])

/-- The digits after a point, and whether there is a point. -/
def readFraction : List Char → List Char × Bool × List Char
  | c :: cs =>
    if c = '.' then (cs.takeWhile Char.isDigit, true, cs.dropWhile Char.isDigit)
    else ([], false, c :: cs)
  | [] => ([], false, [])

/-- An exponent needs a digit; without one the `e` is not part of the number. -/
def readExponent (cs : List Char) : Option ℤ × List Char :=
  match cs with
  | [] => (none, [])
  | c :: rest =>
    if c = 'e' ∨ c = 'E' then
      let (negative, tail) := readSign rest
      let ds := tail.takeWhile Char.isDigit
      if ds.isEmpty then (none, cs)
      else (some (if negative then -(digitsValue ds : ℤ) else digitsValue ds), tail.dropWhile Char.isDigit)
    else (none, cs)

/-- The number a string begins with, after blanks, and what follows it. -/
def scanNumeral (s : String) : Option (Numeral × List Char) :=
  let (negative, cs) := readSign (s.toList.dropWhile isSpace)
  let whole := cs.takeWhile Char.isDigit
  let (fraction, point, cs) := readFraction (cs.dropWhile Char.isDigit)
  if whole.isEmpty && fraction.isEmpty then none
  else
    let (exponent, cs) := readExponent cs
    some (⟨negative, digitsValue (whole ++ fraction), exponent.getD 0 - fraction.length,
      !point && exponent.isNone⟩, cs)

/-- A numeric string: blanks may stand before and after the number. -/
def readNumeral (s : String) : Option Numeral :=
  match scanNumeral s with
  | some (n, rest) => if rest.all isSpace then some n else none
  | none => none

def roundHalfEven (a b : ℕ) : ℕ :=
  if 2 * (a % b) < b then a / b
  else if b < 2 * (a % b) then a / b + 1
  else a / b + a / b % 2

/-- The integer part of the double nearest to `a / b`: 53 significant bits. -/
def doubleTrunc (a b : ℕ) : ℕ :=
  if a = 0 then 0
  else
    let e : ℤ := (a.log2 : ℤ) - b.log2 - 52
    let e := if a * 2 ^ (-e).toNat < 2 ^ 52 * (b * 2 ^ e.toNat) then e - 1 else e
    roundHalfEven (a * 2 ^ (-e).toNat) (b * 2 ^ e.toNat) * 2 ^ e.toNat / 2 ^ (-e).toNat

/-- `(int)` of a numeric string: exact for an integer that fits, else by way of
a double; either end saturates. -/
def Numeral.toInt (n : Numeral) : ℤ :=
  let size : ℕ := n.mantissa * 10 ^ n.exponent.toNat
  let exact : ℤ := if n.negative then -(size : ℤ) else size
  if n.integral && decide (minInt ≤ exact) && decide (exact ≤ maxInt) then exact
  else
    let size := doubleTrunc size (10 ^ (-n.exponent).toNat)
    max minInt (min maxInt (if n.negative then -(size : ℤ) else size))

/-- `(int) $v` if `is_numeric($v)`. -/
def numeric : Value → Option ℤ
  | .int n => some n
  | .str s => (readNumeral s).map Numeral.toInt
  | _ => none

example : numeric (.str " 1.5e1 ") = some 15 := by decide
example : numeric (.str "12 min") = none := by decide

/-- `(int) $v`. -/
def toInt : Value → ℤ
  | .null => 0
  | .bool b => if b then 1 else 0
  | .int n => n
  | .str s => (scanNumeral s).elim 0 (·.1.toInt)

example : toInt (.str "12 min") = 12 := by decide

/-- `filter_var($v, FILTER_VALIDATE_INT)` of a string: decimal, without leading zeros. -/
def filterIntString (s : String) : Option ℤ :=
  let (negative, ds) := readSign (trimBlanks s.toList)
  if ds.isEmpty || !ds.all Char.isDigit || (ds.head? == some '0' && ds.length != 1) then none
  else
    let n : ℤ := if negative then -(digitsValue ds : ℤ) else digitsValue ds
    if minInt ≤ n ∧ n ≤ maxInt then some n else none

def filterInt : Value → Option ℤ
  | .null => none
  | .bool b => if b then some 1 else none
  | .int n => some n
  | .str s => filterIntString s

/-! ### Booleans -/

/-- `(bool) $v`. -/
def toBool : Value → Bool
  | .null => false
  | .bool b => b
  | .int n => n != 0
  | .str s => s != "" && s != "0"

def filterBooleanString (s : String) : Option Bool :=
  let s := String.ofList (trimBlanks s.toList |>.map Char.toLower)
  if ["1", "true", "on", "yes"].contains s then some true
  else if ["", "0", "false", "off", "no"].contains s then some false
  else none

/-- `filter_var($v, FILTER_VALIDATE_BOOLEAN, FILTER_NULL_ON_FAILURE)`. -/
def filterBoolean : Value → Option Bool
  | .null => some false
  | .bool b => some b
  | .int n => if n = 1 then some true else if n = 0 then some false else none
  | .str s => filterBooleanString s

example : filterBoolean (.str " Yes") = some true := by decide

end Php
end Daywright
