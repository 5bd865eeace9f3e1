/-
# Patterns with wildcards and an escape character

A pattern of `LIKE … ESCAPE …` is a text: a character after the escape character stands
for itself, one of the two wildcards for any one character or for any text, and every
other for itself. Only a wildcard or the escape character may follow the escape character;
any other pattern is ill-formed (`Wildcards.tokens`).

A text is quoted when each of its special characters is escaped. The pattern then says
exactly the text (`tokens_quote_append`), two texts have two quotations
(`quote_injective`), and with the wildcard for any text behind, it matches the texts that
begin with it (`like_quote_any`).

Key definitions: `Wildcards`, `Wildcards.tokens`, `Token.matchesText`, `Wildcards.like`, `Wildcards.quote`.
Key theorems: `tokens_quote_append`, `quote_injective`, `like_quote_any`.
-/
import Mathlib.Data.List.Basic
import Mathlib.Data.List.Infix

namespace Daywright

variable {α : Type*} [DecidableEq α]

/-- The special characters of a pattern. -/
structure Wildcards (α : Type*) where
  escape : α
  one : α
  any : α
  one_ne_escape : one ≠ escape
  any_ne_escape : any ≠ escape
  any_ne_one : any ≠ one

/-- What a part of a pattern stands for. -/
inductive Token (α : Type*) where
  | lit (a : α)
  | one
  | any
  deriving DecidableEq, Repr

namespace Token

def matchesText : List (Token α) → List α → Bool
  | [], t => t.isEmpty
  | .lit a :: p, t => t.head? == some a && matchesText p t.tail
  | .one :: p, t => !t.isEmpty && matchesText p t.tail
  | .any :: p, t => t.tails.any fun u => matchesText p u

theorem matchesText_any (t : List α) : matchesText [.any] t = true := by
  rw [matchesText, List.any_eq_true]
  exact ⟨[], (List.mem_tails [] t).mpr List.nil_suffix, rfl⟩

theorem matchesText_lit_append (v : List α) (p : List (Token α)) (t : List α) :
    matchesText (v.map .lit ++ p) t = true ↔ ∃ u, t = v ++ u ∧ matchesText p u = true := by
  induction v generalizing t with
  | nil => simp
  | cons a v ih =>
    rw [List.map_cons, List.cons_append, matchesText, Bool.and_eq_true, ih, beq_iff_eq]
    constructor
    · rintro ⟨hhead, u, htail, hu⟩
      cases t with
      | nil => cases hhead
      | cons b t =>
        cases hhead
        exact ⟨u, by rw [List.cons_append, ← htail]; rfl, hu⟩
    · rintro ⟨u, rfl, hu⟩
      exact ⟨rfl, u, rfl, hu⟩

/-- A text, and then anything, matches what begins with the text. -/
theorem matchesText_lit_any (v t : List α) : matchesText (v.map .lit ++ [.any]) t = true ↔ v <+: t := by
  rw [matchesText_lit_append]
  constructor
  · rintro ⟨u, rfl, -⟩
    exact List.prefix_append v u
  · rintro ⟨u, rfl⟩
    exact ⟨u, rfl, matchesText_any u⟩

end Token

namespace Wildcards

variable (w : Wildcards α)

def isSpecial (a : α) : Bool := a == w.escape || a == w.one || a == w.any

/-- What a character stands for that is not escaped. -/
def token (a : α) : Token α := if a = w.one then .one else if a = w.any then .any else .lit a

/-- A pattern is read from left to right, here behind the escape character if `escaped`;
`none`: it is ill-formed. -/
def read : (escaped : Bool) → List α → Option (List (Token α))
  | false, [] => some []
  | true, [] => none
  | true, a :: p => if w.isSpecial a then (read false p).map (.lit a :: ·) else none
  | false, a :: p => if a = w.escape then read true p else (read false p).map (w.token a :: ·)

def tokens (pattern : List α) : Option (List (Token α)) := w.read false pattern

/-- `$text LIKE $pattern ESCAPE …`. -/
def like (text pattern : List α) : Option Bool := (w.tokens pattern).map fun p => Token.matchesText p text

def quoteChar (a : α) : List α := if w.isSpecial a then [w.escape, a] else [a]

def quote (v : List α) : List α := v.flatMap w.quoteChar

theorem tokens_quoteChar_append (a : α) (p : List α) :
    w.tokens (w.quoteChar a ++ p) = (w.tokens p).map (.lit a :: ·) := by
  unfold quoteChar tokens
  by_cases ha : w.isSpecial a = true
  · rw [if_pos ha, List.cons_append, read, if_pos rfl, List.cons_append, read, if_pos ha, List.nil_append]
  · obtain ⟨he, h1, hany⟩ : a ≠ w.escape ∧ a ≠ w.one ∧ a ≠ w.any := by
      simpa [isSpecial, not_or, and_assoc] using ha
    rw [if_neg ha, List.cons_append, read, if_neg he, List.nil_append, token, if_neg h1, if_neg hany]

/-- **A quoted text stands for itself**, whatever comes after it. -/
theorem tokens_quote_append (v p : List α) : w.tokens (w.quote v ++ p) = (w.tokens p).map (v.map .lit ++ ·) := by
  induction v with
  | nil => exact Option.map_id'.symm
  | cons a v ih =>
    rw [quote, List.flatMap_cons, List.append_assoc, tokens_quoteChar_append, ← quote, ih, Option.map_map]
    rfl

theorem tokens_quote (v : List α) : w.tokens (w.quote v) = some (v.map .lit) := by
  have h := w.tokens_quote_append v []
  rw [List.append_nil] at h
  rw [h, tokens, read, Option.map_some, List.append_nil]

theorem quote_injective : Function.Injective w.quote := by
  intro v v' h
  have htokens := w.tokens_quote v
  rw [h, tokens_quote] at htokens
  have hlit : Function.Injective (Token.lit : α → Token α) := fun a b hab => Token.lit.inj hab
  exact (List.map_injective_iff.mpr hlit (Option.some.inj htokens)).symm

theorem tokens_any : w.tokens [w.any] = some [.any] := by
  rw [tokens, read, if_neg w.any_ne_escape, token, if_neg w.any_ne_one, if_pos rfl, read, Option.map_some]

/-- **A quoted text with anything behind it matches what begins with the text.** -/
theorem like_quote_any (v text : List α) : w.like text (w.quote v ++ [w.any]) = some (decide (v <+: text)) := by
  rw [like, tokens_quote_append, tokens_any]
  refine congrArg some (Bool.eq_iff_iff.mpr ?_)
  rw [decide_eq_true_eq]
  exact Token.matchesText_lit_any v text

end Wildcards
end Daywright
