/-
# Searches for a literal text

`EscapesLikeWildcards` escapes a search text by `str_replace`: first every `!` is doubled,
then `%` and `_` get one in front. In this order the replacements do not see each other's
work, and together they quote the text, character by character
(`escapeLikeWildcards_eq_quote`). So a search finds what begins with the text, read
literally (`likeContainsLiteral_spec`).

Key definitions: `strReplace`, `escapeLikeWildcards`, `likeContainsLiteral`.
Key theorem: `likeContainsLiteral_spec`.
-/
import Daywright.Like

namespace Daywright

/-- Every occurrence, from left to right, but for the first `skip` characters. -/
def Php.replaceFrom (search replace : List Char) : (skip : ℕ) → List Char → List Char
  | _, [] => []
  | skip + 1, _ :: cs => replaceFrom search replace skip cs
  | 0, c :: cs =>
    if search <+: c :: cs then replace ++ replaceFrom search replace (search.length - 1) cs
    else c :: replaceFrom search replace 0 cs

/-- `str_replace($search, $replace, $subject)` with two strings. -/
def Php.strReplaceOne (search replace subject : List Char) : List Char :=
  if search = [] then subject else Php.replaceFrom search replace 0 subject

/-- `str_replace` with two arrays: one search after the other, on what the one before has
left. -/
def Php.strReplace : (search replace : List String) → List Char → List Char
  | [], _, subject => subject
  | s :: search, replace, subject =>
    strReplace search replace.tail (Php.strReplaceOne s.toList (replace.headD "").toList subject)

namespace EscapesLikeWildcards

def escapeLikeWildcards (value : String) : String :=
  String.ofList (Php.strReplace ["!", "%", "_"] ["!!", "!%", "!_"] value.toList)

/-- `whereRaw("{$wrappedColumn} LIKE ? ESCAPE '!'", [$pattern], $boolean)`. -/
structure LikeClause where
  wrappedColumn : String
  pattern : String
  boolean : String
  deriving DecidableEq, Repr

def likeContainsLiteral (wrap : String → String) (column value boolean : String) : LikeClause :=
  ⟨wrap column, escapeLikeWildcards value ++ "%", boolean⟩

/-- The special characters of the clause. -/
def wildcards : Wildcards Char where
  escape := '!'
  one := '_'
  any := '%'
  one_ne_escape := by decide
  any_ne_escape := by decide
  any_ne_one := by decide

/-- Whether a text of the column is selected; `none`: the pattern is ill-formed. -/
def LikeClause.selects (clause : LikeClause) (text : String) : Option Bool :=
  wildcards.like text.toList clause.pattern.toList

/-- One character is replaced, wherever it stands. -/
theorem replaceFrom_singleton (c : Char) (r : List Char) (cs : List Char) :
    Php.replaceFrom [c] r 0 cs = cs.flatMap fun d => if d = c then r else [d] := by
  induction cs with
  | nil => rfl
  | cons d cs ih =>
    rw [List.flatMap_cons, Php.replaceFrom]
    by_cases hd : d = c
    · have hpre : [c] <+: d :: cs := List.cons_prefix_cons.mpr ⟨hd.symm, List.nil_prefix⟩
      rw [if_pos hpre, if_pos hd, ← ih]
      rfl
    · have hpre : ¬ [c] <+: d :: cs := fun h => hd (List.cons_prefix_cons.mp h).1.symm
      rw [if_neg hpre, if_neg hd, ih]
      rfl

theorem strReplaceOne_singleton (c : Char) (r cs : List Char) :
    Php.strReplaceOne [c] r cs = cs.flatMap fun d => if d = c then r else [d] := by
  rw [Php.strReplaceOne, if_neg (List.cons_ne_nil _ _), replaceFrom_singleton]

/-- What becomes of one character: a replacement brings no character that is searched for
later. -/
theorem replaced_eq_quoteChar (c : Char) :
    (((if c = '!' then ['!', '!'] else [c]).flatMap fun d => if d = '%' then ['!', '%'] else [d]).flatMap
      fun d => if d = '_' then ['!', '_'] else [d]) = wildcards.quoteChar c := by
  by_cases h : c = '!' ∨ c = '%' ∨ c = '_'
  · obtain rfl | rfl | rfl := h <;> rfl
  · obtain ⟨he, hany, hone⟩ : c ≠ '!' ∧ c ≠ '%' ∧ c ≠ '_' := by simpa only [not_or] using h
    have hplain : wildcards.isSpecial c = false := by
      simp [Wildcards.isSpecial, wildcards, he, hone, hany]
    rw [if_neg he, List.flatMap_singleton, if_neg hany, List.flatMap_singleton, if_neg hone, Wildcards.quoteChar,
      hplain]
    rfl

/-- **The three replacements quote a text.** -/
theorem escapeLikeWildcards_eq_quote (value : String) :
    (escapeLikeWildcards value).toList = wildcards.quote value.toList := by
  have hreplace : Php.strReplace ["!", "%", "_"] ["!!", "!%", "!_"] value.toList =
      Php.strReplaceOne ['_'] ['!', '_'] (Php.strReplaceOne ['%'] ['!', '%']
        (Php.strReplaceOne ['!'] ['!', '!'] value.toList)) := rfl
  rw [escapeLikeWildcards, String.toList_ofList, hreplace, strReplaceOne_singleton, strReplaceOne_singleton,
    strReplaceOne_singleton, List.flatMap_assoc, List.flatMap_assoc, Wildcards.quote]
  exact List.flatMap_congr fun c _ => by rw [← replaced_eq_quoteChar, List.flatMap_assoc]

/-- **A search finds what begins with the text**: its pattern stands for the characters of
the text and nothing else, and another text has another pattern. -/
theorem likeContainsLiteral_spec (wrap : String → String) (column value boolean : String) :
    (∀ text, (likeContainsLiteral wrap column value boolean).selects text =
      some (decide (value.toList <+: text.toList))) ∧
    wildcards.tokens (escapeLikeWildcards value).toList = some (value.toList.map .lit) ∧
    Function.Injective escapeLikeWildcards := by
  refine ⟨fun text => ?_, ?_, fun v v' h => ?_⟩
  · rw [LikeClause.selects, likeContainsLiteral, String.toList_append, escapeLikeWildcards_eq_quote]
    exact wildcards.like_quote_any value.toList text.toList
  · rw [escapeLikeWildcards_eq_quote]
    exact wildcards.tokens_quote value.toList
  · have hquote := congrArg String.toList h
    rw [escapeLikeWildcards_eq_quote, escapeLikeWildcards_eq_quote] at hquote
    exact String.toList_inj.mp (wildcards.quote_injective hquote)

example : escapeLikeWildcards "50%_!" = "50!%!_!!" := by decide

end EscapesLikeWildcards
end Daywright
