/-
# A JSON value is read back from its text in one way

`JsonText.stringify` writes a value as JSON without blanks. Strings are quoted, so they
end at their closing quote (`quoted_append_inj`); a number ends at the first character that no
number has, and after a value comes a separator, a bracket or nothing. So the text of a
value, followed by one of these, determines the value (`text_append_inj`), and two values
with one text are the same (`stringify_injective`).

Key definitions: `JsValue`, `JsonText.stringify`.
Key theorem: `JsonText.stringify_injective`.
-/
import Mathlib.Data.List.Basic
import Mathlib.Logic.Function.Basic
import Mathlib.Data.Char

namespace Daywright

def JsNumber.isNumeral (c : Char) : Bool := c.isDigit || ['-', '+', '.', 'e'].contains c

/-- A finite number, by its decimal text. -/
structure JsNumber where
  text : List Char
  ne_nil : text ≠ []
  numeral : ∀ c ∈ text, JsNumber.isNumeral c = true
  deriving DecidableEq

/-- What JSON can carry: the keys of an object in their order. -/
inductive JsValue where
  | null
  | bool (b : Bool)
  | number (n : JsNumber)
  | string (s : String)
  | array (vs : List JsValue)
  | object (es : List (String × JsValue))

namespace JsonText

/-! ### Strings -/

def hexDigit (n : ℕ) : Char := "0123456789abcdef".toList.getD n '0'

/-- The letter of a short escape. -/
def shortEscape (c : Char) : Option Char :=
  if c = '"' then some '"' else if c = '\\' then some '\\' else if c.toNat = 8 then some 'b'
  else if c.toNat = 9 then some 't' else if c.toNat = 10 then some 'n' else if c.toNat = 12 then some 'f'
  else if c.toNat = 13 then some 'r' else none

def quotedChar (c : Char) : List Char :=
  match shortEscape c with
  | some e => ['\\', e]
  | none =>
    if c.toNat < 32 then ['\\', 'u', '0', '0', hexDigit (c.toNat / 16), hexDigit (c.toNat % 16)] else [c]

def quoted (s : List Char) : List Char := '"' :: (s.flatMap quotedChar ++ ['"'])

/-! ### Values -/

mutual

def text : JsValue → List Char
  | .null => ['n', 'u', 'l', 'l']
  | .bool true => ['t', 'r', 'u', 'e']
  | .bool false => ['f', 'a', 'l', 's', 'e']
  | .number n => n.text
  | .string s => quoted s.toList
  | .array vs => '[' :: items true vs
  | .object es => '\x7b' :: entries true es

/-- What follows the opening bracket, or an element. -/
def items (first : Bool) : List JsValue → List Char
  | [] => [']']
  | v :: vs => (if first then [] else [',']) ++ text v ++ items false vs

def entries (first : Bool) : List (String × JsValue) → List Char
  | [] => ['\x7d']
  | e :: es => (if first then [] else [',']) ++ quoted e.1.toList ++ ':' :: text e.2 ++ entries false es

end

def stringify (v : JsValue) : String := String.ofList (text v)

/-! ### Strings are read in one way -/

/-- The character a short escape stands for. -/
def unescape (e : Char) : Char :=
  if e = 'b' then Char.ofNat 8 else if e = 't' then Char.ofNat 9 else if e = 'n' then Char.ofNat 10
  else if e = 'f' then Char.ofNat 12 else if e = 'r' then Char.ofNat 13 else e

theorem unescape_shortEscape {c e : Char} (h : shortEscape c = some e) : unescape e = c ∧ e ≠ 'u' := by
  have hof {n : ℕ} (hn : c.toNat = n) : Char.ofNat n = c := by rw [← hn, Char.ofNat_toNat]
  unfold shortEscape at h
  split_ifs at h with hq hb h8 h9 h10 h12 h13 <;> cases h
  · exact ⟨hq.symm, by decide⟩
  · exact ⟨hb.symm, by decide⟩
  · exact ⟨hof h8, by decide⟩
  · exact ⟨hof h9, by decide⟩
  · exact ⟨hof h10, by decide⟩
  · exact ⟨hof h12, by decide⟩
  · exact ⟨hof h13, by decide⟩

theorem hexDigit_inj : ∀ {m n : ℕ}, m < 16 → n < 16 → hexDigit m = hexDigit n → m = n := by
  have h : ∀ m : Fin 16, ∀ n : Fin 16, hexDigit m = hexDigit n → m = n := by decide
  intro m n hm hn he
  exact congrArg Fin.val (h ⟨m, hm⟩ ⟨n, hn⟩ he)

/-- The three ways in which a character is written. -/
theorem quotedChar_cases (c : Char) :
    (∃ e, e ≠ 'u' ∧ unescape e = c ∧ quotedChar c = ['\\', e]) ∨
    (c.toNat < 32 ∧ quotedChar c = ['\\', 'u', '0', '0', hexDigit (c.toNat / 16), hexDigit (c.toNat % 16)]) ∨
    (c ≠ '\\' ∧ c ≠ '"' ∧ quotedChar c = [c]) := by
  unfold quotedChar
  cases h : shortEscape c with
  | some e =>
    obtain ⟨hc, hu⟩ := unescape_shortEscape h
    exact .inl ⟨e, hu, hc, rfl⟩
  | none =>
    refine .inr ?_
    by_cases hctl : c.toNat < 32
    · exact .inl ⟨hctl, if_pos hctl⟩
    · refine .inr ⟨?_, ?_, if_neg hctl⟩
      · rintro rfl
        cases h
      · rintro rfl
        cases h

theorem quotedChar_append_inj {c d : Char} {r r' : List Char} (h : quotedChar c ++ r = quotedChar d ++ r') :
    c = d ∧ r = r' := by
  obtain ⟨e, hu, hc, hw⟩ | ⟨hc, hw⟩ | ⟨hc, -, hw⟩ := quotedChar_cases c <;>
    obtain ⟨e', hu', hd, hw'⟩ | ⟨hd, hw'⟩ | ⟨hd, -, hw'⟩ := quotedChar_cases d <;>
    rw [hw, hw'] at h <;> simp only [List.cons_append, List.nil_append, List.cons.injEq] at h
  · exact ⟨by rw [← hc, ← hd, h.2.1], h.2.2⟩
  · exact absurd h.2.1 hu
  · exact absurd h.1.symm hd
  · exact absurd h.2.1.symm hu'
  · obtain ⟨-, -, -, -, hhigh, hlow, hr⟩ := h
    have hdiv := hexDigit_inj (by omega) (by omega) hhigh
    have hmod := hexDigit_inj (by omega) (by omega) hlow
    exact ⟨Char.toNat_inj.mp (by omega), hr⟩
  · exact absurd h.1.symm hd
  · exact absurd h.1 hc
  · exact absurd h.1 hc
  · exact h

theorem quotedChar_ne_quote {c : Char} {r r' : List Char} : quotedChar c ++ r ≠ '"' :: r' := by
  intro h
  obtain ⟨e, -, -, hw⟩ | ⟨-, hw⟩ | ⟨-, hq, hw⟩ := quotedChar_cases c <;> rw [hw] at h <;>
    simp only [List.cons_append, List.nil_append, List.cons.injEq] at h
  · exact absurd h.1 (by decide)
  · exact absurd h.1 (by decide)
  · exact hq h.1

theorem quoted_append_inj {s t r r' : List Char} (h : quoted s ++ r = quoted t ++ r') : s = t ∧ r = r' := by
  simp only [quoted, List.cons_append, List.append_assoc, List.nil_append, List.cons.injEq, true_and] at h
  induction s generalizing t with
  | nil =>
    cases t with
    | nil => exact ⟨rfl, (List.cons.inj h).2⟩
    | cons d t =>
      rw [List.flatMap_cons, List.append_assoc] at h
      exact absurd h.symm quotedChar_ne_quote
  | cons c s ih =>
    cases t with
    | nil =>
      rw [List.flatMap_cons, List.append_assoc] at h
      exact absurd h quotedChar_ne_quote
    | cons d t =>
      rw [List.flatMap_cons, List.flatMap_cons, List.append_assoc, List.append_assoc] at h
      obtain ⟨rfl, hrest⟩ := quotedChar_append_inj h
      obtain ⟨rfl, hr⟩ := ih hrest
      exact ⟨rfl, hr⟩

/-! ### Values are read in one way -/

/-- Where a number ends. -/
def Stops (r : List Char) : Prop := ∀ c ∈ r.head?, c = ',' ∨ c = ']' ∨ c = '\x7d'

theorem stops_items (vs : List JsValue) (r : List Char) : Stops (items false vs ++ r) := by
  cases vs with
  | nil => simp [items, Stops]
  | cons v vs => simp [items, Stops]

theorem stops_entries (es : List (String × JsValue)) (r : List Char) : Stops (entries false es ++ r) := by
  cases es with
  | nil => simp [entries, Stops]
  | cons e es => simp [entries, Stops]

theorem not_isNumeral_of_stops {r : List Char} (h : Stops r) : ∀ c ∈ r.head?, JsNumber.isNumeral c = false := by
  intro c hc
  obtain rfl | rfl | rfl := h c hc <;> rfl

/-- The characters of a number are those before the first that no number has. -/
theorem takeWhile_number (n : JsNumber) {r : List Char} (h : Stops r) :
    (n.text ++ r).takeWhile JsNumber.isNumeral = n.text := by
  rw [List.takeWhile_append_of_pos n.numeral]
  cases r with
  | nil => exact List.append_nil _
  | cons c r => rw [List.takeWhile_cons_of_neg (by simp [not_isNumeral_of_stops h c rfl]), List.append_nil]

theorem number_append_inj {n m : JsNumber} {r r' : List Char} (hr : Stops r) (hr' : Stops r')
    (h : n.text ++ r = m.text ++ r') : n = m ∧ r = r' := by
  have htext : n.text = m.text := by rw [← takeWhile_number n hr, ← takeWhile_number m hr', h]
  rw [htext] at h
  refine ⟨?_, List.append_cancel_left h⟩
  cases n
  cases m
  cases htext
  rfl

/-- The first character of a text tells the kind of the value. -/
def kindOf (c : Char) : ℕ :=
  if c = 'n' then 0 else if c = 't' then 1 else if c = 'f' then 1 else if c = '"' then 3
  else if c = '[' then 4 else if c = '\x7b' then 5 else if JsNumber.isNumeral c then 6 else 7

def kind : JsValue → ℕ
  | .null => 0
  | .bool _ => 1
  | .string _ => 3
  | .array _ => 4
  | .object _ => 5
  | .number _ => 6

theorem kindOf_numeral {c : Char} (h : JsNumber.isNumeral c = true) : kindOf c = 6 := by
  have hne {d : Char} (hd : JsNumber.isNumeral d = false) : c ≠ d := by
    rintro rfl
    exact absurd h (by rw [hd]; decide)
  rw [kindOf, if_neg (hne rfl), if_neg (hne rfl), if_neg (hne rfl), if_neg (hne rfl), if_neg (hne rfl),
    if_neg (hne rfl), if_pos h]

theorem kindOf_head (v : JsValue) (r : List Char) : (text v ++ r).head?.map kindOf = some (kind v) := by
  cases v with
  | null => rfl
  | bool b => cases b <;> rfl
  | number n =>
    obtain ⟨c, cs, hn⟩ := List.exists_cons_of_ne_nil n.ne_nil
    have hc : JsNumber.isNumeral c = true := n.numeral c (hn ▸ List.mem_cons_self)
    rw [text, hn]
    exact congrArg some (kindOf_numeral hc)
  | string s => rw [text, quoted]; rfl
  | array vs => rw [text]; rfl
  | object es => rw [text]; rfl

theorem kind_eq {v w : JsValue} {r r' : List Char} (h : text v ++ r = text w ++ r') : kind v = kind w := by
  have hv := kindOf_head v r
  rw [h, kindOf_head w r'] at hv
  exact (Option.some.inj hv).symm

/-- No value begins like the end of a list. -/
theorem text_append_ne_close (v : JsValue) {r r' : List Char} {c : Char} (hc : kindOf c = 7) : text v ++ r ≠ c :: r' := by
  intro h
  have hv := kindOf_head v r
  rw [h] at hv
  have hk : kind v = 7 := (Option.some.inj hv).symm.trans hc
  cases v <;> cases hk

theorem items_cons_ne_close (first : Bool) (v : JsValue) (vs : List JsValue) {r r' : List Char} :
    items first (v :: vs) ++ r ≠ items first [] ++ r' := by
  intro h
  cases first with
  | false => exact absurd (List.cons.inj h).1 (by decide)
  | true =>
    simp only [items, if_true, List.nil_append, List.append_assoc] at h
    exact text_append_ne_close v rfl h

theorem entries_cons_ne_close (first : Bool) (e : String × JsValue) (es : List (String × JsValue)) {r r' : List Char} :
    entries first (e :: es) ++ r ≠ entries first [] ++ r' := by
  intro h
  cases first <;> exact absurd (List.cons.inj h).1 (by decide)

mutual

/-- **A text is read in one way**, up to where the value ends. -/
theorem text_append_inj : ∀ (v w : JsValue) {r r' : List Char}, Stops r → Stops r' →
    text v ++ r = text w ++ r' → v = w ∧ r = r'
  | .null, w, r, r', _, _, h => by
    have hk := kind_eq h
    cases w with
    | null => exact ⟨rfl, List.append_cancel_left h⟩
    | _ => cases hk
  | .bool b, w, r, r', _, _, h => by
    have hk := kind_eq h
    cases w with
    | bool b' => cases b <;> cases b' <;> simp_all [text]
    | _ => cases hk
  | .number n, w, r, r', hr, hr', h => by
    have hk := kind_eq h
    cases w with
    | number m =>
      obtain ⟨rfl, hrest⟩ := number_append_inj hr hr' h
      exact ⟨rfl, hrest⟩
    | _ => cases hk
  | .string s, w, r, r', _, _, h => by
    have hk := kind_eq h
    cases w with
    | string t =>
      obtain ⟨hs, hrest⟩ := quoted_append_inj h
      exact ⟨congrArg _ (String.toList_inj.mp hs), hrest⟩
    | _ => cases hk
  | .array vs, w, r, r', _, _, h => by
    have hk := kind_eq h
    cases w with
    | array ws =>
      obtain ⟨rfl, hrest⟩ := items_append_inj true vs ws (List.cons.inj h).2
      exact ⟨rfl, hrest⟩
    | _ => cases hk
  | .object es, w, r, r', _, _, h => by
    have hk := kind_eq h
    cases w with
    | object es' =>
      obtain ⟨rfl, hrest⟩ := entries_append_inj true es es' (List.cons.inj h).2
      exact ⟨rfl, hrest⟩
    | _ => cases hk

theorem items_append_inj : ∀ (first : Bool) (vs ws : List JsValue) {r r' : List Char},
    items first vs ++ r = items first ws ++ r' → vs = ws ∧ r = r'
  | first, [], [], r, r', h => ⟨rfl, List.append_cancel_left h⟩
  | first, [], w :: ws, r, r', h => absurd h.symm (items_cons_ne_close first w ws)
  | first, v :: vs, [], r, r', h => absurd h (items_cons_ne_close first v vs)
  | first, v :: vs, w :: ws, r, r', h => by
    simp only [items, List.append_assoc] at h
    have hcut := List.append_cancel_left h
    obtain ⟨rfl, hrest⟩ := text_append_inj v w (stops_items vs r) (stops_items ws r') hcut
    obtain ⟨rfl, hr⟩ := items_append_inj false vs ws hrest
    exact ⟨rfl, hr⟩

theorem entries_append_inj : ∀ (first : Bool) (es es' : List (String × JsValue)) {r r' : List Char},
    entries first es ++ r = entries first es' ++ r' → es = es' ∧ r = r'
  | first, [], [], r, r', h => ⟨rfl, List.append_cancel_left h⟩
  | first, [], e :: es, r, r', h => absurd h.symm (entries_cons_ne_close first e es)
  | first, e :: es, [], r, r', h => absurd h (entries_cons_ne_close first e es)
  | first, (k, v) :: es, (k', v') :: es', r, r', h => by
    simp only [entries, List.append_assoc, List.cons_append] at h
    obtain ⟨hk, hcolon⟩ := quoted_append_inj (List.append_cancel_left h)
    obtain ⟨rfl, hrest⟩ := text_append_inj v v' (stops_entries es r) (stops_entries es' r') (List.cons.inj hcolon).2
    obtain ⟨rfl, hr⟩ := entries_append_inj false es es' hrest
    obtain rfl := String.toList_inj.mp hk
    exact ⟨rfl, hr⟩

end

/-- **Two values with one text are the same.** -/
theorem stringify_injective : Function.Injective stringify := by
  intro v w h
  have htext : text v = text w := String.ofList_injective h
  have hnil : Stops [] := fun c hc => by cases hc
  exact (text_append_inj v w hnil hnil (by rw [htext])).1

end JsonText
end Daywright
