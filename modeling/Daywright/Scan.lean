/-
# Texts read from left to right

A reader takes what it knows from the front of a text and hands on the rest
(`Scan.digits`, `Scan.char`); each has one lemma that says what it reads. A number of
fixed width is written with leading zeros (`Scan.padded`), and its digits give it back.

Key definitions: `Scan.IsDigits`, `Scan.digits`, `Scan.char`, `Scan.padded`, `Scan.value`.
Key theorems: `digits_eq_some`, `char_eq_some`, `value_padded`.
-/
import Mathlib.Data.List.Basic
import Mathlib.Data.Nat.Basic
import Mathlib.Tactic.Ring

namespace Daywright
namespace Scan

/-- `n` digits. -/
structure IsDigits (n : ℕ) (ds : List Char) : Prop where
  length_eq : ds.length = n
  isDigit : ∀ c ∈ ds, c.isDigit = true

theorem isDigits_of_all {n : ℕ} {ds : List Char} (hlen : ds.length = n) (h : ds.all Char.isDigit = true) :
    IsDigits n ds := ⟨hlen, List.all_eq_true.mp h⟩

def digits : ℕ → List Char → Option (List Char × List Char)
  | 0, cs => some ([], cs)
  | _ + 1, [] => none
  | n + 1, c :: cs => if c.isDigit then (digits n cs).map fun r => (c :: r.1, r.2) else none

def char (c : Char) : List Char → Option (List Char)
  | [] => none
  | d :: cs => if d = c then some cs else none

theorem char_eq_some {c : Char} {cs r : List Char} : char c cs = some r ↔ cs = c :: r := by
  cases cs with
  | nil => simp [char]
  | cons d cs => simp [char]

theorem digits_append {n : ℕ} {ds : List Char} (h : IsDigits n ds) (r : List Char) : digits n (ds ++ r) = some (ds, r) := by
  obtain ⟨rfl, hd⟩ := h
  induction ds with
  | nil => rfl
  | cons c ds ih =>
    have hrest : digits ds.length (ds ++ r) = some (ds, r) := ih fun c' hc' => hd c' (List.mem_cons_of_mem c hc')
    rw [List.length_cons, List.cons_append, digits, if_pos (hd c List.mem_cons_self), hrest]
    rfl

theorem digits_eq_some : ∀ {n : ℕ} {cs ds r : List Char}, digits n cs = some (ds, r) ↔ cs = ds ++ r ∧ IsDigits n ds := by
  intro n cs ds r
  refine ⟨fun h => ?_, fun h => h.1 ▸ digits_append h.2 r⟩
  induction n generalizing cs ds with
  | zero =>
    cases h
    exact ⟨rfl, rfl, fun c hc => absurd hc List.not_mem_nil⟩
  | succ n ih =>
    cases cs with
    | nil => cases h
    | cons c cs =>
      rw [digits] at h
      split at h
      · rename_i hc
        obtain ⟨⟨ds', r'⟩, hrest, he⟩ := Option.map_eq_some_iff.mp h
        cases he
        obtain ⟨rfl, hlen, hdigit⟩ := ih hrest
        refine ⟨rfl, congrArg Nat.succ hlen, fun c' hc' => ?_⟩
        rcases List.mem_cons.mp hc' with rfl | hc'
        · exact hc
        · exact hdigit c' hc'
      · cases h

/-! ### Numbers -/

/-- The number the digits stand for. -/
def value (ds : List Char) : ℕ := ds.foldl (fun n c => 10 * n + (c.toNat - 48)) 0

/-- The last `w` digits of a number, with leading zeros. -/
def padded : (w n : ℕ) → List Char
  | 0, _ => []
  | w + 1, n => padded w (n / 10) ++ [Nat.digitChar (n % 10)]

theorem digitChar_spec {n : ℕ} (h : n < 10) : (Nat.digitChar n).isDigit = true ∧ (Nat.digitChar n).toNat - 48 = n := by
  have hall : ∀ n : Fin 10, (Nat.digitChar n).isDigit = true ∧ (Nat.digitChar n).toNat - 48 = n := by decide
  exact hall ⟨n, h⟩

theorem isDigits_padded : ∀ w n : ℕ, IsDigits w (padded w n)
  | 0, _ => ⟨rfl, fun c hc => absurd hc List.not_mem_nil⟩
  | w + 1, n => by
    obtain ⟨hlen, hd⟩ := isDigits_padded w (n / 10)
    refine ⟨by rw [padded, List.length_append, hlen]; rfl, fun c hc => ?_⟩
    rcases List.mem_append.mp hc with hc | hc
    · exact hd c hc
    · rw [List.mem_singleton.mp hc]
      exact (digitChar_spec (Nat.mod_lt n (by decide))).1

/-- **The digits give the number back.** -/
theorem value_padded : ∀ {w n : ℕ}, n < 10 ^ w → value (padded w n) = n
  | 0, n, h => by
    rw [pow_zero, Nat.lt_one_iff] at h
    rw [h]
    rfl
  | w + 1, n, h => by
    have hdiv : n / 10 < 10 ^ w := Nat.div_lt_of_lt_mul (by rwa [pow_succ, mul_comm] at h)
    have hlast := (digitChar_spec (Nat.mod_lt n (by decide))).2
    have hsnoc (ds : List Char) (c : Char) : value (ds ++ [c]) = 10 * value ds + (c.toNat - 48) := List.foldl_concat ..
    rw [padded, hsnoc, value_padded hdiv, hlast]
    exact Nat.div_add_mod n 10

end Scan
end Daywright
