/-
# Names with a mark in a text

A text is read from left to right for names behind a mark (`read`), and each is written out
with its mark in a frame (`write`). Another reader goes over what is written, for longer
names, and only behind marks that no word runs up to (`scan`). In a frame no word does,
and no name goes on: so of names that begin as a name does, the second reader finds what
the first has framed, in this order, and no others (`scan_write`).

Key definitions: `Frame`, `read`, `write`, `scan`, `unique`.
Key theorems: `scan_write`, `long_of_scan`, `unique_filter`, `mem_unique`.
-/
import Mathlib.Data.List.Infix
import Mathlib.Data.List.TakeWhile

namespace Marked

variable {α : Type*}

/-- The names of the two readers, and the frame of a name and its mark. -/
structure Frame (α : Type*) where
  mark : α
  /-- A character of the first reader's names. -/
  name : α → Bool
  word : α → Bool
  /-- A character of the second reader's names. -/
  long : α → Bool
  before : List α → List α
  after : List α
  long_of_name : ∀ a, name a = true → long a = true
  long_mark : long mark = false
  word_mark : word mark = false
  mark_notMem_before : ∀ n, (∀ a ∈ n, name a = true) → mark ∉ before n
  head_before : ∀ n, ∃ a r, before n = a :: r ∧ long a = false
  last_before : ∀ n, ∃ r a, before n = r ++ [a] ∧ word a = false
  mark_notMem_after : mark ∉ after
  head_after : ∃ a r, after = a :: r ∧ long a = false

/-- A part of a text that is read. -/
inductive Piece (α : Type*) where
  | plain (a : α)
  | named (n : List α)

namespace Piece

variable (F : Frame α)

def write : Piece α → List α
  | plain a => [a]
  | named n => F.before n ++ F.mark :: n ++ F.after

def name? : Piece α → Option (List α)
  | plain _ => none
  | named n => some n

end Piece

namespace Frame

variable [DecidableEq α] (F : Frame α)

/-- The text in pieces, but for the first `skip` characters. A name is as long as can be. -/
def read : (skip : ℕ) → List α → List (Piece α)
  | _, [] => []
  | skip + 1, _ :: cs => read skip cs
  | 0, c :: cs =>
    if c = F.mark ∧ cs.takeWhile F.name ≠ [] then
      .named (cs.takeWhile F.name) :: read (cs.takeWhile F.name).length cs
    else .plain c :: read 0 cs

def names (cs : List α) : List (List α) := (F.read 0 cs).filterMap Piece.name?

def write (cs : List α) : List α := (F.read 0 cs).flatMap (Piece.write F)

/-- The long names behind a mark; `prev`: a character of a word stands before. -/
def scan : (prev : Bool) → (skip : ℕ) → List α → List (List α)
  | _, _, [] => []
  | _, skip + 1, c :: cs => scan (F.word c) skip cs
  | prev, 0, c :: cs =>
    if c = F.mark ∧ prev = false ∧ cs.takeWhile F.long ≠ [] then
      cs.takeWhile F.long :: scan (F.word c) (cs.takeWhile F.long).length cs
    else scan (F.word c) 0 cs

/-- It begins as a name of the first reader does. -/
def begins (n : List α) : Bool := n.head?.any F.name

variable {F}

/-! ### What is found in a frame -/

theorem long_of_scan {n : List α} (prev : Bool) (skip : ℕ) (cs : List α) (h : n ∈ F.scan prev skip cs) :
    n ≠ [] ∧ ∀ a ∈ n, F.long a = true := by
  induction prev, skip, cs using scan.induct F with
  | case1 prev skip => exact absurd h (by rw [scan]; exact List.not_mem_nil)
  | case2 prev skip c cs ih =>
    rw [scan] at h
    exact ih h
  | case3 prev c cs hc ih =>
    rw [scan, if_pos hc] at h
    rcases List.mem_cons.mp h with rfl | h
    · exact ⟨hc.2.2, fun a ha => List.mem_takeWhile_imp ha⟩
    · exact ih h
  | case4 prev c cs hc ih =>
    rw [scan, if_neg hc] at h
    exact ih h

/-- Whether a word runs up to the end of the text. -/
def wordAfter (F : Frame α) (prev : Bool) (cs : List α) : Bool := cs.foldl (fun _ c => F.word c) prev

theorem scan_append {u : List α} (hu : F.mark ∉ u) (prev : Bool) (cs : List α) :
    F.scan prev 0 (u ++ cs) = F.scan (F.wordAfter prev u) 0 cs := by
  induction u generalizing prev with
  | nil => rfl
  | cons c u ih =>
    rw [List.mem_cons, not_or] at hu
    rw [List.cons_append, scan, if_neg fun h => hu.1 h.1.symm, ih hu.2]
    rfl

/-- Nothing is found in what is skipped, if there is no mark in it. -/
theorem scan_skip {skip : ℕ} {cs : List α} (h : F.mark ∉ cs.take skip) (prev : Bool) :
    F.scan prev skip cs = F.scan prev 0 cs := by
  induction skip generalizing prev cs with
  | zero => rfl
  | succ skip ih =>
    cases cs with
    | nil => rw [scan, scan]
    | cons c cs =>
      rw [List.take_succ_cons, List.mem_cons, not_or] at h
      rw [scan, ih h.2, scan, if_neg fun hc => h.1 hc.1.symm]

theorem scan_mark (prev : Bool) (cs : List α) :
    F.scan prev 0 (F.mark :: cs) =
      (if prev = false ∧ cs.takeWhile F.long ≠ [] then [cs.takeWhile F.long] else []) ++ F.scan false 0 cs := by
  have hskip : F.scan false (cs.takeWhile F.long).length cs = F.scan false 0 cs := by
    refine scan_skip (fun h => ?_) false
    rw [← List.prefix_iff_eq_take.mp (List.takeWhile_prefix F.long)] at h
    exact Bool.false_ne_true (F.long_mark.symm.trans (List.mem_takeWhile_imp h))
  by_cases h : prev = false ∧ cs.takeWhile F.long ≠ []
  · rw [scan, if_pos ⟨rfl, h⟩, if_pos h, F.word_mark, hskip]
    rfl
  · rw [scan, if_neg fun h' => h h'.2, if_neg h, F.word_mark]
    rfl

omit [DecidableEq α] in
theorem wordAfter_before (prev : Bool) (n : List α) : F.wordAfter prev (F.before n) = false := by
  obtain ⟨r, a, hr, ha⟩ := F.last_before n
  rw [wordAfter, hr, List.foldl_append]
  exact ha

/-- In a frame the second reader finds the name, and nothing else. -/
theorem scan_named {n : List α} (hne : n ≠ []) (hn : ∀ a ∈ n, F.name a = true) (prev : Bool) (cs : List α) :
    ∃ prev', F.scan prev 0 (Piece.write F (.named n) ++ cs) = n :: F.scan prev' 0 cs := by
  obtain ⟨a, r, hafter, ha⟩ := F.head_after
  have hmark : F.mark ∉ n ++ F.after := by
    rw [List.mem_append, not_or]
    refine ⟨fun h => ?_, F.mark_notMem_after⟩
    exact Bool.false_ne_true (F.long_mark.symm.trans (F.long_of_name _ (hn _ h)))
  have hlong : (n ++ F.after ++ cs).takeWhile F.long = n := by
    rw [hafter, List.append_assoc, List.takeWhile_append_of_pos fun c hc => F.long_of_name c (hn c hc),
      List.cons_append, List.takeWhile_cons_of_neg (by rw [ha]; exact Bool.false_ne_true), List.append_nil]
  refine ⟨F.wordAfter false (n ++ F.after), ?_⟩
  rw [Piece.write, List.append_assoc, List.append_assoc, List.cons_append, ← List.append_assoc n,
    scan_append (F.mark_notMem_before n hn), wordAfter_before, scan_mark, hlong, if_pos ⟨rfl, hne⟩, scan_append hmark]
  rfl

omit [DecidableEq α] in
theorem head?_of_takeWhile {p : α → Bool} {a : α} {cs : List α} (h : (cs.takeWhile p).head? = some a) :
    cs.head? = some a := by
  cases cs with
  | nil => exact h
  | cons c cs =>
    rw [List.takeWhile_cons] at h
    split at h
    · exact h
    · cases h

/-- What is written begins with no character of a name, if the text does not. -/
theorem head_write {cs : List α} (h : cs.takeWhile F.name = []) :
    ∀ a ∈ ((F.read 0 cs).flatMap (Piece.write F)).head?, F.name a = false := by
  intro a ha
  cases cs with
  | nil => cases ha
  | cons c cs =>
    rw [read] at ha
    split at ha
    · obtain ⟨b, r, hb, hlong⟩ := F.head_before (cs.takeWhile F.name)
      rw [List.flatMap_cons, Piece.write, hb] at ha
      cases ha
      exact Bool.eq_false_iff.mpr fun hname => Bool.false_ne_true (hlong.symm.trans (F.long_of_name a hname))
    · cases ha
      rw [List.takeWhile_cons] at h
      split at h
      · cases h
      · rename_i hc
        exact (Bool.not_eq_true _).mp hc

/-- **The second reader finds what the first has framed.** -/
theorem scan_write (prev : Bool) (skip : ℕ) (cs : List α) :
    (F.scan prev 0 ((F.read skip cs).flatMap (Piece.write F))).filter F.begins =
      (F.read skip cs).filterMap Piece.name? := by
  induction skip, cs using read.induct F generalizing prev with
  | case1 skip => rw [read, List.flatMap_nil, scan, List.filter_nil, List.filterMap_nil]
  | case2 skip c cs ih => rw [read, ih]
  | case3 c cs h ih =>
    have hname (a : α) (ha : a ∈ cs.takeWhile F.name) : F.name a = true := List.mem_takeWhile_imp ha
    have hbegins : F.begins (cs.takeWhile F.name) = true := by
      obtain ⟨a, r, hr⟩ := List.exists_cons_of_ne_nil h.2
      rw [begins, hr, List.head?_cons, Option.any_some]
      exact hname a (hr ▸ List.mem_cons_self)
    rw [read, if_pos h, List.flatMap_cons]
    obtain ⟨prev', hscan⟩ := scan_named h.2 hname prev
      ((F.read (cs.takeWhile F.name).length cs).flatMap (Piece.write F))
    rw [hscan, List.filter_cons_of_pos hbegins, ih]
    rfl
  | case4 c cs h ih =>
    rw [read, if_neg h, List.flatMap_cons, List.filterMap_cons_none rfl, ← ih (F.word c)]
    by_cases hc : c = F.mark
    · -- a mark without a name: what is found behind it begins as no name does
      subst hc
      have hrun : cs.takeWhile F.name = [] := by
        by_contra hne
        exact h ⟨rfl, hne⟩
      change (F.scan prev 0 (F.mark :: (F.read 0 cs).flatMap (Piece.write F))).filter F.begins = _
      rw [scan_mark, List.filter_append, F.word_mark]
      have hlost : (if prev = false ∧ ((F.read 0 cs).flatMap (Piece.write F)).takeWhile F.long ≠ [] then
          [((F.read 0 cs).flatMap (Piece.write F)).takeWhile F.long] else []).filter F.begins = [] := by
        refine List.filter_eq_nil_iff.mpr fun n hn hb => ?_
        split at hn
        · obtain rfl := List.mem_singleton.mp hn
          obtain ⟨a, ha, hname⟩ := (Option.any_eq_true _ _).mp hb
          exact Bool.false_ne_true ((head_write hrun a (head?_of_takeWhile ha)).symm.trans hname)
        · exact List.not_mem_nil hn
      rw [hlost, List.nil_append]
    · change (F.scan prev 0 (c :: (F.read 0 cs).flatMap (Piece.write F))).filter F.begins = _
      rw [scan, if_neg fun h' => hc h'.1]

end Frame

/-! ### Once each -/

section Unique

variable [DecidableEq α]

/-- What has not been seen yet, each where it stands first. -/
def unique (seen : List α) : List α → List α
  | [] => []
  | a :: as => if a ∈ seen then unique seen as else a :: unique (a :: seen) as

theorem mem_unique {a : α} {as : List α} : ∀ {seen : List α}, a ∈ unique seen as ↔ a ∈ as ∧ a ∉ seen := by
  induction as with
  | nil => exact fun {seen} => iff_of_false List.not_mem_nil fun h => List.not_mem_nil h.1
  | cons b as ih =>
    intro seen
    rw [unique]
    split
    · rename_i hb
      rw [ih, List.mem_cons]
      refine and_congr_left fun ha => ⟨.inr, fun h => h.resolve_left ?_⟩
      rintro rfl
      exact ha hb
    · rename_i hb
      rw [List.mem_cons, ih, List.mem_cons, List.mem_cons, not_or]
      by_cases hab : a = b
      · subst hab
        exact iff_of_true (.inl rfl) ⟨.inl rfl, hb⟩
      · simp only [hab, false_or, not_false_eq_true, true_and]

/-- Only what comes makes a difference. -/
theorem unique_congr {as : List α} : ∀ {seen seen' : List α}, (∀ a ∈ as, a ∈ seen ↔ a ∈ seen') →
    unique seen as = unique seen' as := by
  induction as with
  | nil => exact fun {_ _} _ => rfl
  | cons b as ih =>
    intro seen seen' h
    have hb := h b List.mem_cons_self
    have has (a : α) (ha : a ∈ as) := h a (List.mem_cons_of_mem _ ha)
    rw [unique, unique]
    by_cases hseen : b ∈ seen
    · rw [if_pos hseen, if_pos (hb.mp hseen), ih has]
    · rw [if_neg hseen, if_neg fun h' => hseen (hb.mpr h'), ih fun a ha => ?_]
      rw [List.mem_cons, List.mem_cons, has a ha]

/-- What is left out may be left out before. -/
theorem unique_filter (p : α → Bool) (as : List α) : ∀ seen : List α,
    (unique seen as).filter p = unique seen (as.filter p) := by
  induction as with
  | nil => exact fun _ => rfl
  | cons a as ih =>
    intro seen
    by_cases hp : p a = true
    · rw [List.filter_cons_of_pos hp, unique, unique]
      by_cases ha : a ∈ seen
      · rw [if_pos ha, if_pos ha, ih]
      · rw [if_neg ha, if_neg ha, List.filter_cons_of_pos hp, ih]
    · rw [List.filter_cons_of_neg hp, unique]
      by_cases ha : a ∈ seen
      · rw [if_pos ha, ih]
      · rw [if_neg ha, List.filter_cons_of_neg hp, ih]
        refine unique_congr fun b hb => ?_
        rw [List.mem_cons, or_iff_right]
        rintro rfl
        exact hp (List.mem_filter.mp hb).2

end Unique

end Marked
