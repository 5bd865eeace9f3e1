/-
# A feed, read in pages and kept up to date

The rows of a table are read newest first, a page at a time: a page holds the first rows
whose key is below the cursor, and the key of its last row is the cursor of the next one,
if there are more (`cursorPaginate`). The table may change between two pages.

A reader shows the pages one behind the other. In front of them it puts the rows it hears
of in between, unless it shows their key (`push`), and it takes out the first row with a
key it hears is gone (`remove`). Whatever it hears and when, what has been read stands newest
first behind what has been heard, and either part shows a key once (`Layered`); so a key is
shown twice at most. If no row is heard of that is older than the cursor, it is shown
once (`Tidy`), and if each is heard of before the next, all is in order (`Newest`).

Key definitions: `cursorPaginate`, `push`, `remove`, `Layered`, `Tidy`, `Newest`.
Key theorems: `mem_page`, `Layered.more`, `Layered.count_le`, `Tidy.push`, `Newest.push`.
-/
import Mathlib.Data.List.Sort

namespace Feed

variable {α κ : Type*} [LinearOrder κ]

/-! ### The pages of a table -/

structure Page (α κ : Type*) where
  data : List α
  nextCursor : Option κ
  deriving DecidableEq

section Pages

variable (key : α → κ)

/-- The rows below the cursor, newest first. -/
def below (cursor : Option κ) (rows : List α) : List α :=
  (rows.filter fun a => cursor.all fun k => decide (key a < k)).insertionSort fun a b => key b ≤ key a

/-- One row more than a page tells whether there is another page. -/
def cursorPaginate (perPage : ℕ) (cursor : Option κ) (rows : List α) : Page α κ :=
  let data := (below key cursor rows).take perPage
  ⟨data, if perPage < (below key cursor rows).length then data.getLast?.map key else none⟩

variable {key} {cursor : Option κ} {rows : List α} {perPage : ℕ} {a : α} {k : κ}

theorem mem_below : a ∈ below key cursor rows ↔ a ∈ rows ∧ ∀ k ∈ cursor, key a < k := by
  rw [below, List.mem_insertionSort, List.mem_filter, Option.all_eq_true]
  simp only [decide_eq_true_eq, Option.mem_def]

theorem pairwise_below (h : (rows.map key).Nodup) :
    (below key cursor rows).Pairwise fun a b => key b < key a := by
  have hsorted : (below key cursor rows).Pairwise fun a b => key b ≤ key a :=
    List.pairwise_insertionSort (fun a b => key b ≤ key a) _
  have hnodup : ((below key cursor rows).map key).Nodup := by
    have hperm := ((List.perm_insertionSort (fun a b => key b ≤ key a)
      (rows.filter fun a => cursor.all fun k => decide (key a < k))).map key).nodup_iff
    exact hperm.mpr (h.sublist (List.filter_sublist.map _))
  have hne : (below key cursor rows).Pairwise fun a b => key a ≠ key b := List.pairwise_map.mp hnodup
  exact (hsorted.and hne).imp fun h => lt_of_le_of_ne h.1 (Ne.symm h.2)

theorem of_mem_page (h : a ∈ (cursorPaginate key perPage cursor rows).data) :
    a ∈ rows ∧ ∀ k ∈ cursor, key a < k := mem_below.mp (List.mem_of_mem_take h)

theorem pairwise_page (h : (rows.map key).Nodup) :
    (cursorPaginate key perPage cursor rows).data.Pairwise fun a b => key b < key a :=
  (pairwise_below h).sublist (List.take_sublist _ _)

/-- The cursor is the key of the last row of the page. -/
theorem nextCursor_some (h : (cursorPaginate key perPage cursor rows).nextCursor = some k) :
    ∃ a, (cursorPaginate key perPage cursor rows).data.getLast? = some a ∧ key a = k := by
  unfold cursorPaginate at h
  split at h
  · exact Option.map_eq_some_iff.mp h
  · cases h

theorem nextCursor_mem (h : (cursorPaginate key perPage cursor rows).nextCursor = some k) :
    ∃ a ∈ rows, key a = k ∧ ∀ k' ∈ cursor, k < k' := by
  obtain ⟨a, ha, rfl⟩ := nextCursor_some h
  have hmem := of_mem_page (List.mem_of_getLast? ha)
  exact ⟨a, hmem.1, rfl, hmem.2⟩

theorem nextCursor_le (hrows : (rows.map key).Nodup)
    (h : (cursorPaginate key perPage cursor rows).nextCursor = some k)
    (ha : a ∈ (cursorPaginate key perPage cursor rows).data) : k ≤ key a := by
  obtain ⟨b, hb, rfl⟩ := nextCursor_some h
  obtain ⟨front, hfront⟩ := List.getLast?_eq_some_iff.mp hb
  have hp : (cursorPaginate key perPage cursor rows).data.Pairwise fun a b => key b < key a := pairwise_page hrows
  rw [hfront] at hp ha
  rcases List.mem_append.mp ha with ha | ha
  · exact ((List.pairwise_append.mp hp).2.2 a ha b (List.mem_singleton_self b)).le
  · rw [List.mem_singleton.mp ha]

/-- A page leaves out no row between its cursor and the next. -/
theorem mem_page (hrows : (rows.map key).Nodup) (hn : 0 < perPage) (ha : a ∈ rows)
    (hcursor : ∀ k ∈ cursor, key a < k)
    (hnext : ∀ k ∈ (cursorPaginate key perPage cursor rows).nextCursor, k ≤ key a) :
    a ∈ (cursorPaginate key perPage cursor rows).data := by
  have hbelow : a ∈ below key cursor rows := mem_below.mpr ⟨ha, hcursor⟩
  have hp : (below key cursor rows).Pairwise fun a b => key b < key a := pairwise_below hrows
  rw [← List.take_append_drop perPage (below key cursor rows)] at hbelow hp
  rcases List.mem_append.mp hbelow with h | h
  · exact h
  · exfalso
    have hlen : perPage < (below key cursor rows).length := by
      have hpos := List.length_pos_of_mem h
      rw [List.length_drop] at hpos
      omega
    have hlast : ((below key cursor rows).take perPage).getLast? ≠ none := by
      intro h
      have h := congrArg List.length (List.getLast?_eq_none_iff.mp h)
      rw [List.length_take, List.length_nil] at h
      omega
    obtain ⟨b, hb⟩ := Option.ne_none_iff_exists'.mp hlast
    have hnext := hnext (key b) (by rw [cursorPaginate, if_pos hlen, hb]; rfl)
    have hlt := (List.pairwise_append.mp hp).2.2 b (List.mem_of_getLast? hb) a h
    exact absurd hlt (not_lt_of_ge hnext)

end Pages

/-! ### What a reader shows -/

section Reader

variable (key : α → κ)

/-- In front, unless the key is there. -/
def push (a : α) (items : List α) : List α :=
  if items.any fun b => decide (key b = key a) then items else a :: items

/-- The first row with the key goes. -/
def remove (k : κ) (items : List α) : List α := items.eraseP fun b => decide (key b = k)

/-- What has been heard, and behind it what has been read, down to `low`. -/
def Layered (low : Option κ) (items : List α) : Prop :=
  ∃ heard read, items = heard ++ read ∧ (heard.map key).Nodup ∧ (read.Pairwise fun a b => key b < key a) ∧
    ∀ a ∈ read, ∀ k ∈ low, k ≤ key a

structure Tidy (low : Option κ) (items : List α) : Prop where
  nodup : (items.map key).Nodup
  le : ∀ a ∈ items, ∀ k ∈ low, k ≤ key a

structure Newest (low : Option κ) (items : List α) : Prop where
  sorted : items.Pairwise fun a b => key b < key a
  le : ∀ a ∈ items, ∀ k ∈ low, k ≤ key a

variable {key} {low low' : Option κ} {items page : List α} {a b : α} {k : κ}

theorem push_of_notMem (h : ∀ b ∈ items, key b ≠ key a) : push key a items = a :: items := by
  refine if_neg fun hany => ?_
  obtain ⟨b, hb, hk⟩ := List.any_eq_true.mp hany
  exact h b hb (of_decide_eq_true hk)

theorem push_of_mem (hb : b ∈ items) (h : key b = key a) : push key a items = items :=
  if_pos (List.any_eq_true.mpr ⟨b, hb, decide_eq_true h⟩)

theorem push_cases (key : α → κ) (a : α) (items : List α) :
    push key a items = items ∧ (∃ b ∈ items, key b = key a) ∨
    push key a items = a :: items ∧ ∀ b ∈ items, key b ≠ key a := by
  by_cases h : ∃ b ∈ items, key b = key a
  · obtain ⟨b, hb, hk⟩ := h
    exact .inl ⟨push_of_mem hb hk, b, hb, hk⟩
  · have h : ∀ b ∈ items, key b ≠ key a := fun b hb hk => h ⟨b, hb, hk⟩
    exact .inr ⟨push_of_notMem h, h⟩

theorem of_mem_push (h : b ∈ push key a items) : b ∈ items ∨ b = a := by
  rcases push_cases key a items with ⟨he, -⟩ | ⟨he, -⟩ <;> rw [he] at h
  · exact .inl h
  · exact (List.mem_cons.mp h).symm

theorem mem_push (h : b ∈ items) : b ∈ push key a items := by
  rcases push_cases key a items with ⟨he, -⟩ | ⟨he, -⟩ <;> rw [he]
  · exact h
  · exact List.mem_cons_of_mem a h

/-- What has been pushed is shown, under its key. -/
theorem exists_mem_push (a : α) (items : List α) : ∃ b ∈ push key a items, key b = key a := by
  rcases push_cases key a items with ⟨he, b, hb, hk⟩ | ⟨he, -⟩ <;> rw [he]
  · exact ⟨b, hb, hk⟩
  · exact ⟨a, List.mem_cons_self, rfl⟩

theorem of_mem_remove (h : a ∈ remove key k items) : a ∈ items := List.mem_of_mem_eraseP h

theorem mem_remove (h : a ∈ items) (hk : key a ≠ k) : a ∈ remove key k items :=
  (List.mem_eraseP_of_neg (by simpa using hk)).mpr h

theorem remove_sublist (k : κ) (items : List α) : (remove key k items).Sublist items := List.eraseP_sublist

namespace Layered

/-- The first page. -/
theorem first (hp : page.Pairwise fun a b => key b < key a) (hlow : ∀ a ∈ page, ∀ k ∈ low, k ≤ key a) :
    Layered key low page := ⟨[], page, rfl, List.nodup_nil, hp, hlow⟩

/-- The next page, below the one before. -/
theorem more (h : Layered key (some k) items) (hp : page.Pairwise fun a b => key b < key a)
    (hpage : ∀ a ∈ page, key a < k) (hlow : ∀ a ∈ page, ∀ k' ∈ low', k' ≤ key a)
    (hk : ∀ k' ∈ low', k' < k) : Layered key low' (items ++ page) := by
  obtain ⟨heard, read, rfl, hheard, hread, hle⟩ := h
  have hle : ∀ a ∈ read, k ≤ key a := fun a ha => hle a ha k rfl
  refine ⟨heard, read ++ page, List.append_assoc _ _ _, hheard, ?_, ?_⟩
  · exact List.pairwise_append.mpr ⟨hread, hp, fun a ha b hb => (hpage b hb).trans_le (hle a ha)⟩
  · intro a ha k' hk'
    rcases List.mem_append.mp ha with ha | ha
    · exact (hk k' hk').le.trans (hle a ha)
    · exact hlow a ha k' hk'

theorem push (h : Layered key low items) (a : α) : Layered key low (push key a items) := by
  rcases push_cases key a items with ⟨he, -⟩ | ⟨he, hne⟩ <;> rw [he]
  · exact h
  · obtain ⟨heard, read, rfl, hheard, hread, hle⟩ := h
    refine ⟨a :: heard, read, rfl, ?_, hread, hle⟩
    rw [List.map_cons, List.nodup_cons]
    refine ⟨fun hmem => ?_, hheard⟩
    obtain ⟨b, hb, hk⟩ := List.mem_map.mp hmem
    exact hne b (List.mem_append_left _ hb) hk

theorem remove (h : Layered key low items) (k : κ) : Layered key low (remove key k items) := by
  obtain ⟨heard, read, rfl, hheard, hread, hle⟩ := h
  unfold Feed.remove
  rw [List.eraseP_append]
  split
  · exact ⟨_, read, rfl, hheard.sublist (List.eraseP_sublist.map _), hread, hle⟩
  · refine ⟨heard, _, rfl, hheard, hread.sublist List.eraseP_sublist, fun a ha => ?_⟩
    exact hle a (List.mem_of_mem_eraseP ha)

/-- A key is shown twice at most: as it was heard, and as it was read. -/
theorem count_le (h : Layered key low items) (k : κ) : (items.map key).count k ≤ 2 := by
  obtain ⟨heard, read, rfl, hheard, hread, -⟩ := h
  have hread : (read.map key).Nodup := List.pairwise_map.mpr (hread.imp fun h => h.ne')
  rw [List.map_append, List.count_append]
  have hl := List.nodup_iff_count_le_one.mp hheard k
  have hr := List.nodup_iff_count_le_one.mp hread k
  omega

end Layered

namespace Tidy

theorem first (hp : page.Pairwise fun a b => key b < key a) (hlow : ∀ a ∈ page, ∀ k ∈ low, k ≤ key a) :
    Tidy key low page := ⟨List.pairwise_map.mpr (hp.imp fun h => h.ne'), hlow⟩

theorem more (h : Tidy key (some k) items) (hp : page.Pairwise fun a b => key b < key a)
    (hpage : ∀ a ∈ page, key a < k) (hlow : ∀ a ∈ page, ∀ k' ∈ low', k' ≤ key a)
    (hk : ∀ k' ∈ low', k' < k) : Tidy key low' (items ++ page) := by
  have hle : ∀ a ∈ items, k ≤ key a := fun a ha => h.le a ha k rfl
  refine ⟨?_, fun a ha k' hk' => ?_⟩
  · rw [List.map_append]
    refine List.nodup_append.mpr ⟨h.nodup, (first hp hlow).nodup, fun x hx y hy hxy => ?_⟩
    obtain ⟨a, ha, rfl⟩ := List.mem_map.mp hx
    obtain ⟨b, hb, rfl⟩ := List.mem_map.mp hy
    exact absurd hxy ((hpage b hb).trans_le (hle a ha)).ne'
  · rcases List.mem_append.mp ha with ha | ha
    · exact (hk k' hk').le.trans (hle a ha)
    · exact hlow a ha k' hk'

theorem push (h : Tidy key low items) (ha : ∀ k ∈ low, k ≤ key a) : Tidy key low (push key a items) := by
  rcases push_cases key a items with ⟨he, -⟩ | ⟨he, hne⟩ <;> rw [he]
  · exact h
  · refine ⟨?_, fun b hb => ?_⟩
    · rw [List.map_cons, List.nodup_cons]
      refine ⟨fun hmem => ?_, h.nodup⟩
      obtain ⟨b, hb, hk⟩ := List.mem_map.mp hmem
      exact hne b hb hk
    · rcases List.mem_cons.mp hb with rfl | hb
      · exact ha
      · exact h.le b hb

theorem remove (h : Tidy key low items) (k : κ) : Tidy key low (Feed.remove key k items) :=
  ⟨h.nodup.sublist ((remove_sublist k items).map key), fun a ha => h.le a (of_mem_remove ha)⟩

/-- A key that is removed is no longer shown. -/
theorem notMem_remove (h : Tidy key low items) (ha : a ∈ Feed.remove key k items) : key a ≠ k := by
  rintro rfl
  have hcount := List.nodup_iff_count_le_one.mp h.nodup (key a)
  obtain ⟨b, front, back, -, hb, he, hr⟩ := List.exists_of_eraseP (p := fun b => decide (key b = key a))
    (of_mem_remove ha) (decide_eq_true rfl)
  have hmem : a ∈ front ++ back := by
    rw [← hr]
    exact ha
  have hpos := List.count_pos_iff.mpr (List.mem_map_of_mem (f := key) hmem)
  have hb := of_decide_eq_true hb
  rw [he, List.map_append, List.map_cons, List.count_append, hb, List.count_cons_self] at hcount
  rw [List.map_append, List.count_append] at hpos
  omega

end Tidy

namespace Newest

theorem tidy (h : Newest key low items) : Tidy key low items := .first h.sorted h.le

theorem more (h : Newest key (some k) items) (hp : page.Pairwise fun a b => key b < key a)
    (hpage : ∀ a ∈ page, key a < k) (hlow : ∀ a ∈ page, ∀ k' ∈ low', k' ≤ key a)
    (hk : ∀ k' ∈ low', k' < k) : Newest key low' (items ++ page) := by
  refine ⟨?_, (h.tidy.more hp hpage hlow hk).le⟩
  exact List.pairwise_append.mpr ⟨h.sorted, hp, fun a ha b hb => (hpage b hb).trans_le (h.le a ha k rfl)⟩

/-- What is heard of is newer than all that is shown, or shown. -/
theorem push (h : Newest key low items) (ha : ∀ k ∈ low, k ≤ key a) (hnew : ∀ b ∈ items, key b ≤ key a) :
    Newest key low (push key a items) := by
  refine ⟨?_, (h.tidy.push ha).le⟩
  rcases push_cases key a items with ⟨he, -⟩ | ⟨he, hne⟩ <;> rw [he]
  · exact h.sorted
  · exact List.pairwise_cons.mpr ⟨fun b hb => lt_of_le_of_ne (hnew b hb) (hne b hb), h.sorted⟩

theorem remove (h : Newest key low items) (k : κ) : Newest key low (remove key k items) :=
  ⟨h.sorted.sublist (remove_sublist k items), fun a ha => h.le a (of_mem_remove ha)⟩

end Newest

end Reader

end Feed
