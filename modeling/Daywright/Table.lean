/-
# Tables

The rows of a table under SQL's `update … where` and `insert`, as lists. A step on
a table (`Step`) changes rows in place, each as `R` allows, or inserts one; it
loses none, and a key that no change touches stays unique.

Key definitions: `updateWhere`, `nextId`, `Step`.
Key theorems: `find?_updateWhere`, `Step.next`, `Step.origin`, `Step.nodup`, `countP_of_key`, `countP_updateWhere_le`.
-/
import Mathlib.Data.List.Nodup

namespace Table

variable {α κ : Type*}

/-- SQL's `update … set f where p`. -/
def updateWhere (p : α → Bool) (f : α → α) (rows : List α) : List α :=
  rows.map fun r => if p r then f r else r

theorem mem_updateWhere {p : α → Bool} {f : α → α} {rows : List α} {r' : α} :
    r' ∈ updateWhere p f rows ↔ ∃ r ∈ rows, (if p r then f r else r) = r' := List.mem_map

/-- An update that leaves a key alone. -/
theorem map_updateWhere {key : α → κ} {p : α → Bool} {f : α → α} {rows : List α}
    (hf : ∀ r, key (f r) = key r) : (updateWhere p f rows).map key = rows.map key := by
  rw [updateWhere, List.map_map]
  refine List.map_congr_left fun r _ => ?_
  simp only [Function.comp_apply]
  split
  · exact hf r
  · rfl

/-- A search that an update does not mislead finds the same row, updated. -/
theorem find?_updateWhere {p q : α → Bool} {f : α → α} (hf : ∀ r, q (f r) = q r) (rows : List α) :
    (updateWhere p f rows).find? q = (rows.find? q).map fun r => if p r then f r else r := by
  have hq (r : α) : q (if p r then f r else r) = q r := by
    split
    · exact hf r
    · rfl
  rw [updateWhere, List.find?_map]
  exact congrArg _ (congrArg (fun q => List.find? q rows) (funext hq))

/-- The next value of an auto-increment key. -/
def nextId (ids : List ℕ) : ℕ := ids.foldr max 0 + 1

theorem lt_nextId {ids : List ℕ} {n : ℕ} (hn : n ∈ ids) : n < nextId ids := by
  induction ids with
  | nil => cases hn
  | cons a ids ih =>
    simp only [nextId, List.foldr_cons] at ih ⊢
    rcases List.mem_cons.mp hn with rfl | hn
    · omega
    · have := ih hn
      omega

theorem nextId_not_mem (ids : List ℕ) : nextId ids ∉ ids := fun h => Nat.lt_irrefl _ (lt_nextId h)

/-- A statement that addresses one row by its key affects it, or none. -/
theorem countP_of_key {key : α → κ} {p : α → Bool} {rows : List α} {r : α} (hd : (rows.map key).Nodup)
    (hp : ∀ r' ∈ rows, p r' = true → key r' = key r) (hr : r ∈ rows) :
    rows.countP p = if p r then 1 else 0 := by
  have none_else {l : List α} (hl : ∀ r' ∈ l, r' ∈ rows) (hk : key r ∉ l.map key) : l.countP p = 0 := by
    refine List.countP_eq_zero.mpr fun r' hr' hpr' => hk ?_
    rw [← hp r' (hl r' hr') hpr']
    exact List.mem_map_of_mem hr'
  obtain ⟨before, after, rfl⟩ := List.append_of_mem hr
  simp only [List.map_append, List.map_cons, List.nodup_append, List.nodup_cons] at hd
  obtain ⟨-, ⟨hafter, -⟩, hbefore⟩ := hd
  rw [List.countP_append, List.countP_cons,
    none_else (fun r' h => List.mem_append_left _ h) fun h => hbefore _ h _ List.mem_cons_self rfl,
    none_else (fun r' h => List.mem_append_right _ (List.mem_cons_of_mem _ h)) hafter]
  split <;> rfl

/-- A lookup that addresses a row by its key finds it. -/
theorem find?_of_key {key : α → κ} {p : α → Bool} {rows : List α} {r : α} (hd : (rows.map key).Nodup)
    (hp : ∀ r' ∈ rows, p r' = true → key r' = key r) (hr : r ∈ rows) (hpr : p r = true) :
    rows.find? p = some r := by
  cases hf : rows.find? p with
  | none => exact absurd hpr (List.find?_eq_none.mp hf r hr)
  | some r' =>
    have hr' := List.mem_of_find?_eq_some hf
    rw [List.inj_on_of_nodup_map hd hr' hr (hp r' hr' (List.find?_some hf))]

/-- Of the rows that agree on a unique key there is at most one. -/
theorem countP_le_one {key : α → κ} {p : α → Bool} {rows : List α} (hd : (rows.map key).Nodup)
    (hp : ∀ r ∈ rows, ∀ r' ∈ rows, p r = true → p r' = true → key r = key r') : rows.countP p ≤ 1 := by
  by_cases h : ∃ r ∈ rows, p r = true
  · obtain ⟨r, hr, hpr⟩ := h
    have hc := countP_of_key hd (fun r' hr' hpr' => hp r' hr' r hr hpr' hpr) hr
    rw [if_pos hpr] at hc
    omega
  · have : rows.countP p = 0 := List.countP_eq_zero.mpr fun r hr hpr => h ⟨r, hr, hpr⟩
    omega

theorem eq_of_countP_le_one {p : α → Bool} {rows : List α} {r r' : α} (h : rows.countP p ≤ 1) (hr : r ∈ rows)
    (hr' : r' ∈ rows) (hp : p r = true) (hp' : p r' = true) : r = r' := by
  obtain ⟨before, after, rfl⟩ := List.append_of_mem hr
  simp only [List.countP_append, List.countP_cons, hp, if_true] at h
  rcases List.mem_append.mp hr' with hr' | hr'
  · have : 0 < before.countP p := List.countP_pos_iff.mpr ⟨r', hr', hp'⟩
    omega
  · rcases List.mem_cons.mp hr' with rfl | hr'
    · rfl
    · have : 0 < after.countP p := List.countP_pos_iff.mpr ⟨r', hr', hp'⟩
      omega

/-- A row that is addressed by its key is the only one that changes. -/
theorem updateWhere_of_key [DecidableEq α] [DecidableEq κ] {key : α → κ} {rows : List α} {r r' : α}
    (hd : (rows.map key).Nodup) (hr : r ∈ rows) (hk : key r' = key r) :
    updateWhere (fun x => key x == key r') (fun _ => r') rows = rows.map fun x => if x = r then r' else x := by
  refine List.map_congr_left fun x hx => ?_
  have hiff : (key x == key r') = true ↔ x = r := by
    rw [beq_iff_eq, hk]
    exact ⟨fun h => List.inj_on_of_nodup_map hd hx hr h, fun h => congrArg key h⟩
  simp only [hiff]

/-- The row under a key after an update. -/
theorem eq_of_mem_updateWhere {key : α → κ} {p : α → Bool} {f : α → α} {rows : List α} {r r' : α}
    (hd : (rows.map key).Nodup) (hf : ∀ r, key (f r) = key r) (hr : r ∈ rows) (hr' : r' ∈ updateWhere p f rows)
    (hk : key r' = key r) : r' = if p r then f r else r := by
  obtain ⟨r₀, hr₀, rfl⟩ := mem_updateWhere.mp hr'
  have hk₀ : key r₀ = key r := by
    rw [← hk]
    split
    · exact (hf r₀).symm
    · rfl
  rw [List.inj_on_of_nodup_map hd hr₀ hr hk₀]

/-- An update that makes no row satisfy `q` does not raise their number. -/
theorem countP_updateWhere_le {p q : α → Bool} {f : α → α} {rows : List α}
    (h : ∀ r ∈ rows, p r = true → q (f r) = true → q r = true) :
    (updateWhere p f rows).countP q ≤ rows.countP q := by
  rw [updateWhere, List.countP_map]
  refine List.countP_mono_left fun r hr hq => ?_
  simp only [Function.comp_apply] at hq
  split at hq
  · rename_i hp
    exact h r hr hp hq
  · exact hq

/-- An update raises a count by at most one for each row that it changes. -/
theorem countP_updateWhere_add_le {p q : α → Bool} {f : α → α} {rows : List α} :
    (updateWhere p f rows).countP q ≤ rows.countP q + rows.countP p := by
  rw [updateWhere, List.countP_map]
  induction rows with
  | nil => simp
  | cons r rows ih =>
    simp only [List.countP_cons, Function.comp_apply]
    by_cases hp : p r = true
    · simp only [hp, if_true]
      split <;> split <;> omega
    · simp only [hp, Bool.false_eq_true, if_false]
      split <;> omega

/-- What happens to a table: rows change as `R` allows, or a `New` one is inserted. -/
inductive Step (R : α → α → Prop) (New : α → Prop) (rows : List α) : List α → Prop
  | change (f : α → α) : (∀ r ∈ rows, R r (f r)) → Step R New rows (rows.map f)
  | insert (r : α) : New r → Step R New rows (rows ++ [r])

namespace Step

variable {R : α → α → Prop} {New : α → Prop} {rows rows' : List α}

theorem updateWhere {p : α → Bool} {f : α → α} (refl : ∀ r, R r r)
    (h : ∀ r ∈ rows, p r = true → R r (f r)) : Step R New rows (updateWhere p f rows) := by
  refine .change _ fun r hr => ?_
  split
  · rename_i hp
    exact h r hr hp
  · exact refl r

theorem keep (refl : ∀ r, R r r) : Step R New rows rows := by
  have h : Step R New rows (rows.map id) := .change id fun r _ => refl r
  rwa [List.map_id] at h

theorem mono {R' : α → α → Prop} {New' : α → Prop} (h : Step R New rows rows')
    (hR : ∀ r ∈ rows, ∀ r', R r r' → R' r r') (hN : ∀ r, New r → New' r) : Step R' New' rows rows' := by
  cases h with
  | change f hf => exact .change f fun r hr => hR r hr _ (hf r hr)
  | insert r hr => exact .insert r (hN r hr)

/-- No row is lost. -/
theorem next (h : Step R New rows rows') (refl : ∀ r, R r r) {r : α} (hr : r ∈ rows) :
    ∃ r' ∈ rows', R r r' := by
  cases h with
  | change f hf => exact ⟨f r, List.mem_map_of_mem hr, hf r hr⟩
  | insert r₀ _ => exact ⟨r, List.mem_append_left _ hr, refl r⟩

/-- A row was there before, or is new. -/
theorem origin (h : Step R New rows rows') (refl : ∀ r, R r r) {r' : α} (hr : r' ∈ rows') :
    (∃ r ∈ rows, R r r') ∨ New r' := by
  cases h with
  | change f hf =>
    obtain ⟨r, hr₀, rfl⟩ := List.mem_map.mp hr
    exact .inl ⟨r, hr₀, hf r hr₀⟩
  | insert r₀ h₀ =>
    rcases List.mem_append.mp hr with hr | hr
    · exact .inl ⟨r', hr, refl r'⟩
    · rw [List.mem_singleton.mp hr]
      exact .inr h₀

theorem nodup (h : Step R New rows rows') {key : α → κ} (hk : ∀ r r', R r r' → key r' = key r)
    (hn : ∀ r, New r → key r ∉ rows.map key) (hd : (rows.map key).Nodup) : (rows'.map key).Nodup := by
  cases h with
  | change f hf =>
    have hm : (rows.map f).map key = rows.map key := by
      rw [List.map_map]
      exact List.map_congr_left fun r hr => hk r _ (hf r hr)
    rw [hm]
    exact hd
  | insert r hr =>
    rw [List.map_append, List.map_singleton]
    exact List.nodup_append.mpr ⟨hd, List.nodup_singleton _, fun a ha b hb hab =>
      hn r hr (by rwa [hab, List.mem_singleton.mp hb] at ha)⟩

end Step

end Table
