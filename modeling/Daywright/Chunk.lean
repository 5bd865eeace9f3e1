/-
# A table walked in chunks

`chunkById` reads the rows of a query in pages, in the order of a key: each page holds
the first rows whose key is above the last one of the page before, and the query runs
again for each page, on what the callback has left by then.

If handling a row leaves the rows above it in the query as they are (`Walk`), the walk
handles each row that the query had at the start, once, in the order of the keys,
whatever the size of a page (`Walk.chunkById_eq`); if it takes the row out of the query,
nothing is left (`Walk.consumed`).

Key definitions: `pages`, `chunkById`, `trace`, `Walk`.
Key theorems: `Walk.pages_eq`, `Walk.chunkById_eq`, `Walk.invariant`, `Walk.consumed`, `Walk.of_mem_walk`.
-/
import Mathlib.Data.List.Sort

namespace Chunk

variable {σ α : Type*} (key : α → ℕ)

/-- `order by` the key. -/
def inOrder (rows : List α) : List α := rows.insertionSort fun a b => key a ≤ key b

/-- `where` the key is above `lastId`, `order by` the key. -/
def after (lastId : Option ℕ) (rows : List α) : List α :=
  inOrder key (rows.filter fun a => lastId.all fun id => id < key a)

/-- The pages after `lastId`; a page that is not full is the last one. -/
def pages (count : ℕ) (query : σ → List α) (callback : σ → List α → σ) : ℕ → Option ℕ → σ → σ
  | 0, _, s => s
  | fuel + 1, lastId, s =>
    let page := (after key lastId (query s)).take count
    match page.getLast? with
    | none => s
    | some last =>
      if page.length = count then pages count query callback fuel (some (key last)) (callback s page)
      else callback s page

/-- The callback handles the rows of a page one by one. -/
def each (f : σ → α → σ) (s : σ) (page : List α) : σ := page.foldl f s

def chunkById (count : ℕ) (query : σ → List α) (callback : σ → List α → σ) (s : σ) : σ :=
  pages key count query callback ((query s).length + 1) none s

/-- The rows as they are handled, each with the state before it. -/
def trace (f : σ → α → σ) : σ → List α → List (σ × α)
  | _, [] => []
  | s, a :: rows => (s, a) :: trace f (f s a) rows

variable {key}

theorem mem_after {lastId : Option ℕ} {rows : List α} {a : α} :
    a ∈ after key lastId rows ↔ a ∈ rows ∧ ∀ id ∈ lastId, id < key a := by
  rw [after, inOrder, List.mem_insertionSort, List.mem_filter, Option.all_eq_true]
  simp only [decide_eq_true_eq, Option.mem_def]

theorem after_none (rows : List α) : after key none rows = inOrder key rows := by
  simp [after]

/-- Rows with distinct keys are in strict order. -/
theorem pairwise_after {lastId : Option ℕ} {rows : List α} (h : (rows.map key).Nodup) :
    (after key lastId rows).Pairwise fun a b => key a < key b := by
  have htotal : Std.Total fun a b : α => key a ≤ key b := ⟨fun a b => Nat.le_total (key a) (key b)⟩
  have htrans : IsTrans α fun a b => key a ≤ key b := ⟨fun _ _ _ => Nat.le_trans⟩
  have hle : (after key lastId rows).Pairwise fun a b => key a ≤ key b := List.pairwise_insertionSort _ _
  have hperm := List.perm_insertionSort (fun a b : α => key a ≤ key b)
    (rows.filter fun a => lastId.all fun id => id < key a)
  have hsub : ((rows.filter fun a => lastId.all fun id => id < key a).map key).Nodup :=
    h.sublist (List.filter_sublist.map key)
  have hne : (after key lastId rows).Pairwise fun a b => key a ≠ key b :=
    List.pairwise_map.mp ((hperm.map key).nodup_iff.mpr hsub)
  exact (hle.and hne).imp fun h => lt_of_le_of_ne h.1 h.2

/-- A list in strict order is determined by its rows. -/
theorem eq_of_mem_iff {l l' : List α} (h : l.Pairwise fun a b => key a < key b)
    (h' : l'.Pairwise fun a b => key a < key b) (hmem : ∀ a, a ∈ l ↔ a ∈ l') : l = l' := by
  have hirrefl : Std.Irrefl fun a b : α => key a < key b := ⟨fun a => Nat.lt_irrefl (key a)⟩
  have hantisymm : Std.Antisymm fun a b : α => key a < key b := ⟨fun _ _ h h' => absurd h' h.asymm⟩
  exact List.Pairwise.eq_of_mem_iff h h' hmem

/-- No row of a page is above its last one. -/
theorem le_of_getLast? {page : List α} {last : α} (h : page.Pairwise fun a b => key a < key b)
    (hlast : page.getLast? = some last) {a : α} (ha : a ∈ page) : key a ≤ key last := by
  obtain ⟨before, rfl⟩ := List.getLast?_eq_some_iff.mp hlast
  rcases List.mem_append.mp ha with ha | ha
  · exact ((List.pairwise_append.mp h).2.2 a ha last (List.mem_singleton_self _)).le
  · rw [List.mem_singleton.mp ha]

/-- The rows after a page are those above its last one. -/
theorem mem_rest_iff {page rest : List α} {last a : α} (h : (page ++ rest).Pairwise fun a b => key a < key b)
    (hlast : page.getLast? = some last) : a ∈ rest ↔ a ∈ page ++ rest ∧ key last < key a := by
  obtain ⟨hpage, -, habove⟩ := List.pairwise_append.mp h
  constructor
  · exact fun ha => ⟨List.mem_append_right _ ha, habove last (List.mem_of_getLast? hlast) a ha⟩
  · rintro ⟨ha, hlt⟩
    refine (List.mem_append.mp ha).resolve_left fun ha => ?_
    exact absurd hlt (le_of_getLast? hpage hlast ha).not_gt

variable (key) in
/-- Handling a row keeps `I`, and leaves the rows above it in the query. -/
structure Walk (I : σ → Prop) (query : σ → List α) (f : σ → α → σ) : Prop where
  nodup : ∀ s, I s → ((query s).map key).Nodup
  step : ∀ s a, I s → a ∈ query s → I (f s a)
  later : ∀ s a b, I s → a ∈ query s → key a < key b → (b ∈ query (f s a) ↔ b ∈ query s)

namespace Walk

variable {I : σ → Prop} {query : σ → List α} {f : σ → α → σ} {s : σ} {count : ℕ}

/-- After the first row of a page the query still has the others. -/
theorem tail (W : Walk key I query f) {a : α} {page : List α} (hs : I s)
    (hp : ∀ a' ∈ page, key a < key a') (hq : ∀ a' ∈ a :: page, a' ∈ query s) : ∀ a' ∈ page, a' ∈ query (f s a) :=
  fun a' ha' => (W.later s a a' hs (hq a List.mem_cons_self) (hp a' ha')).mpr (hq a' (List.mem_cons_of_mem _ ha'))

/-- Rows handled in order. -/
theorem foldl (W : Walk key I query f) : ∀ {page : List α} {s : σ}, I s → (page.Pairwise fun a b => key a < key b) →
    (∀ a ∈ page, a ∈ query s) →
    I (page.foldl f s) ∧ ∀ b, (∀ a ∈ page, key a < key b) → (b ∈ query (page.foldl f s) ↔ b ∈ query s)
  | [], _, hs, _, _ => ⟨hs, fun _ _ => Iff.rfl⟩
  | a :: page, s, hs, hp, hq => by
    have ha := hq a List.mem_cons_self
    rw [List.pairwise_cons] at hp
    obtain ⟨hI, hb⟩ := W.foldl (W.step s a hs ha) hp.2 (W.tail hs hp.1 hq)
    refine ⟨hI, fun b hlt => ?_⟩
    exact (hb b fun a' ha' => hlt a' (List.mem_cons_of_mem _ ha')).trans
      (W.later s a b hs ha (hlt a List.mem_cons_self))

/-- Each row handled is in the query then. -/
theorem of_mem_trace (W : Walk key I query f) : ∀ {page : List α} {s : σ}, I s →
    (page.Pairwise fun a b => key a < key b) → (∀ a ∈ page, a ∈ query s) →
    ∀ x ∈ trace f s page, I x.1 ∧ x.2 ∈ query x.1
  | [], _, _, _, _, _, hx => absurd hx List.not_mem_nil
  | a :: page, s, hs, hp, hq, x, hx => by
    have ha := hq a List.mem_cons_self
    rw [List.pairwise_cons] at hp
    rcases List.mem_cons.mp hx with rfl | hx
    · exact ⟨hs, ha⟩
    · exact W.of_mem_trace (W.step s a hs ha) hp.2 (W.tail hs hp.1 hq) x hx

/-- Rows taken out of the query. -/
theorem foldl_consumed (W : Walk key I query f)
    (h : ∀ s a b, I s → a ∈ query s → b ∈ query (f s a) → b ∈ query s ∧ b ≠ a) :
    ∀ {page : List α} {s : σ}, I s → (page.Pairwise fun a b => key a < key b) → (∀ a ∈ page, a ∈ query s) →
    ∀ b ∈ query (page.foldl f s), b ∈ query s ∧ b ∉ page
  | [], _, _, _, _, b, hb => ⟨hb, List.not_mem_nil⟩
  | a :: page, s, hs, hp, hq, b, hb => by
    have ha := hq a List.mem_cons_self
    rw [List.pairwise_cons] at hp
    obtain ⟨hb, hnot⟩ := W.foldl_consumed h (W.step s a hs ha) hp.2 (W.tail hs hp.1 hq) b hb
    obtain ⟨hb, hne⟩ := h s a b hs ha hb
    exact ⟨hb, fun hmem => (List.mem_cons.mp hmem).elim hne hnot⟩

/-- The pages after `lastId` hold the rows that are there now. -/
theorem pages_eq (W : Walk key I query f) (hcount : 0 < count) : ∀ {fuel : ℕ} {lastId : Option ℕ} {s : σ}, I s →
    (after key lastId (query s)).length < fuel →
    pages key count query (each f) fuel lastId s = (after key lastId (query s)).foldl f s
  | 0, _, _, _, h => absurd h (Nat.not_lt_zero _)
  | fuel + 1, lastId, s, hs, h => by
    have hl : (after key lastId (query s)).Pairwise fun a b => key a < key b := pairwise_after (W.nodup s hs)
    have hmem : ∀ a, a ∈ after key lastId (query s) ↔ a ∈ query s ∧ ∀ id ∈ lastId, id < key a := fun _ => mem_after
    revert h hl hmem
    simp only [pages]
    generalize after key lastId (query s) = l
    intro h hl hmem
    split
    · rename_i hnone
      have hnil : l = [] := by simpa [hcount.ne'] using List.getLast?_eq_none_iff.mp hnone
      rw [hnil, List.foldl_nil]
    · rename_i last hlast
      have hsplit := List.take_append_drop count l
      have hpage : (l.take count).Pairwise fun a b => key a < key b := hl.sublist (List.take_sublist _ _)
      obtain ⟨hI, hq⟩ := W.foldl hs hpage fun a ha => ((hmem a).mp (List.mem_of_mem_take ha)).1
      split
      · rename_i hfull
        -- The query runs again, on what the page has left above its last row.
        have hrest : after key (some (key last)) (query ((l.take count).foldl f s)) = l.drop count := by
          refine eq_of_mem_iff (pairwise_after (W.nodup _ hI)) (hl.sublist (List.drop_sublist _ _)) fun a => ?_
          have hdrop := mem_rest_iff (a := a) (by rwa [hsplit]) hlast
          rw [hsplit] at hdrop
          rw [mem_after, hdrop, hmem a]
          simp only [Option.mem_def, Option.some.injEq, forall_eq']
          refine and_congr_left fun hlt => ?_
          rw [hq a fun b hb => (le_of_getLast? hpage hlast hb).trans_lt hlt]
          have hlastmem := (hmem last).mp (List.mem_of_mem_take (List.mem_of_getLast? hlast))
          exact ⟨fun ha => ⟨ha, fun id hid => (hlastmem.2 id hid).trans hlt⟩, fun ha => ha.1⟩
        have hlen : (l.drop count).length < fuel := by
          rw [List.length_take] at hfull
          rw [List.length_drop]
          omega
        rw [each, W.pages_eq hcount hI (by rwa [hrest]), hrest, ← List.foldl_append, hsplit]
      · rename_i hshort
        rw [List.length_take] at hshort
        rw [each, List.take_of_length_le (by omega)]

/-- Each row is handled once, in the order of the keys. -/
theorem chunkById_eq (W : Walk key I query f) (hcount : 0 < count) (hs : I s) :
    chunkById key count query (each f) s = (inOrder key (query s)).foldl f s := by
  have hlen : (inOrder key (query s)).length = (query s).length := List.length_insertionSort _ _
  rw [chunkById, W.pages_eq hcount hs (by rw [after_none, hlen]; exact Nat.lt_succ_self _), after_none]

theorem invariant (W : Walk key I query f) (hcount : 0 < count) (hs : I s) :
    I (chunkById key count query (each f) s) := by
  rw [W.chunkById_eq hcount hs, ← after_none]
  exact (W.foldl hs (pairwise_after (W.nodup s hs)) fun a ha => (mem_after.mp ha).1).1

theorem of_mem_walk (W : Walk key I query f) (hs : I s) {x : σ × α} (hx : x ∈ trace f s (inOrder key (query s))) :
    I x.1 ∧ x.2 ∈ query x.1 := by
  rw [← after_none] at hx
  exact W.of_mem_trace hs (pairwise_after (W.nodup s hs)) (fun a ha => (mem_after.mp ha).1) x hx

/-- Where handling a row takes it out of the query and puts none in, the query is empty
in the end. -/
theorem consumed (W : Walk key I query f) (hcount : 0 < count) (hs : I s)
    (h : ∀ s a b, I s → a ∈ query s → b ∈ query (f s a) → b ∈ query s ∧ b ≠ a) :
    query (chunkById key count query (each f) s) = [] := by
  rw [W.chunkById_eq hcount hs, ← after_none]
  refine List.eq_nil_iff_forall_not_mem.mpr fun b hb => ?_
  obtain ⟨hb, hnot⟩ := W.foldl_consumed h hs (pairwise_after (W.nodup s hs)) (fun a ha => (mem_after.mp ha).1) b hb
  exact hnot (mem_after.mpr ⟨hb, fun id hid => by cases hid⟩)

end Walk

end Chunk
