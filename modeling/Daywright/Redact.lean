/-
# Keyed trees with some of their keys hidden

A tree of nested keyed arrays is redacted by putting a mask for whatever stands under a
hidden key, at any depth (`redact`). What is left says everything about the rest and
nothing about what was hidden: two trees redact to the same one if and only if they
differ under hidden keys only (`redact_eq_iff`). At a path with no hidden key stands what
stood there, redacted; a path stops at its first hidden key, where the mask stands
(`get?_redact`, `get?_redact_hidden`).

Key definitions: `Nested`, `redact`, `Agree`, `Nested.get?`, `put`.
Key theorems: `redact_eq_iff`, `redact_redact`, `get?_redact`, `get?_redact_hidden`.
-/
import Mathlib.Data.List.Forall2

namespace Redact

variable {κ ν : Type*}

inductive Nested (κ ν : Type*) where
  | leaf (v : ν)
  | node (entries : List (κ × Nested κ ν))

namespace Nested

/-- By induction: the trees under the keys before the tree that holds them. -/
@[elab_as_elim]
theorem induct {P : Nested κ ν → Prop} (leaf : ∀ v, P (.leaf v))
    (node : ∀ es : List (κ × Nested κ ν), (∀ e ∈ es, P e.2) → P (.node es)) : ∀ t, P t
  | .leaf v => leaf v
  | .node es => node es (entries es)
where
  entries : ∀ es : List (κ × Nested κ ν), ∀ e ∈ es, P e.2
    | (_, t) :: es, e, h => by
      rcases List.mem_cons.mp h with rfl | h
      · exact induct leaf node t
      · exact entries es e h

variable [DecidableEq κ]

/-- The value at a path of keys: of an array, under the first entry with the key. -/
def get? : Nested κ ν → List κ → Option (Nested κ ν)
  | t, [] => some t
  | .leaf _, _ :: _ => none
  | .node es, k :: ks => ((es.find? fun e => e.1 = k).map (·.2)).bind fun t => t.get? ks

end Nested

/-- `$entries[$key] = $value`: in place of the value that the key has, else at the end. -/
def put [DecidableEq κ] {α : Type*} (key : κ) (value : α) : List (κ × α) → List (κ × α)
  | [] => [(key, value)]
  | e :: es => if e.1 = key then (key, value) :: es else e :: put key value es

section

variable (hides : κ → Bool) (mask : Nested κ ν)

mutual

def redact : Nested κ ν → Nested κ ν
  | .leaf v => .leaf v
  | .node es => .node (redactEntries es)

def redactEntries : List (κ × Nested κ ν) → List (κ × Nested κ ν)
  | [] => []
  | (k, t) :: es => (k, if hides k then mask else redact t) :: redactEntries es

end

mutual

/-- The two differ at most in what stands under hidden keys. -/
inductive Agree : Nested κ ν → Nested κ ν → Prop
  | leaf (v : ν) : Agree (.leaf v) (.leaf v)
  | node {es es' : List (κ × Nested κ ν)} : AgreeEntries es es' → Agree (.node es) (.node es')

inductive AgreeEntries : List (κ × Nested κ ν) → List (κ × Nested κ ν) → Prop
  | nil : AgreeEntries [] []
  | hidden {k : κ} {t t' : Nested κ ν} {es es' : List (κ × Nested κ ν)} : hides k = true →
      AgreeEntries es es' → AgreeEntries ((k, t) :: es) ((k, t') :: es')
  | shown {k : κ} {t t' : Nested κ ν} {es es' : List (κ × Nested κ ν)} : Agree t t' →
      AgreeEntries es es' → AgreeEntries ((k, t) :: es) ((k, t') :: es')

end

theorem redactEntries_eq (es : List (κ × Nested κ ν)) :
    redactEntries hides mask es = es.map fun e => (e.1, if hides e.1 then mask else redact hides mask e.2) := by
  induction es with
  | nil => rfl
  | cons e es ih => rw [redactEntries, ih, List.map_cons]

theorem redact_node (es : List (κ × Nested κ ν)) :
    redact hides mask (.node es) =
      .node (es.map fun e => (e.1, if hides e.1 then mask else redact hides mask e.2)) := by
  rw [redact, redactEntries_eq]

variable {hides mask}

/-! ### What the mask hides -/

mutual

theorem redact_eq_of_agree {t t' : Nested κ ν} : Agree hides t t' → redact hides mask t = redact hides mask t'
  | .leaf _ => rfl
  | .node h => by rw [redact, redact, redactEntries_eq_of_agree h]

theorem redactEntries_eq_of_agree {es es' : List (κ × Nested κ ν)} :
    AgreeEntries hides es es' → redactEntries hides mask es = redactEntries hides mask es'
  | .nil => rfl
  | .hidden hk h => by
    rw [redactEntries, redactEntries, if_pos hk, if_pos hk, redactEntries_eq_of_agree h]
  | .shown ht h => by
    rw [redactEntries, redactEntries, redact_eq_of_agree ht, redactEntries_eq_of_agree h]

end

theorem agreeEntries_of_redactEntries_eq {es : List (κ × Nested κ ν)}
    (ih : ∀ e ∈ es, ∀ t', redact hides mask e.2 = redact hides mask t' → Agree hides e.2 t') :
    ∀ es', redactEntries hides mask es = redactEntries hides mask es' → AgreeEntries hides es es' := by
  induction es with
  | nil =>
    intro es' h
    cases es' with
    | nil => exact .nil
    | cons e' es' => exact absurd h (List.cons_ne_nil _ _).symm
  | cons e es ihes =>
    intro es' h
    cases es' with
    | nil => exact absurd h (List.cons_ne_nil _ _)
    | cons e' es' =>
      obtain ⟨k, t⟩ := e
      obtain ⟨k', t'⟩ := e'
      rw [redactEntries, redactEntries, List.cons.injEq, Prod.mk.injEq] at h
      obtain ⟨⟨rfl, ht⟩, hes⟩ := h
      have hrest := ihes (fun e he => ih e (List.mem_cons_of_mem _ he)) es' hes
      by_cases hk : hides k = true
      · exact .hidden hk hrest
      · rw [if_neg hk, if_neg hk] at ht
        exact .shown (ih (k, t) List.mem_cons_self t' ht) hrest

/-- **The redacted tree says everything but what is hidden.** Two trees redact to the same
one if and only if they differ under hidden keys only. -/
theorem redact_eq_iff {t t' : Nested κ ν} : redact hides mask t = redact hides mask t' ↔ Agree hides t t' := by
  refine ⟨fun h => ?_, redact_eq_of_agree⟩
  induction t using Nested.induct generalizing t' with
  | leaf v =>
    cases t' with
    | leaf v' =>
      rw [redact, redact] at h
      rw [h]
      exact .leaf v'
    | node es' => exact nomatch h
  | node es ih =>
    cases t' with
    | leaf v' => exact nomatch h
    | node es' =>
      rw [redact, redact] at h
      exact .node (agreeEntries_of_redactEntries_eq (fun e he t' => ih e he) es' (Nested.node.inj h))

/-- Redacting twice is redacting once, whatever the mask. -/
theorem redact_redact (t : Nested κ ν) :
    redact hides mask (redact hides mask t) = redact hides mask t := by
  induction t using Nested.induct with
  | leaf v => rfl
  | node es ih =>
    rw [redact_node, redact_node, List.map_map]
    congr 1
    refine List.map_congr_left fun e he => ?_
    by_cases hk : hides e.1 = true
    · simp only [Function.comp_apply, if_pos hk]
    · simp only [Function.comp_apply, if_neg hk, ih e he]

/-! ### What stands at a path -/

variable [DecidableEq κ]

theorem find?_redactEntries (es : List (κ × Nested κ ν)) (k : κ) :
    ((redactEntries hides mask es).find? fun e => e.1 = k).map (·.2) =
      ((es.find? fun e => e.1 = k).map (·.2)).map fun t => if hides k then mask else redact hides mask t := by
  induction es with
  | nil => rfl
  | cons e es ih =>
    obtain ⟨k', t⟩ := e
    rw [redactEntries]
    by_cases hk : k' = k
    · rw [List.find?_cons_of_pos (by simpa using hk), List.find?_cons_of_pos (by simpa using hk), hk]
      rfl
    · rw [List.find?_cons_of_neg (by simpa using hk), List.find?_cons_of_neg (by simpa using hk), ih]

/-- At a path with no hidden key stands what stood there, redacted. -/
theorem get?_redact {ks : List κ} (hks : ∀ k ∈ ks, hides k = false) (t : Nested κ ν) :
    (redact hides mask t).get? ks = (t.get? ks).map (redact hides mask) := by
  induction ks generalizing t with
  | nil =>
    rw [Nested.get?, Nested.get?, Option.map_some]
  | cons k ks ih =>
    cases t with
    | leaf v => rfl
    | node es =>
      have hk : hides k = false := hks k List.mem_cons_self
      rw [redact, Nested.get?, Nested.get?, find?_redactEntries]
      cases (es.find? fun e => e.1 = k).map (·.2) with
      | none => rfl
      | some u =>
        rw [Option.map_some, Option.bind_some, Option.bind_some, hk]
        exact ih (fun k' hk' => hks k' (List.mem_cons_of_mem _ hk')) u

/-- At the first hidden key of a path stands the mask, if the key is there. -/
theorem get?_redact_hidden {ks ks' : List κ} {k : κ} (hks : ∀ k ∈ ks, hides k = false) (hk : hides k = true)
    (t : Nested κ ν) :
    (redact hides mask t).get? (ks ++ k :: ks') = (t.get? (ks ++ [k])).bind fun _ => mask.get? ks' := by
  induction ks generalizing t with
  | nil =>
    cases t with
    | leaf v => rfl
    | node es =>
      rw [List.nil_append, List.nil_append, redact, Nested.get?, Nested.get?, find?_redactEntries]
      cases (es.find? fun e => e.1 = k).map (·.2) with
      | none => rfl
      | some u =>
        rw [Option.map_some, if_pos hk, Option.bind_some, Option.bind_some, Nested.get?, Option.bind_some]
  | cons k' ks ih =>
    cases t with
    | leaf v => rfl
    | node es =>
      have hk' : hides k' = false := hks k' List.mem_cons_self
      rw [List.cons_append, List.cons_append, redact, Nested.get?, Nested.get?, find?_redactEntries]
      cases (es.find? fun e => e.1 = k').map (·.2) with
      | none => rfl
      | some u =>
        rw [Option.map_some, Option.bind_some, Option.bind_some, hk']
        exact ih (fun j hj => hks j (List.mem_cons_of_mem _ hj)) u

end

end Redact
