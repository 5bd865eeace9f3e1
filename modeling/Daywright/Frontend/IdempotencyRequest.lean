/-
# The idempotency keys of the frontend

`createIdempotentRequest` remembers one request and its key. A request that is the same
as the remembered one is sent under its key, any other under a new one; a success, a
definitive error and `reset` make it forget, whichever request they are of. So a send that
completes while a newer one is under way takes the key of the newer one with it. And a
send that needs a key and cannot draw one has already put its request in the place of the
remembered one, whose key is then taken for its own (`overlap_loses_key`).

The keys follow the requests exactly in the runs in which neither happens (`follows_iff`).
Where no draw fails so, a key never stands for two requests, and what is not a retry gets a
new key, in whatever order the sends end (`sound_run`, `new_key`).

The events of a run are the sends, in the order in which they are started, with the key
that is drawn if one is needed, their completions in any order, and the resets.

Key definitions: `getKey`, `settle`, `step`, `remembered`, `Follows`, `inOrder`, `drawn`.
Key theorems: `sound_step`, `complete_step`, `follows_iff`.
-/
import Daywright.JsonText
import Mathlib.Data.List.Induction

namespace Daywright
namespace IdempotencyRequestService

open JsonText

/-- A request, its `data` and `params` null where they are missing. -/
structure Request where
  method : String
  url : String
  data : JsValue
  params : JsValue

/-- How a send ends; without a response, an error has no status. -/
inductive Outcome where
  | success
  | failure (status : Option ℕ)
  deriving DecidableEq, Repr

/-- What `createIdempotentRequest` closes over. -/
structure Helper where
  activeKey : Option String
  activeRequest : Option String
  deriving DecidableEq, Repr

def idempotencyRetryStatus : ℕ := 409

def shouldReuseKey : Option ℕ → Bool
  | none => true
  | some status => status == idempotencyRetryStatus

def createIdempotentRequest : Helper := ⟨none, none⟩

def reset : Helper := ⟨none, none⟩

def nextRequest (r : Request) : String :=
  stringify (.object [("method", .string r.method), ("url", .string r.url), ("data", r.data), ("params", r.params)])

/-- `!$key`. -/
def isFalsy (key : Option String) : Bool := key.all fun k => k == ""

/-- `generated` is the key that `createIdempotencyKey` would return; without a secure
random source it throws, and there is none. -/
def getKey (h : Helper) (r : Request) (generated : Option String) : Helper × Option String :=
  if h.activeRequest ≠ some (nextRequest r) ∨ isFalsy h.activeKey then
    match generated with
    | some key => (⟨some key, some (nextRequest r)⟩, some key)
    | none => (⟨h.activeKey, some (nextRequest r)⟩, none)
  else (h, h.activeKey)

/-- A success or a definitive error. -/
def resolves : Outcome → Bool
  | .success => true
  | .failure status => !shouldReuseKey status

/-- The end of a send. -/
def settle (h : Helper) (o : Outcome) : Helper := if resolves o then reset else h

/-! ### Runs -/

inductive Event where
  | send (r : Request) (generated : Option String)
  /-- The `i`-th send ends. -/
  | complete (i : ℕ) (o : Outcome)
  | reset

inductive Entry where
  | sent (r : Request) (key : String)
  | completed (i : ℕ) (o : Outcome)
  | reset

/-- The helper, and what has happened so far, the latest first. -/
structure State where
  helper : Helper
  log : List Entry

def step (s : State) : Event → State
  | .send r generated =>
    let (helper, key) := getKey s.helper r generated
    ⟨helper, (key.map (Entry.sent r)).toList ++ s.log⟩
  | .complete i o => ⟨settle s.helper o, .completed i o :: s.log⟩
  | .reset => ⟨reset, .reset :: s.log⟩

def start : State := ⟨createIdempotentRequest, []⟩

def run (es : List Event) : State := es.foldl step start

/-- The keys the server has seen. -/
def keys : List Entry → List String
  | [] => []
  | .sent _ k :: log => k :: keys log
  | _ :: log => keys log

/-- The sends that have ended. -/
def ended : List Entry → List ℕ
  | [] => []
  | .completed i _ :: log => i :: ended log
  | _ :: log => ended log

/-- A key that is generated is not empty, and was not generated before; a send ends once. -/
def possible (s : State) : Event → Bool
  | .send _ generated => generated.all fun k => k != "" && !(keys s.log).contains k
  | .complete i _ => decide (i < (keys s.log).length) && !(ended s.log).contains i
  | .reset => true

/-- Every step of a run is such. -/
def Each (p : State → Event → Bool) (es : List Event) : Prop :=
  ∀ before e, before ++ [e] <+: es → p (run before) e = true

/-- The same, computed. -/
def eachFrom (p : State → Event → Bool) : State → List Event → Bool
  | _, [] => true
  | s, e :: es => p s e && eachFrom p (step s e) es

/-! ### What the keys should be -/

/-- The last request sent and its key, while its outcome is unknown and nothing was reset. -/
def remembered : List Entry → Option (Request × String)
  | [] => none
  | .sent r k :: _ => some (r, k)
  | .completed i o :: log => if i + 1 = (keys log).length ∧ resolves o = true then none else remembered log
  | .reset :: _ => none

/-- The keys follow the requests. -/
structure Follows (es : List Event) : Prop where
  /-- The last request, sent again while its outcome is unknown, has its key. -/
  reuses : ∀ log r k k', .sent r k :: log <:+ (run es).log → remembered log = some (r, k') → k = k'
  /-- Any other request has a key that was never used. -/
  isNew : ∀ log r k, .sent r k :: log <:+ (run es).log → (∀ k', remembered log ≠ some (r, k')) → k ∉ keys log
  /-- The end of a send leaves the key of a newer one. -/
  keeps : ∀ before i o, before ++ [.complete i o] <+: es → i + 1 ≠ (keys (run before).log).length →
    (run (before ++ [.complete i o])).helper.activeKey = (run before).helper.activeKey
  /-- A key stands for one request. -/
  oneRequest : ∀ r r' k, .sent r k ∈ (run es).log → .sent r' k ∈ (run es).log → r = r'
  /-- The key that a request would be sent under next without a new one is its own, and
  the last request, while its outcome is unknown, has one. -/
  next : ∀ before, before <+: es → ∀ r k,
    (getKey (run before).helper r none).2 = some k ↔ remembered (run before).log = some (r, k)

/-- A send that ends in a success or a definitive error is the last one, or no key is
remembered any more. -/
def inOrder (s : State) : Event → Bool
  | .complete i o => !resolves o || decide (i + 1 = (keys s.log).length) || s.helper.activeKey.isNone
  | _ => true

/-- A send for which no key can be drawn needs none, or there is none to be taken for it. -/
def drawn (s : State) : Event → Bool
  | .send r none => decide (s.helper.activeRequest = some (nextRequest r)) || isFalsy s.helper.activeKey
  | _ => true

theorem nextRequest_injective : Function.Injective nextRequest := by
  intro r r' h
  have hv := stringify_injective h
  simp only [JsValue.object.injEq, List.cons.injEq, Prod.mk.injEq, JsValue.string.injEq, true_and, and_true] at hv
  obtain ⟨hm, hu, hd, hp⟩ := hv
  cases r
  cases r'
  cases hm
  cases hu
  cases hd
  cases hp
  rfl

/-! ### One step -/

variable {s : State} {e : Event} {es : List Event} {log : List Entry} {r r' : Request} {k k' : String} {h : Helper}

/-- The two ways to get a key, it is the remembered one or the one that is generated;
and the way to get none. -/
theorem getKey_cases (h : Helper) (r : Request) (generated : Option String) :
    (h.activeRequest = some (nextRequest r) ∧ isFalsy h.activeKey = false ∧ getKey h r generated = (h, h.activeKey)) ∨
    ((h.activeRequest ≠ some (nextRequest r) ∨ isFalsy h.activeKey = true) ∧
      ((∃ k, generated = some k ∧ getKey h r generated = (⟨some k, some (nextRequest r)⟩, some k)) ∨
        generated = none ∧ getKey h r generated = (⟨h.activeKey, some (nextRequest r)⟩, none))) := by
  by_cases hnew : h.activeRequest ≠ some (nextRequest r) ∨ isFalsy h.activeKey = true
  · refine .inr ⟨hnew, ?_⟩
    cases generated with
    | none => exact .inr ⟨rfl, if_pos hnew⟩
    | some k => exact .inl ⟨k, rfl, if_pos hnew⟩
  · refine .inl ⟨?_, ?_, if_neg hnew⟩
    · by_contra hr
      exact hnew (.inl hr)
    · exact Bool.eq_false_iff.mpr fun hk => hnew (.inr hk)

theorem possible_send (hp : possible s (.send r (some k)) = true) : isFalsy (some k) = false ∧ k ∉ keys s.log := by
  simp only [possible, Option.all_some, Bool.and_eq_true, Bool.not_eq_true', bne_iff_ne] at hp
  constructor
  · simpa [isFalsy] using hp.1
  · simpa using hp.2

theorem mem_keys {log : List Entry} : k ∈ keys log ↔ ∃ r, Entry.sent r k ∈ log := by
  induction log with
  | nil => simp [keys]
  | cons x log ih =>
    cases x with
    | sent r k' => simp [keys, ih, exists_or, eq_comm]
    | completed i o => simp [keys, ih]
    | reset => simp [keys, ih]

/-- What is remembered was sent. -/
theorem sent_of_remembered : ∀ {log : List Entry}, remembered log = some (r, k) → Entry.sent r k ∈ log
  | .sent r' k' :: log, h => by
    cases h
    exact List.mem_cons_self
  | .completed i o :: log, h => by
    rw [remembered] at h
    split at h
    · cases h
    · exact List.mem_cons_of_mem _ (sent_of_remembered h)

/-- The helper remembers no key, or what it should. -/
structure Sound (s : State) : Prop where
  remembers : s.helper.activeKey = none ∨
    ∃ r k, s.helper = ⟨some k, some (nextRequest r)⟩ ∧ isFalsy (some k) = false ∧ remembered s.log = some (r, k)
  oneRequest : ∀ r r' k, .sent r k ∈ s.log → .sent r' k ∈ s.log → r = r'

/-- A send, with what is remembered before it; without a key, nothing is sent. -/
theorem send_cases (hs : Sound s) {generated : Option String} (hp : possible s (.send r generated) = true)
    (hd : drawn s (.send r generated) = true) :
    (∃ k, isFalsy (some k) = false ∧
      step s (.send r generated) = ⟨⟨some k, some (nextRequest r)⟩, .sent r k :: s.log⟩ ∧
      (s.helper = ⟨some k, some (nextRequest r)⟩ ∧ remembered s.log = some (r, k) ∨
        (∀ k', s.helper ≠ ⟨some k', some (nextRequest r)⟩) ∧ k ∉ keys s.log)) ∨
    s.helper.activeKey = none ∧ step s (.send r generated) = ⟨⟨none, some (nextRequest r)⟩, s.log⟩ := by
  obtain ⟨hreq, hkey, hget⟩ | ⟨hor, ⟨k, rfl, hget⟩ | ⟨rfl, hget⟩⟩ := getKey_cases s.helper r generated
  · obtain hnone | ⟨r', k', hh, hk', hrem⟩ := hs.remembers
    · rw [hnone] at hkey
      cases hkey
    · rw [hh] at hreq
      obtain rfl := nextRequest_injective (Option.some.inj hreq)
      refine .inl ⟨k', hk', ?_, .inl ⟨hh, hrem⟩⟩
      simp only [step, hget]
      rw [hh]
      rfl
  · obtain ⟨hk, hnew⟩ := possible_send hp
    refine .inl ⟨k, hk, ?_, .inr ⟨fun k' hh => ?_, hnew⟩⟩
    · simp only [step, hget]
      rfl
    · obtain hnone | ⟨r', k'', hh', hk'', -⟩ := hs.remembers
      · rw [hh] at hnone
        cases hnone
      · rw [hh'] at hor hh
        obtain hor | hor := hor
        · exact hor (Helper.mk.inj hh).2
        · rw [hk''] at hor
          cases hor
  · have hfalsy : isFalsy s.helper.activeKey = true := by
      simp only [drawn, Bool.or_eq_true, decide_eq_true_eq] at hd
      exact hor.elim (fun hne => hd.resolve_left hne) id
    have hnone : s.helper.activeKey = none := by
      refine hs.remembers.resolve_right ?_
      rintro ⟨r', k', hh, hk', -⟩
      rw [hh, hk'] at hfalsy
      cases hfalsy
    refine .inr ⟨hnone, ?_⟩
    simp only [step, hget, hnone]
    rfl

theorem remembered_completed (i : ℕ) {o : Outcome} (ho : resolves o = false) (log : List Entry) :
    remembered (.completed i o :: log) = remembered log := by
  rw [remembered, if_neg fun h => by rw [ho] at h; exact absurd h.2 Bool.false_ne_true]

theorem settle_of_resolves {o : Outcome} (ho : resolves o = true) (h : Helper) : settle h o = ⟨none, none⟩ := if_pos ho

theorem settle_of_unresolved {o : Outcome} (ho : resolves o = false) (h : Helper) : settle h o = h :=
  if_neg (Bool.eq_false_iff.mp ho)

theorem sound_step (hs : Sound s) (hp : possible s e = true) (hd : drawn s e = true) : Sound (step s e) := by
  cases e with
  | send r generated =>
    obtain ⟨k, hk, hstep, hor⟩ | ⟨-, hstep⟩ := send_cases hs hp hd
    case inr =>
      rw [hstep]
      exact ⟨.inl rfl, hs.oneRequest⟩
    have hsame : ∀ r', Entry.sent r' k ∈ s.log → r' = r := by
      intro r' hr'
      obtain ⟨-, hrem⟩ | ⟨-, hnew⟩ := hor
      · exact hs.oneRequest r' r k hr' (sent_of_remembered hrem)
      · exact absurd (mem_keys.mpr ⟨r', hr'⟩) hnew
    rw [hstep]
    refine ⟨.inr ⟨r, k, rfl, hk, rfl⟩, fun r₁ r₂ k' h₁ h₂ => ?_⟩
    obtain h₁ | h₁ := List.mem_cons.mp h₁ <;> obtain h₂ | h₂ := List.mem_cons.mp h₂
    · cases h₁
      cases h₂
      rfl
    · cases h₁
      exact (hsame r₂ h₂).symm
    · cases h₂
      exact hsame r₁ h₁
    · exact hs.oneRequest r₁ r₂ k' h₁ h₂
  | complete i o =>
    refine ⟨?_, fun r r' k h h' => ?_⟩
    · by_cases ho : resolves o = true
      · exact .inl (congrArg Helper.activeKey (settle_of_resolves ho s.helper))
      · rw [Bool.not_eq_true] at ho
        simp only [step, settle_of_unresolved ho, remembered_completed i ho]
        exact hs.remembers
    · have h : Entry.sent r k ∈ s.log := by simpa [step] using h
      have h' : Entry.sent r' k ∈ s.log := by simpa [step] using h'
      exact hs.oneRequest r r' k h h'
  | reset =>
    refine ⟨.inl rfl, fun r r' k h h' => ?_⟩
    have h : Entry.sent r k ∈ s.log := by simpa [step] using h
    have h' : Entry.sent r' k ∈ s.log := by simpa [step] using h'
    exact hs.oneRequest r r' k h h'

/-- As long as the sends end in order, the helper remembers all it should. -/
def Complete (s : State) : Prop :=
  ∀ r k, remembered s.log = some (r, k) → s.helper = ⟨some k, some (nextRequest r)⟩

theorem complete_step (hs : Sound s) (hc : Complete s) (hp : possible s e = true) (hd : drawn s e = true)
    (ho : inOrder s e = true) : Complete (step s e) := by
  cases e with
  | send r generated =>
    obtain ⟨k, -, hstep, -⟩ | ⟨hnone, hstep⟩ := send_cases hs hp hd
    · rw [hstep]
      intro r' k' hrem
      cases hrem
      rfl
    · rw [hstep]
      intro r' k' hrem
      rw [hc r' k' hrem] at hnone
      cases hnone
  | complete i o =>
    intro r k hrem
    have hlog : (step s (.complete i o)).log = .completed i o :: s.log := rfl
    rw [hlog, remembered] at hrem
    split at hrem
    · cases hrem
    rename_i hlast
    have hh := hc r k hrem
    have hunresolved : resolves o = false := by
      by_contra hres
      rw [Bool.not_eq_false] at hres
      simp only [inOrder, hres, hh, Bool.not_true, Bool.false_or, Option.isNone_some, Bool.or_false,
        decide_eq_true_eq] at ho
      exact hlast ⟨ho, hres⟩
    rw [← hh]
    exact settle_of_unresolved hunresolved s.helper
  | reset =>
    intro r k hrem
    cases hrem

/-! ### Runs -/

theorem run_append (es : List Event) (e : Event) : run (es ++ [e]) = step (run es) e := List.foldl_concat ..

theorem each_append {p : State → Event → Bool} : Each p (es ++ [e]) ↔ Each p es ∧ p (run es) e = true := by
  constructor
  · intro h
    exact ⟨fun before e' hb => h before e' (hb.trans (List.prefix_append _ _)), h es e List.prefix_rfl⟩
  · rintro ⟨hes, he⟩ before e' hb
    rcases List.prefix_concat_iff.mp hb with heq | hb
    · obtain ⟨rfl, he'⟩ := List.append_inj' heq rfl
      cases he'
      exact he
    · exact hes before e' hb

theorem sound_run (h : Each possible es) (hd : Each drawn es) : Sound (run es) := by
  induction es using List.reverseRecOn with
  | nil => exact ⟨.inl rfl, fun r r' k h => absurd h List.not_mem_nil⟩
  | append_singleton es e ih =>
    obtain ⟨hes, he⟩ := each_append.mp h
    obtain ⟨hds, hde⟩ := each_append.mp hd
    rw [run_append]
    exact sound_step (ih hes hds) he hde

theorem complete_run (h : Each possible es) (hd : Each drawn es) (ho : Each inOrder es) : Complete (run es) := by
  induction es using List.reverseRecOn with
  | nil =>
    intro r k hrem
    cases hrem
  | append_singleton es e ih =>
    obtain ⟨hes, he⟩ := each_append.mp h
    obtain ⟨hds, hde⟩ := each_append.mp hd
    obtain ⟨hos, hoe⟩ := each_append.mp ho
    rw [run_append]
    exact complete_step (sound_run hes hds) (ih hes hds hos) he hde hoe

theorem not_prefix_nil {before : List Event} (hb : before ++ [e] <+: []) : False :=
  List.append_ne_nil_of_right_ne_nil before (List.cons_ne_nil e []) (List.prefix_nil.mp hb)

theorem each_of_eachFrom {p : State → Event → Bool} : ∀ {es : List Event} {s : State}, eachFrom p s es = true →
    ∀ before e, before ++ [e] <+: es → p (before.foldl step s) e = true
  | [], _, _, _, _, hb => (not_prefix_nil hb).elim
  | e' :: es, s, h, [], e, hb => by
    obtain ⟨rfl, -⟩ := List.cons_prefix_cons.mp hb
    exact (Bool.and_eq_true_iff.mp h).1
  | e' :: es, s, h, b :: before, e, hb => by
    obtain ⟨rfl, hrest⟩ := List.cons_prefix_cons.mp hb
    exact each_of_eachFrom (Bool.and_eq_true_iff.mp h).2 before e hrest

theorem Each.of_prefix {p : State → Event → Bool} {before : List Event} (h : Each p es) (hb : before <+: es) :
    Each p before := fun before' e he => h before' e (he.trans hb)

theorem log_step_of_not_send (hs : ∀ r generated, e ≠ .send r generated) :
    ∃ x, (∀ r k, x ≠ .sent r k) ∧ (step s e).log = x :: s.log := by
  cases e with
  | send r generated => exact absurd rfl (hs r generated)
  | complete i o => exact ⟨.completed i o, nofun, rfl⟩
  | reset => exact ⟨.reset, nofun, rfl⟩

/-- Every send of the log is a step of the run. -/
theorem exists_send_of_suffix (h : Each possible es) (hd : Each drawn es) (hsuf : .sent r k :: log <:+ (run es).log) :
    ∃ before generated, before ++ [.send r generated] <+: es ∧ (run before).log = log ∧
      (run (before ++ [.send r generated])).log = .sent r k :: log := by
  induction es using List.reverseRecOn with
  | nil => exact absurd (List.suffix_nil.mp hsuf) (List.cons_ne_nil _ _)
  | append_singleton es e ih =>
    obtain ⟨hes, he⟩ := each_append.mp h
    obtain ⟨hds, hde⟩ := each_append.mp hd
    have earlier (hsuf : .sent r k :: log <:+ (run es).log) : ∃ before generated,
        before ++ [.send r generated] <+: es ++ [e] ∧ (run before).log = log ∧
          (run (before ++ [.send r generated])).log = .sent r k :: log := by
      obtain ⟨before, generated, hb, hlog, hstep⟩ := ih hes hds hsuf
      exact ⟨before, generated, hb.trans (List.prefix_append _ _), hlog, hstep⟩
    rw [run_append] at hsuf
    by_cases hsend : ∃ r' generated, e = .send r' generated
    · obtain ⟨r', generated, rfl⟩ := hsend
      obtain ⟨k', -, hstep, -⟩ | ⟨-, hstep⟩ := send_cases (sound_run hes hds) he hde
      · rw [hstep] at hsuf
        rcases List.suffix_cons_iff.mp hsuf with heq | hsuf
        · obtain ⟨hent, hlog⟩ := List.cons.inj heq
          cases hent
          exact ⟨es, generated, List.prefix_rfl, hlog.symm, by rw [run_append, hstep, hlog]⟩
        · exact earlier hsuf
      · rw [hstep] at hsuf
        exact earlier hsuf
    · obtain ⟨x, hx, hlog⟩ := log_step_of_not_send (s := run es) fun r' generated he' => hsend ⟨r', generated, he'⟩
      rw [hlog] at hsuf
      rcases List.suffix_cons_iff.mp hsuf with heq | hsuf
      · exact absurd (List.cons.inj heq).1.symm (hx r k)
      · exact earlier hsuf

/-- A send of the log was made from a sound state, with its key remembered or new. -/
theorem sent_cases (h : Each possible es) (hd : Each drawn es) (hsuf : .sent r k :: log <:+ (run es).log) :
    ∃ before, before <+: es ∧ (run before).log = log ∧
      ((run before).helper = ⟨some k, some (nextRequest r)⟩ ∧ remembered log = some (r, k) ∨
        (∀ k', (run before).helper ≠ ⟨some k', some (nextRequest r)⟩) ∧ k ∉ keys log) := by
  obtain ⟨before, generated, hb, rfl, hlog⟩ := exists_send_of_suffix h hd hsuf
  have hbefore := (List.prefix_append before [.send r generated]).trans hb
  have hs := sound_run (h.of_prefix hbefore) (hd.of_prefix hbefore)
  rw [run_append] at hlog
  refine ⟨before, hbefore, rfl, ?_⟩
  obtain ⟨k', -, hstep, hor⟩ | ⟨-, hstep⟩ := send_cases hs (h before _ hb) (hd before _ hb)
  · rw [hstep] at hlog
    obtain rfl : k' = k := (Entry.sent.inj (List.cons.inj hlog).1).2
    exact hor
  · rw [hstep] at hlog
    exact absurd hlog.symm (List.cons_ne_self _ _)

/-- The last request, sent again while its outcome is unknown, has its key. -/
theorem reused_key (h : Each possible es) (hd : Each drawn es) (ho : Each inOrder es)
    (hsuf : .sent r k :: log <:+ (run es).log) (hrem : remembered log = some (r, k')) : k = k' := by
  obtain ⟨before, hb, rfl, ⟨-, hrem'⟩ | ⟨hnot, -⟩⟩ := sent_cases h hd hsuf
  · exact (Prod.mk.inj (Option.some.inj (hrem'.symm.trans hrem))).2
  · exact absurd (complete_run (h.of_prefix hb) (hd.of_prefix hb) (ho.of_prefix hb) r k' hrem) (hnot k')

/-- **What is not a retry gets a new key**, in whatever order the sends end. -/
theorem new_key (h : Each possible es) (hd : Each drawn es) (hsuf : .sent r k :: log <:+ (run es).log)
    (hrem : ∀ k', remembered log ≠ some (r, k')) : k ∉ keys log := by
  obtain ⟨-, -, -, ⟨-, hr⟩ | ⟨-, hnew⟩⟩ := sent_cases h hd hsuf
  · exact absurd hr (hrem k)
  · exact hnew

/-- What the helper has for a request is its key, in a sound state that has all of them. -/
theorem getKey_iff (hs : Sound s) (hc : Complete s) :
    (getKey s.helper r none).2 = some k ↔ remembered s.log = some (r, k) := by
  constructor
  · intro hget
    obtain ⟨hreq, -, heq⟩ | ⟨-, ⟨k', hk', -⟩ | ⟨-, heq⟩⟩ := getKey_cases s.helper r none
    · rw [heq] at hget
      obtain hnone | ⟨r', k', hh, -, hrem⟩ := hs.remembers
      · rw [hnone] at hget
        cases hget
      · rw [hh] at hreq hget
        rw [hrem, nextRequest_injective (Option.some.inj hreq), Option.some.inj hget]
    · cases hk'
    · rw [heq] at hget
      cases hget
  · intro hrem
    have hh := hc r k hrem
    obtain hnone | ⟨r', k', hh', hk', -⟩ := hs.remembers
    · rw [hh] at hnone
      cases hnone
    · obtain rfl : k = k' := Option.some.inj (Helper.mk.inj (hh.symm.trans hh')).1
      rw [hh, getKey, if_neg (by simp [hk'])]

theorem Follows.of_append (hf : Follows (es ++ [e])) (hlog : (run es).log <:+ (run (es ++ [e])).log) : Follows es where
  reuses log r k k' hsuf := hf.reuses log r k k' (hsuf.trans hlog)
  isNew log r k hsuf := hf.isNew log r k (hsuf.trans hlog)
  keeps before i o hb := hf.keeps before i o (hb.trans (List.prefix_append _ _))
  oneRequest r r' k hr hr' := hf.oneRequest r r' k (hlog.subset hr) (hlog.subset hr')
  next before hb := hf.next before (hb.trans (List.prefix_append _ _))

theorem log_suffix_step (s : State) (e : Event) : s.log <:+ (step s e).log := by
  cases e with
  | send r generated => exact List.suffix_append _ _
  | complete i o => exact List.suffix_cons _ _
  | reset => exact List.suffix_cons _ _

/-- A send for which no key can be drawn would leave the key of another request to its own. -/
theorem drawn_of_next (hs : Sound s)
    (hnext : ∀ r k, (getKey (step s e).helper r none).2 = some k → remembered (step s e).log = some (r, k)) :
    drawn s e = true := by
  by_contra hnot
  cases e with
  | complete | reset => exact hnot rfl
  | send r generated =>
    cases generated with
    | some k => exact hnot rfl
    | none =>
      simp only [drawn, Bool.or_eq_true, decide_eq_true_eq, not_or] at hnot
      obtain hnone | ⟨r', k, hh, hk, hrem⟩ := hs.remembers
      · rw [hnone] at hnot
        exact hnot.2 rfl
      · have hstep : step s (.send r none) = ⟨⟨some k, some (nextRequest r)⟩, s.log⟩ := by
          simp only [step, getKey, if_pos (Or.inl hnot.1)]
          rw [hh]
          rfl
        rw [hstep] at hnext
        have hrem' := hnext r k (by rw [getKey, if_neg (by simp [hk])])
        rw [hh, (Prod.mk.inj (Option.some.inj (hrem.symm.trans hrem'))).1] at hnot
        exact hnot.1 rfl

/-- Where the keys follow the requests, no draw fails while the key of another request is
remembered. -/
theorem drawn_of_follows (h : Each possible es) (hf : Follows es) : Each drawn es := by
  induction es using List.reverseRecOn with
  | nil => exact fun _ _ hb => (not_prefix_nil hb).elim
  | append_singleton es e ih =>
    obtain ⟨hes, he⟩ := each_append.mp h
    have hds := ih hes (hf.of_append (by rw [run_append]; exact log_suffix_step _ _))
    refine each_append.mpr ⟨hds, drawn_of_next (sound_run hes hds) fun r k hget => ?_⟩
    rw [← run_append] at hget ⊢
    exact (hf.next _ List.prefix_rfl r k).mp hget

/-- Where the keys follow the requests, no send takes the key of a newer one with it. -/
theorem inOrder_of_follows (hf : Follows es) : Each inOrder es := by
  intro before e hb
  cases e with
  | send r generated => rfl
  | reset => rfl
  | complete i o =>
    by_cases hres : resolves o = true
    · by_cases hlast : i + 1 = (keys (run before).log).length
      · simp [inOrder, hlast]
      · have hkeep := hf.keeps before i o hb hlast
        have hnone : (run (before ++ [.complete i o])).helper = ⟨none, none⟩ := by
          rw [run_append]
          exact settle_of_resolves hres _
        rw [hnone] at hkeep
        simp [inOrder, ← hkeep]
    · simp [inOrder, hres]

/-- A send that ends in order leaves the key of a newer one. -/
theorem activeKey_complete {i : ℕ} {o : Outcome} (ho : inOrder s (.complete i o) = true)
    (hlast : i + 1 ≠ (keys s.log).length) : (step s (.complete i o)).helper.activeKey = s.helper.activeKey := by
  by_cases hres : resolves o = true
  · have hafter : (step s (.complete i o)).helper = ⟨none, none⟩ := settle_of_resolves hres _
    simp only [inOrder, hres, Bool.not_true, Bool.false_or, hlast, decide_false, Option.isNone_iff_eq_none] at ho
    rw [hafter, ho]
  · rw [Bool.not_eq_true] at hres
    exact congrArg Helper.activeKey (settle_of_unresolved hres s.helper)

/-- **The keys follow the requests** exactly if no send ends, in a success or a definitive
error, after a newer one was started whose key is still remembered, and no key fails to be
drawn for a request while that of another is remembered. -/
theorem follows_iff (h : Each possible es) : Follows es ↔ Each inOrder es ∧ Each drawn es := by
  refine ⟨fun hf => ⟨inOrder_of_follows hf, drawn_of_follows h hf⟩, fun ⟨ho, hd⟩ => ?_⟩
  refine ⟨fun log r k k' hsuf => reused_key h hd ho hsuf, fun log r k hsuf => new_key h hd hsuf,
    fun before i o hb hlast => ?_, (sound_run h hd).oneRequest, fun before hb r k => ?_⟩
  · rw [run_append]
    exact activeKey_complete (ho before _ hb) hlast
  · have hs := sound_run (h.of_prefix hb) (hd.of_prefix hb)
    exact getKey_iff hs (complete_run (h.of_prefix hb) (hd.of_prefix hb) (ho.of_prefix hb))

/-! ### Runs in which they do not -/

namespace Sample

def accept (slug : String) : Request := ⟨"post", "/projects/" ++ slug ++ "/invitations/accept", .null, .null⟩

/-- A network failure, and the retry. -/
def retry : List Event :=
  [.send (accept "one") (some "k1"), .complete 0 (.failure none), .send (accept "one") (some "k2")]

/-- While the second request is under way, the first succeeds; the second fails on the
network, and is sent again. -/
def overlap : List Event :=
  [.send (accept "one") (some "k1"), .send (accept "two") (some "k2"), .complete 0 .success,
    .complete 1 (.failure none), .send (accept "two") (some "k3")]

/-- No key can be drawn for the second request while the first is under way; then it is
sent again. -/
def failedDraw : List Event :=
  [.send (accept "one") (some "k1"), .send (accept "two") none, .send (accept "two") (some "k2")]

end Sample

theorem follows_iff_retry : Follows Sample.retry := by
  have h : Each possible Sample.retry := each_of_eachFrom (by decide +kernel)
  exact (follows_iff h).mpr ⟨each_of_eachFrom (by decide +kernel), each_of_eachFrom (by decide +kernel)⟩

/-- The retry of the second request has a key of its own; and where no key was drawn for
it, it is sent under the key of the first. -/
theorem overlap_loses_key : (Each possible Sample.overlap ∧ ¬ Follows Sample.overlap) ∧
    Each possible Sample.failedDraw ∧ ¬ Follows Sample.failedDraw := by
  refine ⟨⟨each_of_eachFrom (by decide +kernel), fun hf => ?_⟩, each_of_eachFrom (by decide +kernel), fun hf => ?_⟩
  · have hlog : (run Sample.overlap).log = [.sent (Sample.accept "two") "k3", .completed 1 (.failure none),
        .completed 0 .success, .sent (Sample.accept "two") "k2", .sent (Sample.accept "one") "k1"] := by
      rfl
    have hkey : "k3" = "k2" := hf.reuses _ (Sample.accept "two") "k3" "k2" ⟨[], hlog.symm⟩ rfl
    exact absurd hkey (by decide)
  · have hlog : (run Sample.failedDraw).log =
        [.sent (Sample.accept "two") "k1", .sent (Sample.accept "one") "k1"] := by
      rfl
    have hshared := hf.oneRequest (Sample.accept "two") (Sample.accept "one") "k1"
    rw [hlog] at hshared
    have heq := hshared List.mem_cons_self (List.mem_cons_of_mem _ List.mem_cons_self)
    exact absurd (congrArg Request.url heq) (by decide)

end IdempotencyRequestService
end Daywright
