/-
# No message stays claimed

A claim has no lease: it is given up by the process that holds it, or by the
callbacks of its batch. If that process crashes, or the statement that gives it up
fails, the message stays claimed and no pass selects it again (`claimed_forever`).
In a run without such a step (`KeepsClaim`) a message that is claimed and not
delivered is in flight: a process holds its claim, a job of its batch has still to
run, or the batch's callbacks are being run. One that is not in flight, and is due,
is selected by the next pass (`in_flight_or_selected`).

Key definitions: `Point.Holds`, `Pending`, `InFlight`, `KeepsClaim`, `Selected`.
Key theorems: `in_flight_or_selected`, `claimed_forever`.
-/
import Daywright.Messages.Outline

namespace Daywright
namespace Messages

open Interleave DispatchProjectMessageAction

variable {s s' : Store} {p q : Point} {e : Input} {m m' : Message} {b b' : Batch} {k : Option Point}
  {tr : List (Step Store Point Input)} {c c' : Config Store Point} {a : Act Point Input}

/-- The claim a process has to dispatch or to release. -/
def Point.dispatching : Point → Option (ℕ × String)
  | .findClaimedMessage _ messageId token _ => some (messageId, token)
  | .dispatchBatch _ m token _ => some (m.id, token)
  | .releaseClaim messageId token _ => some (messageId, token)
  | _ => none

theorem Point.token_of_dispatching {x : ℕ × String} (h : p.dispatching = some x) : p.token = some x := by
  cases p with
  | findClaimedMessage | dispatchBatch | releaseClaim => exact h
  | _ => cases h

/-- The process holds the message's claim, or runs the callbacks of its batch. -/
def Point.Holds (p : Point) (m : Message) : Prop :=
  (∃ t, p.dispatching = some (m.id, t) ∧ m.batchId = some t) ∨ ∃ batchId, p.callback = some (batchId, m.id)

/-- A batch of the message has been dispatched, and a job of it has still to run. -/
def Pending (s : Store) (messageId : ℕ) : Prop :=
  ∃ b ∈ s.batches, b.messageId = messageId ∧ ∃ j ∈ b.jobs, j.result = none

def InFlight (c : Config Store Point) (m : Message) : Prop :=
  (∃ p ∈ c.procs, p.Holds m) ∨ Pending c.store m.id

/-- The message is not delivered, and its claim is in the hands of the process alone. -/
def Depends (s : Store) (p : Point) (m : Message) : Prop :=
  m ∈ s.rows ∧ m.delivered = false ∧ m.batchId ≠ none ∧ p.Holds m ∧ ¬ Pending s m.id

/-- The step of the process does not lose a claim. -/
def Answered (s : Store) (p : Point) (e : Input) : Prop :=
  match p with
  | .execute _ messageId _ =>
    (∃ m ∈ s.rows, m.id = messageId ∧ canDispatch m = true) → ∀ x, e.answer ≠ .throwsAfter x
  | .findClaimedMessage _ _ _ _ => (∃ m, Depends s p m) → e.answer = .returned
  | .dispatchBatch _ m₀ _ _ => (∃ m, Depends s p m) → e.answer = .returned → jobs m₀ ≠ []
  | .releaseClaim _ _ _ => (∃ m, Depends s p m) → e.answer.applies = true
  | .finallyCallback _ _ => (∃ m, Depends s p m) → e.answer.applies = true
  | _ => True

/-- No process crashes that a claim depends on, and no step loses one. -/
def KeepsClaim (st : Step Store Point Input) : Prop :=
  match st.act with
  | .arrive _ => True
  | .crash i => ∀ p, st.pre.procs[i]? = some p → ∀ m, ¬ Depends st.pre.store p m
  | .move i e => ∀ p, st.pre.procs[i]? = some p → Answered st.pre.store p e

/-- Every message that is claimed and not delivered is in flight. -/
def NoneStuck (c : Config Store Point) : Prop :=
  ∀ m ∈ c.store.rows, m.delivered = false → m.batchId ≠ none → InFlight c m

/-! ### Jobs to run -/

theorem job?_of_mem (hI : Inv s) (hb : b ∈ s.batches) {i : ℕ} {j : QueuedJob} (hj : b.jobs[i]? = some j) :
    s.job? b.id i = some (b, j) := by
  have hf : s.batches.find? (·.id == b.id) = some b :=
    Table.find?_of_key hI.batchIds (fun b' _ he => by simpa using he) hb (by simp)
  simp [Store.job?, hf, hj]

theorem callbacks_of_ran (h : b.allJobsHaveRanExactlyOnce = true) :
    ∃ q, callbacks b = some q ∧ q.callback = some (b.id, b.messageId) := by
  rw [callbacks, if_pos h]
  split
  · exact ⟨_, rfl, rfl⟩
  · exact ⟨_, rfl, rfl⟩

/-- The record of a result that lets no job of the batch to run leads to its callbacks. -/
theorem act_record (hI : Inv s) (hb : b ∈ s.batches) {i : ℕ} {j : QueuedJob} {result : JobResult}
    (hj : b.jobs[i]? = some j) (hr : j.result = none) (happ : e.answer.applies = true) :
    act s (.record b.id i result) e = (s.setJob b.id i { j with result := some result },
      callbacks { b with jobs := b.jobs.set i { j with result := some result } }) := by
  simp [act, worker, job?_of_mem hI hb hj, hr, workerStep, Store.after, happ]

theorem act_record_throws (hI : Inv s) (hb : b ∈ s.batches) {i : ℕ} {j : QueuedJob} {result : JobResult}
    (hj : b.jobs[i]? = some j) (hr : j.result = none) (happ : e.answer.applies = false) :
    act s (.record b.id i result) e = (s, none) := by
  simp [act, worker, job?_of_mem hI hb hj, hr, workerStep, Store.after, happ]

/-- A job stays to be run, or the last result has come in and the callbacks are run. -/
theorem Moved.pending (h : Moved s p e s' k) (hI : Inv s) {id : ℕ} (hp : Pending s id) :
    Pending s' id ∨ ∃ q batchId, k = some q ∧ q.callback = some (batchId, id) := by
  obtain ⟨b, hb, hid, j, hj, hr⟩ := hp
  obtain ⟨i, hi⟩ := List.mem_iff_getElem?.mp hj
  obtain ⟨b', hb', he⟩ := (h.batches_step hI).next (fun _ => .keep) hb
  by_cases hran : b'.allJobsHaveRanExactlyOnce = true
  · cases he with
    | keep =>
      obtain ⟨r, hr'⟩ := allRan_iff.mp hran j hj
      rw [hr] at hr'
      cases hr'
    | @attempted i' j' hj' =>
      exfalso
      obtain ⟨hlt, -⟩ := List.getElem?_eq_some_iff.mp hi
      by_cases hii : i' = i
      · subst hii
        rw [hj'] at hi
        cases hi
        obtain ⟨r, hr'⟩ := allRan_iff.mp hran _ (List.mem_set hlt _)
        rw [hr] at hr'
        cases hr'
      · have hstay : (b.jobs.set i' { j' with attempts := j'.attempts + 1 })[i]? = some j := by
          rw [List.getElem?_set_ne hii, hi]
        obtain ⟨r, hr'⟩ := allRan_iff.mp hran j (List.mem_of_getElem? hstay)
        rw [hr] at hr'
        cases hr'
    | @recorded i' j' result hpe hj' hr' =>
      subst hpe
      cases happ : e.answer.applies with
      | true =>
        obtain ⟨q, hq, hc⟩ := callbacks_of_ran hran
        refine .inr ⟨q, b.id, ?_, hid ▸ hc⟩
        rw [h.next, act_record hI hb hj' hr' happ]
        exact hq
      | false =>
        refine .inl ⟨b, ?_, hid, j, hj, hr⟩
        rw [h.batches, act_record_throws hI hb hj' hr' happ]
        exact hb
  · have hleft : ∃ j ∈ b'.jobs, j.result = none := by
      by_contra hn
      push Not at hn
      exact hran (allRan_iff.mpr fun j hj => Option.ne_none_iff_exists'.mp (hn j hj))
    exact .inl ⟨b', hb', he.later.messageId.trans hid, hleft⟩

/-! ### What a step does to a claimed message -/

theorem act_execute (hI : Inv s) (hm : m ∈ s.rows) (hc : canDispatch m = true) {projectId : ℕ} {caller : Caller}
    (ha : e.answer = .returned) : (act s (.execute projectId m.id caller) e).2 =
      some (.findClaimedMessage projectId m.id (claimToken e.uuid) caller) := by
  have hf : s.rows.find? (·.id == m.id) = some m :=
    Table.find?_of_key hI.ids (fun m' _ he => by simpa using he) hm (by simp)
  simp [act, execute, hf, hc, ha]

theorem act_findClaimedMessage (hI : Inv s) (hm : m ∈ s.rows) {projectId : ℕ} {token : String} {caller : Caller}
    (ht : m.batchId = some token) (ha : e.answer = .returned) :
    (act s (.findClaimedMessage projectId m.id token caller) e).2 =
      some (.dispatchBatch projectId { m with users := m.users.filter e.dir.user } token caller) := by
  have hf : s.rows.find? (claimed m.id token) = some m :=
    Table.find?_of_key hI.ids (fun m' _ he => (claimed_iff.mp he).1) hm (claimed_iff.mpr ⟨rfl, ht⟩)
  simp [act, findClaimedMessage, hf, ha]

theorem effect_dispatching (he : Effect p e m m') {id : ℕ} {t : String} (hp : p.claim = some (id, t)) :
    m'.batchId = m.batchId := by
  cases he with
  | keep | scheduled | delivered => rfl
  | claimed hpe | started hpe | released hpe | cleared hpe =>
    rw [hpe] at hp
    cases hp

namespace Moved

/-- A message that is claimed in the step is held by the process that claims it. -/
theorem claimed (h : Moved s p e s' k) (hI : Inv s) (hans : Answered s p e) (hm : m ∈ s.rows)
    (he : Effect p e m m') (hn : m.batchId = none) (hb : m'.batchId ≠ none) : ∃ q, k = some q ∧ q.Holds m' := by
  cases he with
  | keep | scheduled | delivered => exact absurd hn hb
  | released | cleared => exact absurd rfl hb
  | started _ ht => rw [hn] at ht; cases ht
  | @claimed projectId caller hp hc happ =>
    subst hp
    have hret : e.answer = .returned := by
      cases ha : e.answer with
      | returned => rfl
      | throws => rw [ha] at happ; cases happ
      | throwsAfter x => exact absurd ha (hans ⟨m, hm, rfl, hc⟩ x)
    refine ⟨.findClaimedMessage projectId m.id (claimToken e.uuid) caller, ?_, .inl ⟨claimToken e.uuid, rfl, rfl⟩⟩
    rw [h.next]
    exact act_execute hI hm hc hret

/-- A message that another process holds stays so, or is given up. -/
theorem holds_frame (hd : Distinct p q) (he : Effect p e m m') (hb : m'.batchId ≠ none) (hq : q.Holds m) :
    q.Holds m' := by
  rcases hq with ⟨t, hq, ht⟩ | ⟨batchId, hq⟩
  · have hqt := Point.token_of_dispatching hq
    cases he with
    | keep | scheduled | delivered => exact .inl ⟨t, hq, ht⟩
    | claimed _ hc => simp [canDispatch, ht] at hc
    | started hp ht' | released hp ht' =>
      rw [ht] at ht'
      cases ht'
      exact absurd rfl (hd _ _ _ _ (by rw [hp]; rfl) hqt)
    | cleared => exact absurd rfl hb
  · exact .inr ⟨batchId, by rw [he.id_eq]; exact hq⟩

/-- A claimed message that depends on the process goes on with it, or is pending. -/
theorem held (h : Moved s p e s' k) (hI : Inv s) (hans : Answered s p e) (hdep : Depends s p m)
    (hm' : m' ∈ s'.rows) (he : Effect p e m m') (hb : m'.batchId ≠ none) :
    Pending s' m.id ∨ ∃ q, k = some q ∧ q.Holds m' := by
  obtain ⟨hm, hund, hbm, hp, -⟩ := id hdep
  have hid := he.id_eq
  rcases hp with ⟨t, hp, ht⟩ | ⟨batchId, hp⟩
  · cases p with
    | findClaimedMessage projectId messageId token caller =>
      cases hp
      have hret := hans ⟨m, hdep⟩
      refine .inr ⟨_, h.next.trans (act_findClaimedMessage hI hm ht hret), .inl ⟨t, ?_, ?_⟩⟩
      · rw [hid]
        rfl
      · rw [effect_dispatching he rfl, ht]
    | dispatchBatch projectId m₀ token caller =>
      simp only [Point.dispatching, Option.some.injEq, Prod.mk.injEq] at hp
      obtain ⟨hid₀, rfl⟩ := hp
      by_cases hret : e.answer = .returned
      · left
        have hjobs := hans ⟨m, hdep⟩ hret
        obtain ⟨job, hjob⟩ := List.exists_mem_of_ne_nil _ hjobs
        refine ⟨newBatch e.uuid projectId token m₀, ?_, hid₀, ⟨job, 0, none⟩, List.mem_map.mpr ⟨job, hjob, rfl⟩, rfl⟩
        rw [h.batches]
        simp [act, Store.after, hret, Answer.applies]
      · right
        refine ⟨.releaseClaim m₀.id token caller, ?_, .inl ⟨token, ?_, ?_⟩⟩
        · rw [h.next]
          cases ha : e.answer with
          | returned => exact absurd ha hret
          | throws | throwsAfter => simp [act, ha]
        · rw [hid, ← hid₀]
          rfl
        · rw [effect_dispatching he rfl, ht]
    | releaseClaim messageId token caller =>
      cases hp
      have happ := hans ⟨m, hdep⟩
      have hrows : s'.rows = Table.updateWhere (DispatchProjectMessageAction.claimed m.id t)
          (fun m => { m with batchId := none }) s.rows := by
        rw [h.rows]
        exact congrArg Store.rows (if_pos happ)
      rw [hrows] at hm'
      have hm'' := Table.eq_of_mem_updateWhere hI.ids (by intro; rfl) hm hm' hid
      rw [if_pos (claimed_iff.mpr ⟨rfl, ht⟩)] at hm''
      exact absurd (by rw [hm'']) hb
    | _ => cases hp
  · cases p with
    | thenCallback batchId' messageId failedJobs =>
      cases hp
      exact .inr ⟨.finallyCallback batchId m.id, h.next, .inr ⟨batchId, by rw [hid]; rfl⟩⟩
    | finallyCallback batchId' messageId =>
      cases hp
      have happ := hans ⟨m, hdep⟩
      have hrows : s'.rows = Table.updateWhere (terminated m.id) (fun m => { m with batchId := none }) s.rows := by
        rw [h.rows]
        exact congrArg Store.rows (if_pos happ)
      rw [hrows] at hm'
      have hm'' := Table.eq_of_mem_updateWhere hI.ids (by intro; rfl) hm hm' hid
      rw [if_pos (by simp [terminated, hund, Option.isSome_iff_ne_none, hbm])] at hm''
      exact absurd (by rw [hm'']) hb
    | _ => cases hp

end Moved

/-! ### The invariant of the runs -/

theorem noneStuck_move {i : ℕ} (hc : Holds Inv Knowledge c) (hd : Apart Distinct c.procs)
    (hs : program.step c (.move i e) = some c') (hp : c.procs[i]? = some p) (hans : Answered c.store p e)
    (hn : NoneStuck c) : NoneStuck c' := by
  intro m' hm' hund' hb'
  obtain ⟨k, hmove, hothers, hnext⟩ := program.procs_of_step hp hs
  have h := moved hmove
  rcases h.origin hc.1 hm' with ⟨m, hm, he⟩ | ⟨-, _, _, _, rfl⟩
  swap
  · exact absurd rfl hb'
  have hund := he.delivered_of hund'
  by_cases hb : m.batchId = none
  · obtain ⟨q, hk, hq⟩ := h.claimed hc.1 hans hm he hb hb'
    exact .inl ⟨q, hnext q hk, hq⟩
  have pending (hpend : Pending c.store m.id) : InFlight c' m' := by
    rcases h.pending hc.1 hpend with hpend' | ⟨q, batchId, hk, hq⟩
    · exact .inr (by rw [he.id_eq]; exact hpend')
    · exact .inl ⟨q, hnext q hk, .inr ⟨batchId, by rw [he.id_eq]; exact hq⟩⟩
  rcases hn m hm hund hb with ⟨q, hq, hholds⟩ | hpend
  · obtain ⟨j, hj⟩ := List.mem_iff_getElem?.mp hq
    by_cases hji : j = i
    · subst hji
      rw [hp] at hj
      cases hj
      by_cases hpend : Pending c.store m.id
      · exact pending hpend
      · rcases h.held hc.1 hans ⟨hm, hund, hb, hholds, hpend⟩ hm' he hb' with hpend' | ⟨q, hk, hq⟩
        · exact .inr (by rw [he.id_eq]; exact hpend')
        · exact .inl ⟨q, hnext q hk, hq⟩
    · have hframe := Moved.holds_frame (hd i j p q (Ne.symm hji) hp hj) he hb' hholds
      exact .inl ⟨q, hothers j q hji hj, hframe⟩
  · exact pending hpend

theorem noneStuck_step (hc : Holds Inv Knowledge c) (hd : Apart Distinct c.procs)
    (hs : program.step c a = some c') (hk : KeepsClaim ⟨c, a, c'⟩) (hn : NoneStuck c) : NoneStuck c' := by
  cases a with
  | arrive p =>
    simp only [Program.step, Option.ite_none_right_eq_some, Option.some.injEq] at hs
    obtain ⟨-, rfl⟩ := hs
    intro m hm hund hb
    rcases hn m hm hund hb with ⟨q, hq, hholds⟩ | hpend
    · exact .inl ⟨q, List.mem_append_left _ hq, hholds⟩
    · exact .inr hpend
  | crash i =>
    simp only [Program.step, Option.ite_none_right_eq_some, Option.some.injEq] at hs
    obtain ⟨-, rfl⟩ := hs
    intro m hm hund hb
    rcases hn m hm hund hb with ⟨q, hq, hholds⟩ | hpend
    · obtain ⟨j, hj⟩ := List.mem_iff_getElem?.mp hq
      by_cases hji : j = i
      · subst hji
        by_cases hpend : Pending c.store m.id
        · exact .inr hpend
        · exact absurd ⟨hm, hund, hb, hholds, hpend⟩ (hk q hj m)
      · exact .inl ⟨q, List.mem_eraseIdx_iff_getElem?.mpr ⟨j, hji, hj⟩, hholds⟩
    · exact .inr hpend
  | move i e =>
    obtain ⟨p, hp⟩ : ∃ p, c.procs[i]? = some p := by
      cases hp : c.procs[i]? with
      | none => simp [Program.step, hp] at hs
      | some p => exact ⟨p, rfl⟩
    exact noneStuck_move hc hd hs hp (hk p hp) hn

theorem noneStuck_run (h : program.Run start tr c) (hk : ∀ st ∈ tr, KeepsClaim st) : NoneStuck c := by
  induction h with
  | nil => exact fun _ hm => by cases hm
  | snoc a hr hs ih =>
    obtain ⟨hc, hd⟩ := holds_of_run hr
    exact noneStuck_step hc hd hs (hk _ (List.mem_append_right _ (List.mem_singleton_self _)))
      (ih fun st hst => hk st (List.mem_append_left _ hst))

/-! ### What a pass selects -/

/-- A pass that reads the messages chunk by chunk after `lastId` comes to the message. -/
inductive Selected (e : Input) (rows : List Message) (m : Message) : ℕ → Prop
  | here {lastId last : ℕ} {messages : List (ℕ × ℕ)} {full : Bool} :
      readChunk e lastId rows = .pass messages last full → (m.projectId, m.id) ∈ messages → Selected e rows m lastId
  | later {lastId last : ℕ} {messages : List (ℕ × ℕ)} :
      readChunk e lastId rows = .pass messages last true → Selected e rows m last → Selected e rows m lastId

/-- What a sorted list's first elements leave out comes after them. -/
theorem le_of_not_mem_take {l : List Message} {n : ℕ} (hl : l.Pairwise (·.id ≤ ·.id)) (hm : m ∈ l)
    (hn : m ∉ l.take n) : (l.take n).length = n ∧ ∀ x ∈ l.take n, x.id ≤ m.id := by
  rw [← List.take_append_drop n l] at hl hm
  have hdrop : m ∈ l.drop n := (List.mem_append.mp hm).resolve_left hn
  refine ⟨?_, fun x hx => (List.pairwise_append.mp hl).2.2 x hx m hdrop⟩
  have hlen := List.length_pos_of_mem hdrop
  rw [List.length_drop] at hlen
  rw [List.length_take]
  omega

theorem mem_chunk {rows : List Message} {x : Message} {lastId : ℕ} (h : x ∈ chunk e.now lastId rows) :
    x ∈ rows ∧ lastId < x.id := by
  have hx := List.mem_filter.mp ((List.mem_insertionSort _).mp (List.mem_of_mem_take h))
  simp only [Bool.and_eq_true, decide_eq_true_eq] at hx
  exact ⟨hx.1, hx.2.2⟩

/-- A chunk that leaves out a message it should read later is full, and ends before it. -/
theorem chunk_before {rows : List Message} (hn : (rows.map (·.id)).Nodup) (hm : m ∈ rows)
    (hs : m.messageScheduled e.now = true) {lastId : ℕ} (hlt : lastId < m.id) (hin : m ∉ chunk e.now lastId rows) :
    (chunk e.now lastId rows).length = chunkSize ∧
      ∃ x, (chunk e.now lastId rows).getLast? = some x ∧ lastId < x.id ∧ x.id < m.id := by
  have hsorted := List.pairwise_insertionSort (fun a b : Message => a.id ≤ b.id)
    (rows.filter fun m => m.messageScheduled e.now && decide (lastId < m.id))
  have hml : m ∈ (rows.filter fun m => m.messageScheduled e.now && decide (lastId < m.id)).insertionSort
      (·.id ≤ ·.id) := (List.mem_insertionSort _).mpr (List.mem_filter.mpr ⟨hm, by simp [hs, hlt]⟩)
  obtain ⟨hlen, hle⟩ := le_of_not_mem_take hsorted hml hin
  have hne : chunk e.now lastId rows ≠ [] := List.ne_nil_of_length_pos (by rw [chunk, hlen]; decide)
  have hlast := List.getLast_mem hne
  obtain ⟨hx, hgt⟩ := mem_chunk hlast
  refine ⟨hlen, _, List.getLast?_eq_some_getLast hne, hgt, lt_of_le_of_ne (hle _ hlast) fun hid => hin ?_⟩
  rw [← List.inj_on_of_nodup_map hn hx hm hid]
  exact hlast

/-- A pass comes to every message that is due and whose project is there. -/
theorem selected {rows : List Message} (hn : (rows.map (·.id)).Nodup) (hm : m ∈ rows)
    (hs : m.messageScheduled e.now = true) (hp : e.dir.project m.projectId = true) :
    ∀ {n lastId : ℕ}, m.id - lastId ≤ n → lastId < m.id → Selected e rows m lastId
  | 0, lastId, hle, hlt => by omega
  | n + 1, lastId, hle, hlt => by
    by_cases hin : m ∈ chunk e.now lastId rows
    · exact .here rfl (List.mem_map.mpr ⟨m, List.mem_filter.mpr ⟨hin, hp⟩, rfl⟩)
    · obtain ⟨hlen, x, hlast, hgt, hlt'⟩ := chunk_before hn hm hs hlt hin
      have hread : ∃ messages, readChunk e lastId rows = .pass messages x.id true := by
        simp [readChunk, hlast, hlen]
      obtain ⟨messages, hread⟩ := hread
      have hn' : m.id - x.id ≤ n := by omega
      exact .later hread (selected hn hm hs hp hn' hlt')

/-- **No message stays claimed** in a run in which no process crashes that a claim
depends on, and no statement fails that gives it up: a message that is not delivered
is in flight while it is claimed, and one that is due is in flight or selected by
any later pass. -/
theorem in_flight_or_selected (h : program.Run start tr c) (hk : ∀ st ∈ tr, KeepsClaim st) (hm : m ∈ c.store.rows)
    (hd : m.delivered = false) : (m.batchId ≠ none → InFlight c m) ∧
      ∀ at', m.deliveredAt = some at' → InFlight c m ∨
        ∀ e : Input, at' ≤ e.now → e.dir.project m.projectId = true → Selected e c.store.rows m 0 := by
  have hstuck := noneStuck_run h hk m hm hd
  refine ⟨hstuck, fun at' hat => ?_⟩
  by_cases hb : m.batchId = none
  · have hI := (holds_of_run h).1.1
    refine .inr fun e hle hp => selected hI.ids hm ?_ hp le_rfl (hI.known m hm).1
    simp [Message.messageScheduled, hd, hb, hat, hle]
  · exact .inl (hstuck hb)

/-! ### Runs -/

/-- No crash, and no failure at a step that may lose a claim. -/
def steady (st : Step Store Point Input) : Bool :=
  match st.act, st.mover with
  | .crash _, _ => false
  | .move _ e, some (.execute _ _ _) => e.answer == .returned
  | .move _ e, some (.findClaimedMessage _ _ _ _) => e.answer == .returned
  | .move _ _, some (.dispatchBatch _ m _ _) => !(jobs m).isEmpty
  | .move _ e, some (.releaseClaim _ _ _) => e.answer.applies
  | .move _ e, some (.finallyCallback _ _) => e.answer.applies
  | _, _ => true

theorem steady_sound {st : Step Store Point Input} (h : steady st = true) : KeepsClaim st := by
  unfold KeepsClaim
  split
  · trivial
  · rename_i i ha
    rw [steady, ha] at h
    cases h
  · rename_i i e ha
    intro p hp
    have hm : st.mover = some p := by simp [Step.mover, ha, hp]
    cases p with
    | execute =>
      simp only [steady, ha, hm, beq_iff_eq] at h
      intro _ x hx
      rw [h] at hx
      cases hx
    | findClaimedMessage =>
      simp only [steady, ha, hm, beq_iff_eq] at h
      exact fun _ => h
    | dispatchBatch =>
      simp only [steady, ha, hm, Bool.not_eq_true', List.isEmpty_eq_false_iff] at h
      exact fun _ _ => h
    | releaseClaim | finallyCallback =>
      simp only [steady, ha, hm] at h
      exact fun _ => h
    | _ => trivial

/-- One of two mails is sent, the other has still to be. -/
theorem in_flight_or_selected_dispatched : ∃ tr c m, program.Run start tr c ∧ m ∈ c.store.rows ∧
    m.batchId = some "batch-2" ∧ InFlight c m := by
  obtain ⟨tr, c, h, hc⟩ := program.exists_run_of_replay
    (Sample.schedule ++ Sample.failedPass "claim-1" "batch-1" ++ Sample.pass "claim-2" "batch-2" ++
      Sample.deliver "batch-2" 0) (c := start) (q := fun tr c => tr.all steady &&
        c.store.rows.any fun m => !m.delivered && m.batchId == some "batch-2") (by decide)
  simp only [Bool.and_eq_true, List.all_eq_true] at hc
  obtain ⟨m, hm, hq⟩ := List.any_eq_true.mp hc.2
  simp only [Bool.and_eq_true, Bool.not_eq_true', beq_iff_eq] at hq
  exact ⟨tr, c, m, h, hm, hq.2, (in_flight_or_selected h (fun st hst => steady_sound (hc.1 st hst)) hm hq.1).1
    (by simp [hq.2])⟩

/-- The pass crashes between the commit of its claim and the dispatch: nothing is in
flight, and no pass selects the message. -/
theorem claimed_forever : ∃ tr c m, program.Run start tr c ∧ m ∈ c.store.rows ∧ m.delivered = false ∧
    m.batchId ≠ none ∧ ¬ InFlight c m ∧ ∀ now, m.messageScheduled now = false := by
  obtain ⟨tr, c, h, hc⟩ := program.exists_run_of_replay
    (Sample.schedule ++ [.arrive (.handle 0), .move 0 (Sample.input 2000 "" .returned),
      .move 0 (Sample.input 2000 "claim-1" .returned), .crash 0]) (c := start)
    (q := fun _ c => c.procs.isEmpty && c.store.batches.isEmpty &&
      c.store.rows.any fun m => !m.delivered && m.batchId.isSome) (by decide)
  simp only [Bool.and_eq_true, List.isEmpty_iff] at hc
  obtain ⟨m, hm, hq⟩ := List.any_eq_true.mp hc.2
  simp only [Bool.and_eq_true, Bool.not_eq_true'] at hq
  refine ⟨tr, c, m, h, hm, hq.1, by simpa [Option.isSome_iff_ne_none] using hq.2, ?_, fun now => ?_⟩
  · rintro (⟨p, hp, -⟩ | ⟨b, hb, -⟩)
    · rw [hc.1.1] at hp
      cases hp
    · rw [hc.1.2] at hb
      cases hb
  · obtain ⟨x, hx⟩ := Option.isSome_iff_exists.mp hq.2
    simp [Message.messageScheduled, hx]

end Messages
end Daywright
