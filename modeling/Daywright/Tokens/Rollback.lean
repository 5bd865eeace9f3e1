/-
# Tokens are rolled back

A refresh that is under way when a callback saves its tokens writes over them, or
deletes them, when it comes to an end: it knows only the pair that it started from. If
it deletes the row that the callback has found and not yet updated, the callback's pair
is saved nowhere (`reconnected_and_cleared` has a run with each).

While no callback saves its tokens between the second read of a refresh and its last
write, the tokens of a callback are there when it answers, and no refresh writes over
them (`reconnects_of_calm`). Refreshes do not get in each other's way: as long as each
goes on to save or to clear what it has sent a token for, no token is sent twice
(`tokens_of_run`).

Key definitions: `Calm`, `RollsBack`, `InVain`.
Key theorem: `tokens_of_run`.
-/
import Daywright.Tokens.Outline

namespace Daywright
namespace Tokens

open Interleave

/-- The pair that a refresh has started from and not yet saved or cleared. -/
def window : Point → Option OAuthTokens
  | .refreshing _ old | .saving _ old _ _ | .clearing _ old => some old
  | _ => none

/-- The callback stands between two statements of its save. -/
def between : Point → Bool
  | .callbackSaving _ .select => false
  | .callbackSaving _ _ => true
  | _ => false

/-- While a callback saves its tokens, no refresh is under way. -/
def Calm (st : Step Store Point Input) : Prop :=
  ∀ p ∈ st.pre.procs, ∀ q ∈ st.pre.procs, between p = true → window q = none

instance (st : Step Store Point Input) : Decidable (Calm st) := by
  unfold Calm
  infer_instance

def tokensOf (s : Store) : Option OAuthTokens := s.connection.map (·.tokens)

/-- A refresh writes over the tokens that a callback has saved, or deletes them, having
started from another pair. -/
def RollsBack (st : Step Store Point Input) : Prop :=
  ∃ old ∈ st.mover.bind window, ∃ saved ∈ tokensOf st.pre.store, saved.refreshToken ∈ st.pre.store.authorized ∧
    saved ≠ old ∧ tokensOf st.post.store ≠ some saved

instance (st : Step Store Point Input) : Decidable (RollsBack st) := by
  unfold RollsBack
  infer_instance

/-- The pair whose save is done by the step, so that the callback answers that the account
is connected. -/
def savedBy (st : Step Store Point Input) : Option OAuthTokens :=
  match st.fired with
  | some (.callbackSaving new stage, e) =>
    if e.reply = .done ∧ (st.pre.store.saveTokens new stage).2 = .saved then some new else none
  | _ => none

/-- It has not been saved. -/
def InVain (st : Step Store Point Input) : Prop :=
  ∃ new ∈ savedBy st, ∀ saved ∈ tokensOf st.post.store,
    saved.accessToken ≠ new.accessToken ∨ saved.refreshToken ≠ new.refreshToken

instance (st : Step Store Point Input) : Decidable (InVain st) := by
  unfold InVain
  infer_instance

variable {s s' : Store} {e : Input} {p q : Point} {k : Option Point} {c₀ c : Config Store Point}
  {tr : List (Step Store Point Input)}

theorem Leaving.window {l : ℕ} (h : Leaving l q) : window q = none := by
  rcases h with ⟨result, rfl⟩ | rfl <;> rfl

/-- A refresh has the lock. -/
theorem lockOf_of_window {old : OAuthTokens} (h : window p = some old) : ∃ l, lockOf p = some l := by
  cases p <;> first | exact ⟨_, rfl⟩ | cases h

/-- A refresh starts from the tokens of the connection, or goes on with its own. -/
theorem Effect.window {old : OAuthTokens} (h : Effect s e p s' k) (hk : k = some q) (hq : window q = some old) :
    tokensOf s' = tokensOf s ∧ (tokensOf s = some old ∨ Tokens.window p = some old) := by
  cases h with
  | start l row hc =>
    cases hk
    cases hq
    refine ⟨rfl, .inl ?_⟩
    rw [tokensOf, hc]
    rfl
  | issued | refused | goOn =>
    cases hk
    cases hq
    exact ⟨rfl, .inr rfl⟩
  | unsettled l t k _ hl | leave l k hl | unsaved l t new stage k _ hl | uncleared l t k _ hl =>
    cases hk
    rw [hl.window] at hq
    cases hq
  | _ => cases hk <;> cases hq

/-- The connection is changed by a refresh, or by a callback between its statements. -/
theorem Effect.connection (h : Effect s e p s' k) : s'.connection = s.connection ∨
    (∃ l, lockOf p = some l) ∨ between p = true := by
  cases h with
  | save l | clear l => exact .inr (.inl ⟨l, rfl⟩)
  | callbackSave new stage s' hs =>
    cases hs with
    | updated | inserted => exact .inr (.inr rfl)
  | _ => exact .inl rfl

/-- A callback comes to stand between its statements with the row that it has found. -/
theorem Effect.between {new : OAuthTokens} {loaded : OAuthConnection} (h : Effect s e p s' k)
    (hk : k = some (.callbackSaving new (.update loaded))) : loaded ∈ s'.connection := by
  cases h with
  | callbackGoOn new stage stage' hs =>
    cases hk
    exact hs.next_update
  | unsettled l t k _ hl | leave l k hl | unsaved l t new stage k _ hl | uncleared l t k _ hl =>
    cases hk
    rcases hl with ⟨result, hl⟩ | hl <;> cases hl
  | _ => cases hk

/-- The tokens that each refresh under way started from are those of the connection, and
the row that each callback is about to update is there. -/
structure Undisturbed (c : Config Store Point) : Prop where
  refresh : ∀ q ∈ c.procs, ∀ old, window q = some old → tokensOf c.store = some old
  callback : ∀ q ∈ c.procs, ∀ new loaded, q = .callbackSaving new (.update loaded) →
    ∃ row ∈ c.store.connection, row.id = loaded.id

/-- A calm step leaves them there. -/
theorem undisturbed_step {c c' : Config Store Point} {a : Act Point Input} (hA : Holds LockDrawn HasLock c)
    (hB : Apart OtherLock c.procs) (hU : Undisturbed c) (h : program.step c a = some c') (hcalm : Calm ⟨c, a, c'⟩) :
    Undisturbed c' := by
  cases a with
  | arrive p =>
    simp only [Program.step, Option.ite_none_right_eq_some, Option.some.injEq] at h
    obtain ⟨hp, rfl⟩ := h
    obtain ⟨hlock, -, hfetched⟩ := entry_none hp
    constructor
    · intro q hq old hold
      rcases List.mem_append.mp hq with hq | hq
      · exact hU.refresh q hq old hold
      · rw [List.mem_singleton.mp hq] at hold
        obtain ⟨l, hl⟩ := lockOf_of_window hold
        rw [hlock] at hl
        cases hl
    · intro q hq new loaded he
      rcases List.mem_append.mp hq with hq | hq
      · exact hU.callback q hq new loaded he
      · rw [← List.mem_singleton.mp hq, he] at hfetched
        cases hfetched
  | crash i =>
    simp only [Program.step, Option.ite_none_right_eq_some, Option.some.injEq] at h
    obtain ⟨-, rfl⟩ := h
    exact ⟨fun q hq => hU.refresh q (List.mem_of_mem_eraseIdx hq),
      fun q hq => hU.callback q (List.mem_of_mem_eraseIdx hq)⟩
  | move i e =>
    cases hp : c.procs[i]? with
    | none => simp [Program.step, hp] at h
    | some p =>
      obtain ⟨k, hm, hmem⟩ := program.mem_of_step hp h
      have heff := effect hm
      have hpmem := List.mem_of_getElem? hp
      constructor
      · intro q hq old hold
        rcases hmem q hq with hk | ⟨j, hj, hqj⟩
        · obtain ⟨hc, hs | hw⟩ := heff.window hk hold
          · exact hc.trans hs
          · exact hc.trans (hU.refresh p hpmem old hw)
        · have hqmem := List.mem_of_getElem? hqj
          have hsame : c'.store.connection = c.store.connection := by
            rcases heff.connection with hc | ⟨l, hl⟩ | hbetween
            · exact hc
            · obtain ⟨l', hl'⟩ := lockOf_of_window hold
              exact absurd hl' (not_both_locked (hA.2 p hpmem) (hA.2 q hqmem) (hB i j p q (Ne.symm hj) hp hqj) hl)
            · have hnone := hcalm p hpmem q hqmem hbetween
              rw [hnone] at hold
              cases hold
          rw [tokensOf, hsame]
          exact hU.refresh q hqmem old hold
      · intro q hq new loaded he
        subst he
        rcases hmem _ hq with hk | ⟨j, hj, hqj⟩
        · exact ⟨loaded, heff.between hk, rfl⟩
        · have hqmem := List.mem_of_getElem? hqj
          obtain ⟨row, hrow, hid⟩ := hU.callback _ hqmem new loaded rfl
          rcases heff.keeps hrow with ⟨l, old, rfl⟩ | ⟨row', hrow', hid'⟩
          · -- A refresh that clears the connection is under way.
            have hnone := hcalm _ hqmem _ hpmem rfl
            cases hnone
          · exact ⟨row', hrow', hid'.trans hid⟩

/-- Along a calm run nobody is disturbed. -/
theorem undisturbed_run (hA : Holds LockDrawn HasLock c₀) (hB : Apart OtherLock c₀.procs) (hU : Undisturbed c₀)
    (h : program.Run c₀ tr c) (hcalm : ∀ st ∈ tr, Calm st) : Undisturbed c := by
  induction h with
  | nil => exact hU
  | snoc a hr hs ih =>
    obtain ⟨hA', hB'⟩ := lockOutline.run hA hB hr
    exact undisturbed_step hA' hB' (ih fun st hst => hcalm st (List.mem_append_left _ hst)) hs (hcalm _ (by simp))

/-- A save that is done, to the row that was found, leaves the new tokens there. -/
theorem Saves.tokens {new : OAuthTokens} {stage : Stage} (h : Saves s new stage s' .saved)
    (hrow : ∀ loaded, stage = .update loaded → ∃ row ∈ s.connection, row.id = loaded.id)
    (hne : ∀ loaded, stage = .update loaded → loaded.tokens.Other new) :
    ∃ saved ∈ tokensOf s', saved.accessToken = new.accessToken ∧ saved.refreshToken = new.refreshToken := by
  cases h with
  | inserted => exact ⟨new, rfl, rfl, rfl⟩
  | updated loaded =>
    obtain ⟨row, hmem, hid⟩ := hrow loaded rfl
    obtain ⟨ha, hr⟩ := hne loaded rfl
    refine ⟨_, Option.mem_map.mpr ⟨_, Option.mem_map.mpr ⟨row, hmem, rfl⟩, rfl⟩, ?_⟩
    rw [if_pos hid]
    exact ⟨if_neg ha, if_neg hr⟩

theorem not_rollsBack {st : Step Store Point Input} (hU : Undisturbed st.pre) : ¬ RollsBack st := by
  rintro ⟨old, hold, saved, hsaved, -, hne, -⟩
  obtain ⟨p, hp, hw⟩ := Option.bind_eq_some_iff.mp hold
  obtain ⟨e, i, -, hpi⟩ := Step.fires_of_mover hp
  have hc := hU.refresh p (List.mem_of_getElem? hpi) old hw
  exact hne (Option.some.inj (hsaved.symm.trans hc))

theorem not_inVain {st : Step Store Point Input} (hs : program.step st.pre st.act = some st.post)
    (hN : ∀ p ∈ st.pre.procs, KnowsNew st.pre.store p) (hU : Undisturbed st.pre) : ¬ InVain st := by
  rintro ⟨new, hnew, hnone⟩
  unfold savedBy at hnew
  split at hnew
  · rename_i new' stage e hfired
    split at hnew
    · rename_i hdone
      cases hnew
      have hf := Step.fires_of_fired hfired
      obtain ⟨hmem, k, hm⟩ := program.move_of_fires hs hf
      have hsaves : Saves st.pre.store new stage (st.pre.store.saveTokens new stage).1 .saved := by
        have h : Saves st.pre.store new stage _ (st.pre.store.saveTokens new stage).2 := saves
        rwa [hdone.2] at h
      have hpost : st.post.store = (st.pre.store.saveTokens new stage).1 := by
        simp only [program, step, hdone.1] at hm
        split at hm <;> rename_i heq <;> rw [heq] <;> cases hm <;> rfl
      obtain ⟨saved, hsaved, ha, hr⟩ := hsaves.tokens
        (fun loaded he => hU.callback _ hmem new loaded (he ▸ rfl))
        (fun loaded he => (hN _ hmem).loaded new rfl loaded (he ▸ rfl))
      rw [← hpost] at hsaved
      rcases hnone saved hsaved with h | h
      · exact h ha
      · exact h hr
    · cases hnew
  · cases hnew

theorem reconnects_of_calm (hO : Holds (fun s => LockDrawn s ∧ Issued s) (fun s p => HasLock s p ∧ KnowsNew s p) c₀)
    (hB : Apart (fun p q => OtherLock p q ∧ OtherNew p q) c₀.procs) (hU : Undisturbed c₀) (h : program.Run c₀ tr c)
    (hcalm : ∀ st ∈ tr, Calm st) : ∀ st ∈ tr, ¬ RollsBack st ∧ ¬ InVain st := by
  intro st hst
  obtain ⟨tr₁, tr₂, rfl, hrun, hs, -⟩ := h.of_mem program hst
  have hpre := ((lockOutline.and newOutline).run hO hB hrun).1
  have hU' := undisturbed_run ⟨hO.1.1, fun p hp => (hO.2 p hp).1⟩ (fun i j p q hij hp hq => (hB i j p q hij hp hq).1) hU
    hrun fun st hst => hcalm st (List.mem_append_left _ hst)
  exact ⟨not_rollsBack hU', not_inVain hs (fun p hp => (hpre.2 p hp).2) hU'⟩

/-- Nobody is calling, and nothing has been sent. -/
def start (connection : Option OAuthConnection) (nextConnection : ℕ) (authorized : List ℕ) (next : ℕ) :
    Config Store Point := ⟨⟨connection, nextConnection, none, 0, next, [], authorized⟩, []⟩

/-- **Zoom's tokens.** No refresh token is sent twice, if each refresh that has sent one
goes on to save or to clear the connection. And if no callback saves its tokens while a
refresh is under way, they are there when it answers, and no refresh undoes them. -/
theorem tokens_of_run {connection : Option OAuthConnection} {nextConnection : ℕ} {authorized : List ℕ} {next : ℕ}
    (hnext : ∀ row ∈ connection, row.tokens.Below next)
    (h : program.Run (start connection nextConnection authorized next) tr c) :
    ((∀ st ∈ tr, st.Meets Settles) → c.store.sent.Nodup) ∧
    ((∀ st ∈ tr, Calm st) → ∀ st ∈ tr, ¬ RollsBack st ∧ ¬ InVain st) := by
  have hI : LockDrawn (start connection nextConnection authorized next).store ∧
      Issued (start connection nextConnection authorized next).store := ⟨by rintro _ ⟨⟩, hnext⟩
  constructor
  · intro hok
    have hK : Fresh (start connection nextConnection authorized next).store :=
      ⟨by rintro _ ⟨⟩, .nil, fun _ row _ => List.not_mem_nil⟩
    exact (freshOutline.run ⟨⟨hI, hK⟩, by rintro _ ⟨⟩⟩ Apart.nil (h.restrict hok)).1.1.2.nodup
  · exact reconnects_of_calm ⟨hI, by rintro _ ⟨⟩⟩ Apart.nil ⟨by rintro _ ⟨⟩, by rintro _ ⟨⟩⟩ h

namespace Sample

def expired : OAuthConnection := ⟨1, 0, 0, 0⟩

def input (answer : Answer) : Input := ⟨seconds 10, seconds 3600, answer, .done⟩

/-- The request to refresh is about to be sent. -/
def refresh : List (Act Point Input) := .arrive .forUser :: List.replicate 3 (.move 0 (input .issued))

/-- Zoom has authorized the user anew, and `n` statements of the save are made. -/
def reconnect (n : ℕ) : List (Act Point Input) := .arrive .callback :: List.replicate (n + 1) (.move 1 (input .issued))

def refused : Act Point Input := .move 0 (input (.userError (some "invalid_grant")))

end Sample

/-- The user reconnects while a refresh is under way, which Zoom then refuses; and the
refresh deletes the row between the two statements of the save. -/
theorem reconnected_and_cleared : (∃ connection nextConnection authorized next tr c,
      (∀ row ∈ connection, row.tokens.Below next) ∧
      program.Run (start connection nextConnection authorized next) tr c ∧
      (∃ st ∈ tr, RollsBack st) ∧ c.store.connection = none) ∧
    ∃ connection nextConnection authorized next tr c, (∀ row ∈ connection, row.tokens.Below next) ∧
      program.Run (start connection nextConnection authorized next) tr c ∧
      (∃ st ∈ tr, InVain st) ∧ c.store.connection = none := by
  have hbelow : ∀ row ∈ some Sample.expired, row.tokens.Below 1 := by
    rintro _ ⟨⟩
    exact ⟨Nat.one_pos, Nat.one_pos⟩
  constructor
  · obtain ⟨tr, c, h, hc⟩ := program.exists_run_of_replay
      (Sample.refresh ++ Sample.reconnect 2 ++ List.replicate 3 Sample.refused) (c := start (some Sample.expired) 2 [] 1)
      (q := fun tr c => c.store.connection.isNone && tr.any fun st => decide (RollsBack st)) (by decide)
    simp only [Bool.and_eq_true, Option.isNone_iff_eq_none, List.any_eq_true, decide_eq_true_eq] at hc
    exact ⟨some Sample.expired, 2, [], 1, tr, c, hbelow, h, hc.2, hc.1⟩
  · obtain ⟨tr, c, h, hc⟩ := program.exists_run_of_replay
      (Sample.refresh ++ Sample.reconnect 1 ++ List.replicate 2 Sample.refused ++ [.move 1 (Sample.input .issued)])
      (c := start (some Sample.expired) 2 [] 1)
      (q := fun tr c => c.store.connection.isNone && tr.any fun st => decide (InVain st)) (by decide)
    simp only [Bool.and_eq_true, Option.isNone_iff_eq_none, List.any_eq_true, decide_eq_true_eq] at hc
    exact ⟨some Sample.expired, 2, [], 1, tr, c, hbelow, h, hc.2, hc.1⟩

/-- A refresh, and a callback after it. -/
theorem tokens_of_refresh : ∃ tr c, program.Run (start (some Sample.expired) 2 [] 1) tr c ∧
    c.store.connection = some ⟨1, 2, 2, seconds 3600⟩ ∧ c.store.sent = [0] ∧ c.store.sent.Nodup ∧
    ∀ st ∈ tr, ¬ RollsBack st ∧ ¬ InVain st := by
  obtain ⟨tr, c, h, hc⟩ := program.exists_run_of_replay
    (Sample.refresh ++ List.replicate 4 (.move 0 (Sample.input .issued)) ++ Sample.reconnect 2)
    (c := start (some Sample.expired) 2 [] 1)
    (q := fun tr c => c.store.connection == some ⟨1, 2, 2, seconds 3600⟩ && c.store.sent == [0] &&
      tr.all fun st => decide (st.Meets Settles) && decide (Calm st)) (by decide)
  simp only [Bool.and_eq_true, beq_iff_eq, List.all_eq_true, decide_eq_true_eq] at hc
  have hnext : ∀ row ∈ some Sample.expired, row.tokens.Below 1 := by
    rintro _ ⟨⟩
    exact ⟨Nat.one_pos, Nat.one_pos⟩
  have htokens := tokens_of_run hnext h
  exact ⟨tr, c, h, hc.1.1, hc.1.2, htokens.1 fun st hst => (hc.2 st hst).1, htokens.2 fun st hst => (hc.2 st hst).2⟩

end Tokens
end Daywright
