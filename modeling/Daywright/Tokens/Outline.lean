/-
# What a call may rely on

A step of a call is one of a few effects (`Effect`). Whoever is past the refresh lock
has it alone (`lockOutline`), and a pair that is about to be saved is in no row and in
nobody else's hands (`newOutline`). If every call that has sent a refresh token goes on
to save or to clear the connection, no call sends the token of the connection again: as
long as the lock is free, or its holder has not sent a token yet, the refresh token of
the connection has not been sent (`freshOutline`).

Key definitions: `Saves`, `Effect`, `lockOf`, `fetched`, `hand`, `Settles`, `Fresh`, `Unsent`.
Key theorems: `saves`, `effect`, `lockOutline`, `newOutline`, `freshOutline`.
-/
import Daywright.Tokens.Connector

namespace Daywright
namespace Tokens

open Interleave

/-- The refresh lock that a call has. -/
def lockOf : Point → Option ℕ
  | .locked l | .refreshing l _ | .saving l _ _ _ | .clearing l _ | .releasing l _ | .lapsing l => some l
  | _ => none

/-- The pair that is about to be saved. -/
def fetched : Point → Option OAuthTokens
  | .saving _ _ new _ | .callbackSaving new _ => some new
  | _ => none

/-- The row that is about to be updated. -/
def loadedBy : Point → Option OAuthConnection
  | .saving _ _ _ (.update loaded) | .callbackSaving _ (.update loaded) => some loaded
  | _ => none

/-- The refresh token that is about to be sent or saved. -/
def hand : Point → Option ℕ
  | .refreshing _ old => some old.refreshToken
  | .saving _ _ new _ | .callbackSaving new _ => some new.refreshToken
  | _ => none

/-- Zoom's answer says what is to become of the connection. -/
def Answer.settles : Answer → Bool
  | .issued | .unauthorized => true
  | .userError error => isInvalidOAuthError error
  | .otherError | .unheard => false

/-- The call is about to give its lock up. -/
def Leaving (l : ℕ) (k : Point) : Prop := (∃ result, k = .releasing l result) ∨ k = .lapsing l

variable {s s' : Store} {e : Input} {p q : Point} {k : Option Point} {new : OAuthTokens} {stage : Stage}
  {outcome : Outcome}

/-! ### A statement -/

/-- What a statement of `updateOrCreate` does. -/
inductive Saves (s : Store) (new : OAuthTokens) : Stage → Store → Outcome → Prop
  | found (stage : Stage) (row : OAuthConnection) : s.connection = some row → Saves s new stage s (.next (.update row))
  | absent : Saves s new .select s (.next .insert)
  | taken : Saves s new .insert s (.next .reselect)
  | gone : s.connection = none → Saves s new .reselect s .thrown
  | updated (loaded : OAuthConnection) : Saves s new (.update loaded) { s with
      connection := s.connection.map fun row => if row.id = loaded.id then Store.update loaded new row else row } .saved
  | inserted : s.connection = none → Saves s new .insert { s with
      connection := some ⟨s.nextConnection, new⟩, nextConnection := s.nextConnection + 1 } .saved

theorem saves : Saves s new stage (s.saveTokens new stage).1 (s.saveTokens new stage).2 := by
  cases stage with
  | select =>
    unfold Store.saveTokens
    cases hc : s.connection with
    | none => exact .absent
    | some row => exact .found _ row hc
  | update loaded => exact .updated loaded
  | insert =>
    unfold Store.saveTokens
    cases hc : s.connection with
    | none => exact .inserted hc
    | some row => exact .taken
  | reselect =>
    unfold Store.saveTokens
    cases hc : s.connection with
    | none => exact .gone hc
    | some row => exact .found _ row hc

theorem Saves.eq_of_next {stage' : Stage} (h : Saves s new stage s' (.next stage')) : s' = s := by
  cases h <;> rfl

theorem Saves.next_update {loaded : OAuthConnection} (h : Saves s new stage s' (.next (.update loaded))) :
    s.connection = some loaded := by
  cases h with
  | found stage row hc => exact hc

/-- Nothing but the connection is written. -/
theorem Saves.frame (h : Saves s new stage s' outcome) : s'.lock = s.lock ∧ s'.nextLock = s.nextLock ∧
    s'.nextToken = s.nextToken ∧ s'.sent = s.sent := by
  cases h <;> exact ⟨rfl, rfl, rfl, rfl⟩

/-- The tokens of the row are its own or new. -/
theorem Saves.mem_connection (h : Saves s new stage s' outcome) (A R : ℕ → Prop)
    (hc : ∀ row ∈ s.connection, A row.tokens.accessToken ∧ R row.tokens.refreshToken)
    (hn : A new.accessToken ∧ R new.refreshToken) :
    ∀ row ∈ s'.connection, A row.tokens.accessToken ∧ R row.tokens.refreshToken := by
  intro row' hrow'
  cases h with
  | found | absent | taken | gone => exact hc row' hrow'
  | inserted =>
    cases hrow'
    exact hn
  | updated loaded =>
    obtain ⟨row, hrow, rfl⟩ := Option.mem_map.mp hrow'
    by_cases hid : row.id = loaded.id
    · rw [if_pos hid]
      constructor
      · unfold Store.update
        dsimp only
        split
        · exact (hc row hrow).1
        · exact hn.1
      · unfold Store.update
        dsimp only
        split
        · exact (hc row hrow).2
        · exact hn.2
    · rw [if_neg hid]
      exact hc row hrow

/-- The row stays. -/
theorem Saves.keeps (h : Saves s new stage s' outcome) {row : OAuthConnection} (hrow : row ∈ s.connection) :
    ∃ row' ∈ s'.connection, row'.id = row.id := by
  cases h with
  | found | absent | taken | gone => exact ⟨row, hrow, rfl⟩
  | inserted hnone =>
    rw [hnone] at hrow
    cases hrow
  | updated loaded =>
    refine ⟨_, Option.mem_map.mpr ⟨row, hrow, rfl⟩, ?_⟩
    split <;> rfl

/-! ### A step -/

/-- What a step is. -/
inductive Effect (s : Store) (e : Input) : Point → Store → Option Point → Prop
  | answer (p : Point) (result : Except Failure OAuthTokens) : lockOf p = none →
      Effect s e p s (some (.answered result))
  | wait : Effect s e .forUser s (some .waiting)
  | acquire : s.lock = none → Effect s e .waiting s.acquire (some (.locked s.nextLock))
  | start (l : ℕ) (row : OAuthConnection) : s.connection = some row →
      Effect s e (.locked l) s (some (.refreshing l row.tokens))
  | issued (l : ℕ) (old : OAuthTokens) :
      Effect s e (.refreshing l old) (s.send old.refreshToken true) (some (.saving l old (s.issue e) .select))
  | refused (l : ℕ) (old : OAuthTokens) :
      Effect s e (.refreshing l old) (s.send old.refreshToken false) (some (.clearing l old))
  | unsettled (l : ℕ) (old : OAuthTokens) (k : Point) : e.answer.settles = false → Leaving l k →
      Effect s e (.refreshing l old) (s.send old.refreshToken false) (some k)
  | leave (l : ℕ) (k : Point) : Leaving l k → Effect s e (.locked l) s (some k)
  | unsaved (l : ℕ) (old new : OAuthTokens) (stage : Stage) (k : Point) :
      e.reply ≠ .done ∨ s.connection = none → Leaving l k → Effect s e (.saving l old new stage) s (some k)
  | uncleared (l : ℕ) (old : OAuthTokens) (k : Point) : e.reply ≠ .done → Leaving l k →
      Effect s e (.clearing l old) s (some k)
  | goOn (l : ℕ) (old new : OAuthTokens) (stage stage' : Stage) : Saves s new stage s (.next stage') →
      Effect s e (.saving l old new stage) s (some (.saving l old new stage'))
  | save (l : ℕ) (old new : OAuthTokens) (stage : Stage) (s' : Store) (result : Except Failure OAuthTokens) :
      Saves s new stage s' .saved → Effect s e (.saving l old new stage) s' (some (.releasing l result))
  | clear (l : ℕ) (old : OAuthTokens) (result : Except Failure OAuthTokens) :
      Effect s e (.clearing l old) s.clearTokens (some (.releasing l result))
  | release (l : ℕ) (result : Except Failure OAuthTokens) :
      Effect s e (.releasing l result) s.release (some (.answered result))
  | lapse (l : ℕ) : Effect s e (.lapsing l) s.release none
  | authorize : Effect s e .callback s.authorize (some (.callbackSaving (s.issue e) .select))
  | callbackGoOn (new : OAuthTokens) (stage stage' : Stage) : Saves s new stage s (.next stage') →
      Effect s e (.callbackSaving new stage) s (some (.callbackSaving new stage'))
  | callbackSave (new : OAuthTokens) (stage : Stage) (s' : Store) : Saves s new stage s' .saved →
      Effect s e (.callbackSaving new stage) s' (some .connected)
  | stop (p : Point) : lockOf p = none → Effect s e p s none

theorem effect_refreshAndSave (l : ℕ) (old : OAuthTokens) :
    Effect s e (.refreshing l old) (refreshAndSave s l old e).1 (refreshAndSave s l old e).2 := by
  unfold refreshAndSave
  split
  · exact .issued l old
  · exact .refused l old
  · rename_i error he
    split
    · exact .refused l old
    · rename_i hi
      exact .unsettled l old _ (by simpa [he, Answer.settles] using hi) (.inl ⟨_, rfl⟩)
  · rename_i he
    exact .unsettled l old _ (by rw [he]; rfl) (.inl ⟨_, rfl⟩)
  · rename_i he
    exact .unsettled l old _ (by rw [he]; rfl) (.inr rfl)

theorem effect_saving {l : ℕ} {old : OAuthTokens} (h : step s (.saving l old new stage) e = some (s', k)) :
    Effect s e (.saving l old new stage) s' k := by
  have hsaves : Saves s new stage (s.saveTokens new stage).1 (s.saveTokens new stage).2 := saves
  simp only [step] at h
  split at h
  · split at h <;> cases h <;> rename_i heq <;> rw [heq] at hsaves
    · cases hsaves.eq_of_next
      exact .goOn l old new stage _ hsaves
    · exact .save l old new stage _ _ hsaves
    · cases hsaves with
      | gone hnone => exact .unsaved l old new _ _ (.inr hnone) (.inl ⟨_, rfl⟩)
  · rename_i hreply
    cases h
    exact .unsaved l old new stage _ (.inl (by simp [hreply])) (.inl ⟨_, rfl⟩)
  · rename_i hreply
    cases h
    exact .unsaved l old new stage _ (.inl (by simp [hreply])) (.inr rfl)

theorem effect_callbackSaving (h : step s (.callbackSaving new stage) e = some (s', k)) :
    Effect s e (.callbackSaving new stage) s' k := by
  have hsaves : Saves s new stage (s.saveTokens new stage).1 (s.saveTokens new stage).2 := saves
  simp only [step] at h
  split at h
  · split at h <;> cases h <;> rename_i heq <;> rw [heq] at hsaves
    · cases hsaves.eq_of_next
      exact .callbackGoOn new stage _ hsaves
    · exact .callbackSave new stage _ hsaves
    · cases hsaves with
      | gone => exact .stop _ rfl
  · cases h
    exact .stop _ rfl

theorem effect (h : step s p e = some (s', k)) : Effect s e p s' k := by
  cases p with
  | forUser =>
    simp only [step] at h
    split at h <;> cases h
    · exact .answer _ _ rfl
    · exact .wait
  | waiting =>
    simp only [step] at h
    split at h <;> cases h
    · exact .acquire ‹_›
    · exact .answer _ _ rfl
  | locked l =>
    simp only [step] at h
    split at h
    · split at h <;> cases h
      · exact .leave l _ (.inl ⟨_, rfl⟩)
      · rename_i old hr
        unfold readTokens at hr
        split at hr
        · cases hr
        · rename_i row hc
          split at hr <;> cases hr
          exact .start l row hc
    · cases h
      exact .leave l _ (.inl ⟨_, rfl⟩)
    · cases h
      exact .leave l _ (.inr rfl)
  | refreshing l old =>
    have he : refreshAndSave s l old e = (s', k) := by simpa [step] using h
    have hf := effect_refreshAndSave (s := s) (e := e) l old
    rwa [he] at hf
  | saving l old new stage => exact effect_saving h
  | clearing l old =>
    simp only [step] at h
    split at h <;> cases h
    · exact .clear l old _
    · exact .uncleared l old _ (by simp [*]) (.inl ⟨_, rfl⟩)
    · exact .uncleared l old _ (by simp [*]) (.inr rfl)
  | releasing l result =>
    cases h
    exact .release l result
  | lapsing l =>
    cases h
    exact .lapse l
  | answered | connected => cases h
  | callback =>
    simp only [step] at h
    split at h <;> cases h
    · exact .authorize
    · exact .stop _ rfl
  | callbackSaving new stage => exact effect_callbackSaving h

theorem Leaving.lockOf {l : ℕ} {k : Point} (h : Leaving l k) : lockOf k = some l := by
  rcases h with ⟨result, rfl⟩ | rfl <;> rfl

theorem Leaving.hand {l : ℕ} {k : Point} (h : Leaving l k) : hand k = none := by
  rcases h with ⟨result, rfl⟩ | rfl <;> rfl

/-! ### The lock -/

/-- A lock has been drawn. -/
def LockDrawn (s : Store) : Prop := ∀ l, s.lock = some l → l < s.nextLock

/-- The call has the lock that it takes itself to have. -/
def HasLock (s : Store) (p : Point) : Prop := ∀ l, lockOf p = some l → s.lock = some l

/-- Two calls do not have the same lock. -/
def OtherLock (p q : Point) : Prop := ∀ l, lockOf p = some l → lockOf q ≠ some l

/-- A step takes the lock that is free, keeps its lock, or gives it up. -/
theorem Effect.lock (h : Effect s e p s' k) :
    (s.lock = none ∧ s'.lock = some s.nextLock ∧ s'.nextLock = s.nextLock + 1 ∧ lockOf p = none ∧
      ∀ q, k = some q → lockOf q = some s.nextLock) ∨
    (s'.lock = s.lock ∧ s'.nextLock = s.nextLock ∧ ∀ q, k = some q → lockOf q = lockOf p) ∨
    (∃ l, lockOf p = some l ∧ s'.lock = none ∧ s'.nextLock = s.nextLock ∧ ∀ q, k = some q → lockOf q = none) := by
  cases h with
  | acquire hl => exact .inl ⟨hl, rfl, rfl, rfl, by rintro _ ⟨⟩; rfl⟩
  | release l => exact .inr (.inr ⟨l, rfl, rfl, rfl, by rintro _ ⟨⟩; rfl⟩)
  | lapse l => exact .inr (.inr ⟨l, rfl, rfl, rfl, by rintro _ ⟨⟩⟩)
  | answer p result hp => exact .inr (.inl ⟨rfl, rfl, by rintro _ ⟨⟩; exact hp.symm⟩)
  | stop => exact .inr (.inl ⟨rfl, rfl, by rintro _ ⟨⟩⟩)
  | unsettled l old k _ hk => exact .inr (.inl ⟨rfl, rfl, by rintro _ ⟨⟩; exact hk.lockOf⟩)
  | leave l k hk => exact .inr (.inl ⟨rfl, rfl, by rintro _ ⟨⟩; exact hk.lockOf⟩)
  | unsaved l old new stage k _ hk => exact .inr (.inl ⟨rfl, rfl, by rintro _ ⟨⟩; exact hk.lockOf⟩)
  | uncleared l old k _ hk => exact .inr (.inl ⟨rfl, rfl, by rintro _ ⟨⟩; exact hk.lockOf⟩)
  | save l old new stage s' result hs =>
    obtain ⟨hl, hn, -, -⟩ := hs.frame
    exact .inr (.inl ⟨hl, hn, by rintro _ ⟨⟩; rfl⟩)
  | callbackSave new stage s' hs =>
    obtain ⟨hl, hn, -, -⟩ := hs.frame
    exact .inr (.inl ⟨hl, hn, by rintro _ ⟨⟩; rfl⟩)
  | _ => exact .inr (.inl ⟨rfl, rfl, by rintro _ ⟨⟩; rfl⟩)

theorem not_both_locked {l l' : ℕ} (hp : HasLock s p) (hq : HasLock s q) (hB : OtherLock p q)
    (hl : lockOf p = some l) (hl' : lockOf q = some l') : False := by
  have : some l = some l' := (hp l hl).symm.trans (hq l' hl')
  cases this
  exact hB l hl hl'

theorem entry_none (h : program.entry p = true) : lockOf p = none ∧ hand p = none ∧ fetched p = none := by
  cases p with
  | forUser | callback => exact ⟨rfl, rfl, rfl⟩
  | _ => cases h

theorem lockOutline : ApartOutline program LockDrawn HasLock OtherLock where
  symm p q h l hq hp := h l hp hq
  entry s p _ hp l hl := by simp [(entry_none hp).1] at hl
  arrive s p q _ hp _ l hl := by simp [(entry_none hp).1] at hl
  move s p e s' k hI hA hm := by
    rcases (effect hm).lock with ⟨-, hl, hn, -, hk⟩ | ⟨hl, hn, hk⟩ | ⟨l, -, hl, hn, hk⟩
    · refine ⟨fun l h => ?_, fun q hq l h => ?_⟩
      · rw [hl] at h
        cases h
        omega
      · rw [hl, ← h, hk q hq]
    · refine ⟨fun l h => hn ▸ hI l (hl ▸ h), fun q hq l h => ?_⟩
      rw [hl]
      exact hA l (hk q hq ▸ h)
    · refine ⟨fun l h => by simp [hl] at h, fun q hq l h => ?_⟩
      simp [hk q hq] at h
  goOn s p e s' p' q hI _ hq hB hm := by
    rcases (effect hm).lock with ⟨hnone, -, -, -, hk⟩ | ⟨-, -, hk⟩ | ⟨-, -, -, -, hk⟩
    · intro l hl hl'
      have := hq l hl'
      simp [hnone] at this
    · exact fun l hl => hB l (hk p' rfl ▸ hl)
    · intro l hl
      simp [hk p' rfl] at hl
  frame s p e s' k q hI hA hq hB hm l hl := by
    rcases (effect hm).lock with ⟨hnone, -, -, -, -⟩ | ⟨hl', -, -⟩ | ⟨l', hp, -, -, -⟩
    · have := hq l hl
      simp [hnone] at this
    · exact hl'.trans (hq l hl)
    · exact absurd hl (not_both_locked hA hq hB hp)

/-! ### Pairs that are about to be saved -/

def OAuthTokens.Below (n : ℕ) (t : OAuthTokens) : Prop := t.accessToken < n ∧ t.refreshToken < n

def OAuthTokens.Other (t t' : OAuthTokens) : Prop :=
  t.accessToken ≠ t'.accessToken ∧ t.refreshToken ≠ t'.refreshToken

theorem OAuthTokens.Other.symm {t t' : OAuthTokens} (h : t.Other t') : t'.Other t := ⟨h.1.symm, h.2.symm⟩

theorem OAuthTokens.Below.other {t t' : OAuthTokens} {n : ℕ} (h : t.Below n) (ha : t'.accessToken = n)
    (hr : t'.refreshToken = n) : t.Other t' := by
  constructor
  · rw [ha]
    exact Nat.ne_of_lt h.1
  · rw [hr]
    exact Nat.ne_of_lt h.2

def Issued (s : Store) : Prop := ∀ row ∈ s.connection, row.tokens.Below s.nextToken

/-- The pair that a call has fetched has been issued, and is in no row that it knows. -/
structure KnowsNew (s : Store) (p : Point) : Prop where
  below : ∀ new, fetched p = some new → new.Below s.nextToken
  other : ∀ new, fetched p = some new → ∀ row ∈ s.connection, row.tokens.Other new
  loaded : ∀ new, fetched p = some new → ∀ row ∈ loadedBy p, row.tokens.Other new

/-- No two calls are about to save the same tokens. -/
def OtherNew (p q : Point) : Prop := ∀ new new', fetched p = some new → fetched q = some new' → new.Other new'

theorem KnowsNew.of_none (h : fetched p = none) : KnowsNew s p := by
  have none {new : OAuthTokens} {P : Prop} (hf : fetched p = some new) : P := by
    rw [h] at hf
    cases hf
  exact ⟨fun _ => none, fun _ => none, fun _ => none⟩

theorem Leaving.fetched {l : ℕ} (h : Leaving l q) : fetched q = none := by
  rcases h with ⟨result, rfl⟩ | rfl <;> rfl

theorem Effect.nextToken_le (h : Effect s e p s' k) : s.nextToken ≤ s'.nextToken := by
  cases h with
  | issued | authorize => exact Nat.le_succ _
  | save l old new stage s' result hs | callbackSave new stage s' hs => exact hs.frame.2.2.1.ge
  | _ => exact Nat.le_refl _

/-- A step keeps the tokens of the row, or saves those that its call has fetched. -/
theorem Effect.mem_connection (h : Effect s e p s' k) (A R : ℕ → Prop)
    (hc : ∀ row ∈ s.connection, A row.tokens.accessToken ∧ R row.tokens.refreshToken)
    (hn : ∀ new, fetched p = some new → A new.accessToken ∧ R new.refreshToken) :
    ∀ row ∈ s'.connection, A row.tokens.accessToken ∧ R row.tokens.refreshToken := by
  cases h with
  | save l old new stage s' result hs | callbackSave new stage s' hs => exact hs.mem_connection A R hc (hn new rfl)
  | clear => rintro _ ⟨⟩
  | _ => exact hc

/-- Only a refresh that clears the connection takes the row away. -/
theorem Effect.keeps (h : Effect s e p s' k) {row : OAuthConnection} (hrow : row ∈ s.connection) :
    (∃ l old, p = .clearing l old) ∨ ∃ row' ∈ s'.connection, row'.id = row.id := by
  cases h with
  | save l old new stage s' result hs | callbackSave new stage s' hs => exact .inr (hs.keeps hrow)
  | clear l old => exact .inl ⟨l, old, rfl⟩
  | _ => exact .inr ⟨row, hrow, rfl⟩

/-- A call fetches a pair that has just been issued, or goes on with the one it has. -/
theorem Effect.fetched (h : Effect s e p s' k) (hk : k = some q) (hf : fetched q = some new) :
    (new.accessToken = s.nextToken ∧ new.refreshToken = s.nextToken ∧ s'.nextToken = s.nextToken + 1 ∧
      s'.connection = s.connection ∧ loadedBy q = none) ∨
    (Tokens.fetched p = some new ∧ s' = s ∧ ∀ row ∈ loadedBy q, row ∈ s.connection) := by
  cases h with
  | issued | authorize =>
    cases hk
    cases hf
    exact .inl ⟨rfl, rfl, rfl, rfl, rfl⟩
  | goOn l old new stage stage' hs | callbackGoOn new stage stage' hs =>
    cases hk
    cases hf
    refine .inr ⟨rfl, rfl, fun row hrow => ?_⟩
    cases stage' with
    | update loaded =>
      cases hrow
      exact hs.next_update
    | _ => cases hrow
  | unsettled l old k _ hl | leave l k hl | unsaved l old new stage k _ hl | uncleared l old k _ hl =>
    cases hk
    rw [hl.fetched] at hf
    cases hf
  | _ => cases hk <;> cases hf

theorem newOutline : ApartOutline program Issued KnowsNew OtherNew where
  symm p q h new new' hq hp := (h new' new hp hq).symm
  entry s p _ hp := .of_none (entry_none hp).2.2
  arrive s p q _ hp _ new _ hn := by
    rw [(entry_none hp).2.2] at hn
    cases hn
  move s p e s' k hI hC hm := by
    have h := effect hm
    have hle := h.nextToken_le
    have below {t : OAuthTokens} (ht : t.Below s.nextToken) : t.Below s'.nextToken :=
      ⟨Nat.lt_of_lt_of_le ht.1 hle, Nat.lt_of_lt_of_le ht.2 hle⟩
    refine ⟨h.mem_connection (· < s'.nextToken) (· < s'.nextToken) (fun row hrow => below (hI row hrow))
      fun new hn => below (hC.below new hn), fun q hq => ?_⟩
    constructor
    · intro new hn
      rcases h.fetched hq hn with ⟨ha, hr, hnext, -, -⟩ | ⟨hp, -, -⟩
      · exact ⟨by omega, by omega⟩
      · exact below (hC.below new hp)
    · intro new hn row hrow
      rcases h.fetched hq hn with ⟨ha, hr, -, hc, -⟩ | ⟨hp, rfl, -⟩
      · exact (hI row (hc ▸ hrow)).other ha hr
      · exact hC.other new hp row hrow
    · intro new hn row hrow
      rcases h.fetched hq hn with ⟨-, -, -, -, hnone⟩ | ⟨hp, -, hloaded⟩
      · rw [hnone] at hrow
        cases hrow
      · exact hC.other new hp row (hloaded row hrow)
  goOn s p e s' p' q hI hC hCq hB hm := by
    intro new new' hn hn'
    rcases (effect hm).fetched rfl hn with ⟨ha, hr, -, -, -⟩ | ⟨hp, -, -⟩
    · exact ((hCq.below new' hn').other ha hr).symm
    · exact hB new new' hp hn'
  frame s p e s' k q hI hC hCq hB hm := by
    have h := effect hm
    have hle := h.nextToken_le
    refine ⟨fun new hn => ?_, fun new hn => ?_, hCq.loaded⟩
    · exact ⟨Nat.lt_of_lt_of_le (hCq.below new hn).1 hle, Nat.lt_of_lt_of_le (hCq.below new hn).2 hle⟩
    · exact h.mem_connection (· ≠ new.accessToken) (· ≠ new.refreshToken) (hCq.other new hn)
        fun new' hn' => hB new' new hn' hn

/-! ### Tokens that have not been sent -/

/-- A call that sends a refresh token goes on to save or to clear the connection. -/
def Settles (_ : Store) (p : Point) (e : Input) : Prop :=
  match p with
  | .refreshing _ _ => e.answer.settles = true
  | .saving _ _ _ _ | .clearing _ _ => e.reply = .done
  | _ => True

instance (s : Store) (p : Point) (e : Input) : Decidable (Settles s p e) := by
  unfold Settles
  split <;> infer_instance

/-- The refresh token of the connection has not been sent. -/
def Unsent (s : Store) : Prop := ∀ row ∈ s.connection, row.tokens.refreshToken ∉ s.sent

/-- Tokens are sent once; while the lock is free, that of the connection has not been. -/
structure Fresh (s : Store) : Prop where
  sent : ∀ r ∈ s.sent, r < s.nextToken
  nodup : s.sent.Nodup
  idle : s.lock = none → Unsent s

/-- What a call knows of the tokens. Between sending one and saving or clearing the
connection it knows only that what it is going to save is new, and that its row is there. -/
def KnowsTokens (s : Store) : Point → Prop
  | .locked _ | .releasing _ _ | .lapsing _ => Unsent s
  | .refreshing _ old =>
    Unsent s ∧ old.refreshToken ∉ s.sent ∧ old.refreshToken < s.nextToken ∧ ∃ row, row ∈ s.connection
  | .saving _ _ new stage =>
    new.refreshToken ∉ s.sent ∧ ∃ row ∈ s.connection, ∀ loaded, stage = .update loaded → row.id = loaded.id
  | .callbackSaving new _ => new.refreshToken ∉ s.sent
  | _ => True

/-- No two calls are about to send or save the same token. -/
def OtherHand (p q : Point) : Prop := ∀ r, hand p = some r → hand q ≠ some r

theorem Leaving.knows {l : ℕ} (h : Leaving l q) (hu : Unsent s) : KnowsTokens s q := by
  rcases h with ⟨result, rfl⟩ | rfl <;> exact hu

/-- A token is sent that has not been sent before. -/
theorem Fresh.send {l : ℕ} {old : OAuthTokens} {b : Bool} (hK : Fresh s) (hl : s.lock = some l)
    (hns : old.refreshToken ∉ s.sent) (hlt : old.refreshToken < s.nextToken) : Fresh (s.send old.refreshToken b) := by
  have hle : s.nextToken ≤ (s.send old.refreshToken b).nextToken := by
    simp only [Store.send]
    split <;> omega
  refine ⟨fun r hr => ?_, List.nodup_cons.mpr ⟨hns, hK.nodup⟩, fun h => ?_⟩
  · rcases List.mem_cons.mp hr with rfl | hr
    · exact Nat.lt_of_lt_of_le hlt hle
    · exact Nat.lt_of_lt_of_le (hK.sent r hr) hle
  · cases hl.symm.trans h

/-- A save that is made when no sent token is in the row leaves none there. -/
theorem Saves.unsent (h : Saves s new stage s' outcome) (hu : Unsent s) (hns : new.refreshToken ∉ s.sent) :
    Unsent s' := by
  have hmem := h.mem_connection (fun _ => True) (· ∉ s.sent) (fun row hrow => ⟨trivial, hu row hrow⟩) ⟨trivial, hns⟩
  intro row hrow
  rw [h.frame.2.2.2]
  exact (hmem row hrow).2

/-- An UPDATE of the row that is there writes the new refresh token over it. -/
theorem unsent_of_saving {l : ℕ} {old : OAuthTokens} (h : Saves s new stage s' .saved)
    (hN : KnowsNew s (.saving l old new stage)) (hC : KnowsTokens s (.saving l old new stage)) : Unsent s' := by
  obtain ⟨hns, row, hrow, hid⟩ := hC
  cases h with
  | inserted hnone =>
    rw [hnone] at hrow
    cases hrow
  | updated loaded =>
    have hne := (hN.loaded new rfl loaded rfl).2
    rintro _ hrow'
    obtain ⟨row', hmem, rfl⟩ := Option.mem_map.mp hrow'
    cases Option.mem_unique hrow hmem
    rw [if_pos (hid loaded rfl)]
    unfold Store.update
    dsimp only
    rw [if_neg hne]
    exact hns

/-- A call that settles what it has sent keeps the tokens fresh. -/
theorem fresh_move (hI : Issued s) (hK : Fresh s) (hA : HasLock s p) (hN : KnowsNew s p) (hC : KnowsTokens s p)
    (hok : Settles s p e) (h : Effect s e p s' k) : Fresh s' ∧ ∀ q, k = some q → KnowsTokens s' q := by
  cases h with
  | answer | wait | stop => exact ⟨hK, by rintro _ ⟨⟩ <;> trivial⟩
  | acquire hl => exact ⟨⟨hK.sent, hK.nodup, by rintro ⟨⟩⟩, by rintro _ ⟨⟩; exact hK.idle hl⟩
  | start l row hc => exact ⟨hK, by rintro _ ⟨⟩; exact ⟨hC, hC row hc, (hI row hc).2, row, hc⟩⟩
  | issued l old =>
    obtain ⟨-, hns, hlt, row, hrow⟩ := hC
    refine ⟨hK.send (hA l rfl) hns hlt, ?_⟩
    rintro _ ⟨⟩
    refine ⟨fun hmem => ?_, row, hrow, fun loaded he => Stage.noConfusion he⟩
    rcases List.mem_cons.mp hmem with he | hmem
    · exact Nat.ne_of_gt hlt he
    · exact Nat.lt_irrefl _ (hK.sent _ hmem)
  | refused l old =>
    obtain ⟨-, hns, hlt, -⟩ := hC
    exact ⟨hK.send (hA l rfl) hns hlt, by rintro _ ⟨⟩; trivial⟩
  | unsettled l old k he => simp [Settles, he] at hok
  | leave l k hk => exact ⟨hK, by rintro _ ⟨⟩; exact hk.knows hC⟩
  | unsaved l old new stage k hr =>
    rcases hr with hr | hnone
    · exact absurd hok hr
    · obtain ⟨-, row, hrow, -⟩ := hC
      rw [hnone] at hrow
      cases hrow
  | uncleared l old k hr => exact absurd hok hr
  | goOn l old new stage stage' hs =>
    obtain ⟨hns, row, hrow, -⟩ := hC
    refine ⟨hK, ?_⟩
    rintro _ ⟨⟩
    refine ⟨hns, row, hrow, fun loaded he => ?_⟩
    subst he
    rw [Option.mem_unique hrow hs.next_update]
  | save l old new stage s' result hs =>
    have hu := unsent_of_saving hs hN hC
    obtain ⟨hl, -, hn, hsent⟩ := hs.frame
    refine ⟨⟨?_, hsent ▸ hK.nodup, fun _ => hu⟩, by rintro _ ⟨⟩; exact hu⟩
    rw [hsent, hn]
    exact hK.sent
  | clear l old result => exact ⟨⟨hK.sent, hK.nodup, by rintro _ _ ⟨⟩⟩, by rintro _ ⟨⟩ _ ⟨⟩⟩
  | release l result => exact ⟨⟨hK.sent, hK.nodup, fun _ => hC⟩, by rintro _ ⟨⟩; trivial⟩
  | lapse l => exact ⟨⟨hK.sent, hK.nodup, fun _ => hC⟩, by rintro _ ⟨⟩⟩
  | authorize =>
    refine ⟨⟨fun r hr => Nat.lt_succ_of_lt (hK.sent r hr), hK.nodup, hK.idle⟩, ?_⟩
    rintro _ ⟨⟩
    exact fun hmem => Nat.lt_irrefl _ (hK.sent _ hmem)
  | callbackGoOn new stage stage' hs => exact ⟨hK, by rintro _ ⟨⟩; exact hC⟩
  | callbackSave new stage s' hs =>
    obtain ⟨hl, -, hn, hsent⟩ := hs.frame
    refine ⟨⟨?_, hsent ▸ hK.nodup, fun hfree => hs.unsent (hK.idle (hl ▸ hfree)) hC⟩, by rintro _ ⟨⟩; trivial⟩
    rw [hsent, hn]
    exact hK.sent

/-- A token in hand has been issued. -/
theorem hand_lt {r : ℕ} (hN : KnowsNew s p) (hC : KnowsTokens s p) (h : hand p = some r) : r < s.nextToken := by
  cases p with
  | refreshing l old =>
    cases h
    exact hC.2.2.1
  | saving l old new stage =>
    cases h
    exact (hN.below new rfl).2
  | callbackSaving new stage =>
    cases h
    exact (hN.below new rfl).2
  | _ => cases h

/-- A step leaves its call with the token that it had, none, one just issued, or the
one of the connection. -/
theorem Effect.hand (h : Effect s e p s' k) (hk : k = some q) {r : ℕ} (hr : hand q = some r) :
    r = s.nextToken ∨ Tokens.hand p = some r ∨
      ∃ l, lockOf p = some l ∧ ∃ row ∈ s.connection, row.tokens.refreshToken = r := by
  cases h with
  | start l row hc =>
    cases hk
    cases hr
    exact .inr (.inr ⟨l, rfl, row, hc, rfl⟩)
  | issued l old | authorize =>
    cases hk
    cases hr
    exact .inl rfl
  | goOn | callbackGoOn =>
    cases hk
    exact .inr (.inl hr)
  | unsettled l old k _ hl | leave l k hl | unsaved l old new stage k _ hl | uncleared l old k _ hl =>
    cases hk
    rw [hl.hand] at hr
    cases hr
  | _ => cases hk <;> cases hr

/-- Only the holder of the lock sends a token. -/
theorem Effect.sent (h : Effect s e p s' k) : s'.sent = s.sent ∨
    ∃ l r, lockOf p = some l ∧ Tokens.hand p = some r ∧ s'.sent = r :: s.sent := by
  cases h with
  | issued l old | refused l old | unsettled l old => exact .inr ⟨l, _, rfl, rfl, rfl⟩
  | save l old new stage s' result hs | callbackSave new stage s' hs => exact .inl hs.frame.2.2.2
  | _ => exact .inl rfl

theorem fetched_unsent (hC : KnowsTokens s p) (h : fetched p = some new) : new.refreshToken ∉ s.sent := by
  cases p with
  | saving l old new' stage =>
    cases h
    exact hC.1
  | callbackSaving new' stage =>
    cases h
    exact hC
  | _ => cases h

/-- Without the lock a step sends no token, saves only what has not been sent, and leaves the row. -/
theorem Effect.unlocked (h : Effect s e p s' k) (hC : KnowsTokens s p) (hl : lockOf p = none) :
    s'.sent = s.sent ∧ (Unsent s → Unsent s') ∧ ∀ row ∈ s.connection, ∃ row' ∈ s'.connection, row'.id = row.id := by
  have hsent : s'.sent = s.sent := by
    rcases h.sent with hs | ⟨l, r, hp, -, -⟩
    · exact hs
    · rw [hl] at hp
      cases hp
  refine ⟨hsent, fun hu => ?_, fun row hrow => ?_⟩
  · have hmem := h.mem_connection (fun _ => True) (· ∉ s.sent) (fun row hrow => ⟨trivial, hu row hrow⟩)
      fun new hn => ⟨trivial, fetched_unsent hC hn⟩
    intro row hrow
    rw [hsent]
    exact (hmem row hrow).2
  · rcases h.keeps hrow with ⟨l, old, rfl⟩ | hkeeps
    · cases hl
    · exact hkeeps

/-- What a call knows of the tokens, no other call makes false. -/
theorem fresh_frame (hC : KnowsTokens s p) (hCq : KnowsTokens s q) (hA : HasLock s p) (hAq : HasLock s q)
    (hB : OtherLock p q) (hD : OtherHand p q) (h : Effect s e p s' k) : KnowsTokens s' q := by
  have hle := h.nextToken_le
  have unlocked {l : ℕ} (hq : lockOf q = some l) : lockOf p = none := by
    cases hp : lockOf p with
    | none => rfl
    | some l' => exact (not_both_locked hA hAq hB hp hq).elim
  cases q with
  | locked l | releasing l result | lapsing l => exact (h.unlocked hC (unlocked rfl)).2.1 hCq
  | refreshing l old =>
    obtain ⟨hsent, hunsent, hkeeps⟩ := h.unlocked hC (unlocked rfl)
    obtain ⟨hu, hns, hlt, row, hrow⟩ := hCq
    obtain ⟨row', hrow', -⟩ := hkeeps row hrow
    exact ⟨hunsent hu, hsent ▸ hns, Nat.lt_of_lt_of_le hlt hle, row', hrow'⟩
  | saving l old new stage =>
    obtain ⟨hsent, -, hkeeps⟩ := h.unlocked hC (unlocked rfl)
    obtain ⟨hns, row, hrow, hid⟩ := hCq
    obtain ⟨row', hrow', he⟩ := hkeeps row hrow
    exact ⟨hsent ▸ hns, row', hrow', fun loaded hs => he.trans (hid loaded hs)⟩
  | callbackSaving new stage =>
    rcases h.sent with hs | ⟨l, r, -, hr, hs⟩
    · exact fun hmem => hCq (hs ▸ hmem)
    · intro hmem
      rw [hs] at hmem
      rcases List.mem_cons.mp hmem with he | hmem
      · exact hD r hr (congrArg some he)
      · exact hCq hmem
  | forUser | waiting | clearing | answered | callback | connected => trivial

/-- The token that a call comes to hold is no other's. -/
theorem otherHand_goOn {r : Point} (hA : HasLock s p) (hN : KnowsNew s q) (hCq : KnowsTokens s q) (hAq : HasLock s q)
    (hB : OtherLock p q) (hD : OtherHand p q) (h : Effect s e p s' (some r)) : OtherHand r q := by
  intro t ht hq
  rcases h.hand rfl ht with rfl | hp | ⟨l, hl, row, hrow, rfl⟩
  · exact Nat.lt_irrefl _ (hand_lt hN hCq hq)
  · exact hD t hp hq
  · cases q with
    | callbackSaving new stage => exact (hN.other new rfl row hrow).2 (Option.some.inj hq).symm
    | refreshing l' old =>
      have hl' : lockOf (.refreshing l' old) = some l' := rfl
      exact not_both_locked hA hAq hB hl hl'
    | saving l' old new stage =>
      have hl' : lockOf (.saving l' old new stage) = some l' := rfl
      exact not_both_locked hA hAq hB hl hl'
    | _ => cases hq

/-- While every call settles what it has sent, no token is sent twice. -/
theorem freshOutline : ApartOutline (program.restrict Settles) (fun s => (LockDrawn s ∧ Issued s) ∧ Fresh s)
    (fun s p => (HasLock s p ∧ KnowsNew s p) ∧ KnowsTokens s p)
    (fun p q => (OtherLock p q ∧ OtherNew p q) ∧ OtherHand p q) :=
  (lockOutline.and newOutline).strengthen (fun _ _ h r hq hp => h r hp hq)
    (fun s p _ _ hp => by
      cases p with
      | forUser | callback => trivial
      | _ => cases hp)
    (fun _ p _ _ _ hp _ _ r hr => by simp [(entry_none hp).2.1] at hr)
    (fun s p e s' k hI hK hA hC hok hm => fresh_move hI.2 hK hA.1 hA.2 hC hok (effect hm))
    (fun s p e s' p' q _ _ hA _ hAq hCq hB hD _ hm =>
      otherHand_goOn hA.1 hAq.2 hCq hAq.1 hB.1 hD (effect hm))
    fun s p e s' k q _ _ hA hC hAq hCq hB hD _ hm => fresh_frame hC hCq hA.1 hAq.1 hB.1 hD (effect hm)

end Tokens
end Daywright
