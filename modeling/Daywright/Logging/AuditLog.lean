/-
# The audit log

`AuditLogService.log` writes one row for each call: who acted (`determineContext`), on
what, and three arrays of the caller's, of which `ScrubSensitiveData.sanitize` has put
`********` for whatever stands under a sensitive key, at any depth (`Redact`). The request's
address and agent are merged into the metadata before.

So the table says everything about the calls but what stands under sensitive keys:
after any calls the tables are the same if and only if the calls differ in nothing else
(`auditLogs_eq_iff`), and what stands at a path of a column is a mask that ends the path, or
what a call gave at this path, none of whose keys is sensitive (`of_get?_column`).

A row is what `AuditLog::create` is given: how its arrays are encoded, how the database
orders their keys, and that some cannot be encoded, is left out. The leaves of an array are
its strings and its other values that are no arrays (`ω`), whose content is not looked at.
`mb_strtolower` is a parameter.

Key definitions: `isSensitiveKey`, `sanitize`, `arrayMerge`, `AuditLogService.log`, `logAll`.
Key theorems: `auditLogs_eq_iff`, `of_get?_column`.
-/
import Daywright.QueryBuilder.EscapesLikeWildcards
import Daywright.Redact

namespace Daywright

open Redact

/-- A key of an array. -/
inductive Php.Key where
  | int (n : ℤ)
  | str (s : String)
  deriving DecidableEq, Repr

/-- `(string) $key`. -/
def Php.Key.text : Php.Key → String
  | .int n => toString n
  | .str s => s

/-- A value that is no array. -/
inductive Php.Scalar (ω : Type) where
  | null
  | str (s : String)
  | other (v : ω)
  deriving DecidableEq, Repr

abbrev Php.Mixed (ω : Type) := Nested Php.Key (Php.Scalar ω)

abbrev Php.Fields (ω : Type) := List (Php.Key × Php.Mixed ω)

namespace ScrubSensitiveData

open Php

variable {ω : Type} (mbStrtolower : String → String)

def redacted : String := "********"

def sensitiveKeys : List String :=
  ["password", "password_confirmation", "current_password", "token", "access_token", "refresh_token",
    "authorization", "client_secret", "api_key", "x_api_key", "secret", "secret_key", "webhook_secret",
    "vendor_auth_code", "code_verifier", "recovery_code", "recovery_codes", "cookie", "set_cookie", "cc_number",
    "card_number", "cvv"]

def normalizeKey (key : Key) : String :=
  String.ofList (Php.strReplace ["-", " "] ["_", "_"] (mbStrtolower key.text).toList)

def isSensitiveKey (key : Key) : Bool :=
  let normalized := normalizeKey mbStrtolower key
  sensitiveKeys.contains normalized
    || decide ("password".toList <:+: normalized.toList)
    || decide ("_token".toList <:+ normalized.toList)
    || decide ("_secret".toList <:+ normalized.toList)
    || decide ("_secret_key".toList <:+ normalized.toList)
    || decide ("_auth_code".toList <:+ normalized.toList)

def mask : Mixed ω := .leaf (.str redacted)

def sanitize (data : Fields ω) : Fields ω := redactEntries (isSensitiveKey mbStrtolower) mask data

/-- A log record, as the processor on each handler finds it. -/
structure LogRecord (ω : Type) where
  message : String
  context : Fields ω
  extra : Fields ω

/-- The processor that `__invoke` pushes on each handler. -/
def processor (record : LogRecord ω) : LogRecord ω :=
  { record with
    context := sanitize mbStrtolower record.context
    extra := sanitize mbStrtolower record.extra }

/-- No key of the list is missed for its spelling, if it is in lower case. -/
theorem isSensitiveKey_of_mem {key : String} (h : key ∈ sensitiveKeys) (hlower : mbStrtolower key = key) :
    isSensitiveKey mbStrtolower (.str key) = true := by
  have hspelled : ∀ key ∈ sensitiveKeys,
      String.ofList (Php.strReplace ["-", " "] ["_", "_"] key.toList) = key := by decide +kernel
  have hnormal : normalizeKey mbStrtolower (.str key) = key := by
    rw [normalizeKey, Key.text, hlower, hspelled key h]
  have hlist : sensitiveKeys.contains key = true := List.contains_iff_mem.mpr h
  simp only [isSensitiveKey, hnormal, hlist, Bool.true_or]

theorem sanitize_eq_iff {data data' : Fields ω} :
    sanitize mbStrtolower data = sanitize mbStrtolower data' ↔
      AgreeEntries (isSensitiveKey mbStrtolower) data data' := by
  have hnode : sanitize mbStrtolower data = sanitize mbStrtolower data' ↔
      redact (isSensitiveKey mbStrtolower) mask (.node data) =
        redact (isSensitiveKey mbStrtolower) mask (.node data') := by
    rw [redact, redact, Nested.node.injEq]
    exact Iff.rfl
  rw [hnode, redact_eq_iff]
  exact ⟨fun h => by cases h with | node h => exact h, .node⟩

/-- The processor of two handlers in a row does what that of one does. -/
theorem processor_processor (record : LogRecord ω) :
    processor mbStrtolower (processor mbStrtolower record) = processor mbStrtolower record := by
  have htwice (data : Fields ω) :
      sanitize mbStrtolower (sanitize mbStrtolower data) = sanitize mbStrtolower data := by
    have hnode : redact (isSensitiveKey mbStrtolower) mask (redact (isSensitiveKey mbStrtolower) mask (.node data)) =
        redact (isSensitiveKey mbStrtolower) mask (.node data) := redact_redact (.node data)
    exact Nested.node.inj hnode
  rw [processor, processor, htwice, htwice]

end ScrubSensitiveData

open Php

/-- `array_merge($a, $b)`: a text key keeps its place and takes the later value; the
numbered values are numbered anew. -/
def Php.arrayMerge {α : Type} (a b : List (Key × α)) : List (Key × α) := insert 0 [] (a ++ b)
where
  insert (next : ℤ) (merged : List (Key × α)) : List (Key × α) → List (Key × α)
    | [] => merged
    | (.int _, v) :: es => insert (next + 1) (merged ++ [(.int next, v)]) es
    | (.str s, v) :: es => insert next (put (.str s) v merged) es

namespace AuditLogService

variable {ω : Type} (mbStrtolower : String → String)

structure PersonalAccessToken where
  id : ℕ
  abilities : List String

/-- `can('*')`. -/
def PersonalAccessToken.canAll (token : PersonalAccessToken) : Bool := token.abilities.contains "*"

/-- Who is logged in: on the `web` guard, and on the `sanctum` guard with the access token of
the request, if it is no `TransientToken`. -/
structure Auth where
  web : Option ℕ
  sanctum : Option (ℕ × Option PersonalAccessToken)

structure Context where
  actorType : String
  actorId : Option ℕ
  keyId : Option ℕ
  deriving DecidableEq, Repr

def determineContext (auth : Auth) : Context :=
  match auth.web, auth.sanctum with
  | some user, _ => ⟨"user", some user, none⟩
  | none, some (user, some token) => ⟨if token.canAll then "mobile_app" else "api_token", some user, some token.id⟩
  | none, some (user, none) => ⟨"user", some user, none⟩
  | none, none => ⟨"system", none, none⟩

/-- What the service sees of the request. -/
structure Request where
  auth : Auth
  runningInConsole : Bool
  ip : Option String
  userAgent : Option String

/-- A call of `log`, in its request. -/
structure Call (ω : Type) where
  request : Request
  event : String
  auditable : Option (String × ℕ)
  oldValues : Option (Fields ω)
  newValues : Option (Fields ω)
  metadata : Fields ω

/-- A row of `audit_logs`, but for its key and the time that the database gives it. -/
structure AuditLog (ω : Type) where
  context : Context
  event : String
  auditableType : Option String
  auditableId : Option ℕ
  oldValues : Option (Fields ω)
  newValues : Option (Fields ω)
  metadata : Fields ω

def text (s : Option String) : Mixed ω := .leaf (s.elim .null .str)

def requestMetadata (r : Request) : Fields ω :=
  [(.str "ip_address", text (if r.runningInConsole then some "127.0.0.1" else r.ip)),
    (.str "user_agent", text (if r.runningInConsole then some "CLI/Queue" else r.userAgent))]

/-- The metadata before they are sanitized. -/
def Call.merged (c : Call ω) : Fields ω := arrayMerge (requestMetadata c.request) c.metadata

def log (c : Call ω) : AuditLog ω where
  context := determineContext c.request.auth
  event := c.event
  auditableType := c.auditable.map (·.1)
  auditableId := c.auditable.map (·.2)
  oldValues := c.oldValues.map (ScrubSensitiveData.sanitize mbStrtolower)
  newValues := c.newValues.map (ScrubSensitiveData.sanitize mbStrtolower)
  metadata := ScrubSensitiveData.sanitize mbStrtolower c.merged

/-- The calls one after the other: each appends its row. -/
def logAll (calls : List (Call ω)) (table : List (AuditLog ω)) : List (AuditLog ω) :=
  calls.foldl (fun table c => table ++ [log mbStrtolower c]) table

theorem logAll_eq (calls : List (Call ω)) : ∀ table : List (AuditLog ω),
    logAll mbStrtolower calls table = table ++ calls.map (log mbStrtolower) := by
  induction calls with
  | nil => exact fun table => (List.append_nil table).symm
  | cons c calls ih =>
    intro table
    rw [logAll, List.foldl_cons]
    exact (ih (table ++ [log mbStrtolower c])).trans (by rw [List.append_assoc, List.map_cons, List.singleton_append])

/-! ### What the table says about the calls -/

/-- The two calls differ at most in what they give under sensitive keys. -/
structure Call.Agree (c c' : Call ω) : Prop where
  context : determineContext c.request.auth = determineContext c'.request.auth
  event : c.event = c'.event
  auditable : c.auditable = c'.auditable
  oldValues : Option.Rel (AgreeEntries (ScrubSensitiveData.isSensitiveKey mbStrtolower)) c.oldValues c'.oldValues
  newValues : Option.Rel (AgreeEntries (ScrubSensitiveData.isSensitiveKey mbStrtolower)) c.newValues c'.newValues
  merged : AgreeEntries (ScrubSensitiveData.isSensitiveKey mbStrtolower) c.merged c'.merged

variable {mbStrtolower}

theorem sanitize_map_eq_iff (v v' : Option (Fields ω)) :
    v.map (ScrubSensitiveData.sanitize mbStrtolower) = v'.map (ScrubSensitiveData.sanitize mbStrtolower) ↔
      Option.Rel (AgreeEntries (ScrubSensitiveData.isSensitiveKey mbStrtolower)) v v' := by
  cases v with
  | none =>
    cases v' with
    | none => exact ⟨fun _ => .none, fun _ => rfl⟩
    | some b => exact iff_of_false nofun nofun
  | some a =>
    cases v' with
    | none => exact iff_of_false nofun nofun
    | some b =>
      rw [Option.map_some, Option.map_some, Option.some_inj, ScrubSensitiveData.sanitize_eq_iff]
      exact ⟨.some, fun h => by cases h with | some h => exact h⟩

theorem auditable_eq_iff (a a' : Option (String × ℕ)) :
    a.map (·.1) = a'.map (·.1) ∧ a.map (·.2) = a'.map (·.2) ↔ a = a' := by
  cases a with
  | none => cases a' <;> simp
  | some a => cases a' <;> simp [Prod.ext_iff]

/-- The rows of two calls are the same if and only if the calls agree. -/
theorem log_eq_iff (c c' : Call ω) : log mbStrtolower c = log mbStrtolower c' ↔ c.Agree mbStrtolower c' := by
  rw [log, log, AuditLog.mk.injEq, sanitize_map_eq_iff, sanitize_map_eq_iff, ScrubSensitiveData.sanitize_eq_iff]
  constructor
  · rintro ⟨hcontext, hevent, htype, hid, hold, hnew, hmerged⟩
    exact ⟨hcontext, hevent, (auditable_eq_iff _ _).mp ⟨htype, hid⟩, hold, hnew, hmerged⟩
  · intro h
    have hauditable := (auditable_eq_iff _ _).mpr h.auditable
    exact ⟨h.context, h.event, hauditable.1, hauditable.2, h.oldValues, h.newValues, h.merged⟩

/-- **The audit log says everything but what is sensitive.** After any calls, in any
requests, the two tables are the same if and only if the calls agree one by one: in their
actor, event and subject, and in all of their arrays but what stands under sensitive keys,
at any depth. -/
theorem auditLogs_eq_iff (calls calls' : List (Call ω)) (table : List (AuditLog ω)) :
    logAll mbStrtolower calls table = logAll mbStrtolower calls' table ↔
      List.Forall₂ (Call.Agree mbStrtolower) calls calls' := by
  rw [logAll_eq, logAll_eq, List.append_cancel_left_eq]
  induction calls generalizing calls' with
  | nil =>
    rw [List.map_nil, List.forall₂_nil_left_iff]
    exact ⟨fun h => List.map_eq_nil_iff.mp h.symm, fun h => by rw [h, List.map_nil]⟩
  | cons c calls ih =>
    cases calls' with
    | nil => exact ⟨fun h => absurd h (List.cons_ne_nil _ _), fun h => nomatch h⟩
    | cons c' calls' => rw [List.map_cons, List.map_cons, List.cons.injEq, log_eq_iff, ih, List.forall₂_cons]

/-! ### What stands at a path of a column -/

/-- The arrays of a row that are not null. -/
def AuditLog.columns (row : AuditLog ω) : List (Fields ω) :=
  row.oldValues.toList ++ row.newValues.toList ++ [row.metadata]

/-- The arrays of a call, before they are sanitized. -/
def Call.given (c : Call ω) : List (Fields ω) := c.oldValues.toList ++ c.newValues.toList ++ [c.merged]

theorem columns_log (c : Call ω) :
    (log mbStrtolower c).columns = c.given.map (ScrubSensitiveData.sanitize mbStrtolower) := by
  have hmap (v : Option (Fields ω)) : (v.map (ScrubSensitiveData.sanitize mbStrtolower)).toList =
      v.toList.map (ScrubSensitiveData.sanitize mbStrtolower) := by
    cases v <;> rfl
  rw [AuditLog.columns, log, hmap, hmap, Call.given, List.map_append, List.map_append, List.map_singleton]

/-- A path has no sensitive key, or it has a first one. -/
theorem path_cases (hides : Key → Bool) (path : List Key) :
    (∀ k ∈ path, hides k = false) ∨
      ∃ ks k ks', path = ks ++ k :: ks' ∧ (∀ k ∈ ks, hides k = false) ∧ hides k = true := by
  induction path with
  | nil => exact .inl fun k h => absurd h List.not_mem_nil
  | cons k path ih =>
    by_cases hk : hides k = true
    · exact .inr ⟨[], k, path, rfl, fun k h => absurd h List.not_mem_nil, hk⟩
    · rcases ih with h | ⟨ks, j, ks', rfl, hks, hj⟩
      · exact .inl (List.forall_mem_cons.mpr ⟨(Bool.not_eq_true _).mp hk, h⟩)
      · exact .inr ⟨k :: ks, j, ks', rfl, List.forall_mem_cons.mpr ⟨(Bool.not_eq_true _).mp hk, hks⟩, hj⟩

/-- **Nothing that stands under a sensitive key is stored.** What stands at a path of a
column, after any calls, is a mask, at the only sensitive key of the path, which ends there;
or the path has no sensitive key, and there stands what the row's call gave there,
sanitized. -/
theorem of_get?_column (calls : List (Call ω)) :
    ∀ row ∈ logAll mbStrtolower calls [], ∀ column ∈ row.columns, ∀ (path : List Key) (v : Mixed ω),
      (Nested.node column).get? path = some v →
      (∃ ks k, path = ks ++ [k] ∧ (∀ k ∈ ks, ScrubSensitiveData.isSensitiveKey mbStrtolower k = false) ∧
        ScrubSensitiveData.isSensitiveKey mbStrtolower k = true ∧ v = ScrubSensitiveData.mask) ∨
      ((∀ k ∈ path, ScrubSensitiveData.isSensitiveKey mbStrtolower k = false) ∧
        ∃ c ∈ calls, row = log mbStrtolower c ∧
          ∃ data ∈ c.given, column = ScrubSensitiveData.sanitize mbStrtolower data ∧
          ∃ u, (Nested.node data).get? path = some u ∧
          v = redact (ScrubSensitiveData.isSensitiveKey mbStrtolower) ScrubSensitiveData.mask u) := by
  intro row hrow column hcolumn path v hv
  rw [logAll_eq, List.nil_append] at hrow
  obtain ⟨c, hc, rfl⟩ := List.mem_map.mp hrow
  rw [columns_log] at hcolumn
  obtain ⟨data, hdata, rfl⟩ := List.mem_map.mp hcolumn
  rw [ScrubSensitiveData.sanitize, ← redact] at hv
  rcases path_cases (ScrubSensitiveData.isSensitiveKey mbStrtolower) path with hpath | ⟨ks, k, ks', rfl, hks, hk⟩
  · rw [get?_redact hpath] at hv
    obtain ⟨u, hu, rfl⟩ := Option.map_eq_some_iff.mp hv
    exact .inr ⟨hpath, c, hc, rfl, data, hdata, rfl, u, hu, rfl⟩
  · rw [get?_redact_hidden hks hk] at hv
    obtain ⟨-, -, hmask⟩ := Option.bind_eq_some_iff.mp hv
    -- the mask is a text: nothing stands below it
    cases ks' with
    | nil => exact .inl ⟨ks, k, rfl, hks, hk, (Option.some.inj hmask).symm⟩
    | cons k' ks' => exact nomatch hmask

namespace Sample

def settings : Fields Unit :=
  [(.str "settings", .node [(.str "locale", .leaf (.str "en")), (.str "Access-Token", .leaf (.str "t1"))])]

def call : Call Unit where
  request := ⟨⟨none, none⟩, true, none, none⟩
  event := "user.updated"
  auditable := some ("App\\Models\\User", 1)
  oldValues := none
  newValues := some settings
  metadata := []

def path : List Key := [.str "settings", .str "Access-Token"]

end Sample

/-- The token of an array in an array is masked. -/
theorem of_get?_column_token : ∃ row ∈ logAll String.toLower [Sample.call] [], ∃ column ∈ row.columns,
    (Nested.node column).get? Sample.path = some (ScrubSensitiveData.mask : Mixed Unit) ∧
    ((∃ ks k, Sample.path = ks ++ [k] ∧
      (∀ k ∈ ks, ScrubSensitiveData.isSensitiveKey String.toLower k = false) ∧
      ScrubSensitiveData.isSensitiveKey String.toLower k = true ∧
      (ScrubSensitiveData.mask : Mixed Unit) = ScrubSensitiveData.mask) ∨
    ((∀ k ∈ Sample.path, ScrubSensitiveData.isSensitiveKey String.toLower k = false) ∧
      ∃ c ∈ [Sample.call], log String.toLower Sample.call = log String.toLower c ∧ ∃ data ∈ c.given,
        column = ScrubSensitiveData.sanitize String.toLower data ∧ ∃ u, (Nested.node data).get? Sample.path = some u ∧
        ScrubSensitiveData.mask =
          redact (ScrubSensitiveData.isSensitiveKey String.toLower) ScrubSensitiveData.mask u)) := by
  have hrow : log String.toLower Sample.call ∈ logAll String.toLower [Sample.call] [] := List.mem_singleton_self _
  have hcolumn : ScrubSensitiveData.sanitize String.toLower Sample.settings ∈
      (log String.toLower Sample.call).columns := by
    rw [columns_log]
    exact List.mem_map_of_mem (List.mem_append_left _ (List.mem_append_right _ (List.mem_singleton_self _)))
  have hsettings : ∀ k ∈ [Key.str "settings"], ScrubSensitiveData.isSensitiveKey String.toLower k = false := by
    decide +kernel
  have htoken : ScrubSensitiveData.isSensitiveKey String.toLower (.str "Access-Token") = true := by decide +kernel
  have hv : (Nested.node (ScrubSensitiveData.sanitize String.toLower Sample.settings)).get? Sample.path =
      some (ScrubSensitiveData.mask : Mixed Unit) := by
    have hthere : (Nested.node Sample.settings).get? ([.str "settings"] ++ [.str "Access-Token"]) =
        some (.leaf (.str "t1")) := rfl
    have hmasked : (redact (ScrubSensitiveData.isSensitiveKey String.toLower) ScrubSensitiveData.mask
        (.node Sample.settings)).get? ([.str "settings"] ++ .str "Access-Token" :: []) = _ :=
      get?_redact_hidden hsettings htoken _
    rw [hthere] at hmasked
    rw [ScrubSensitiveData.sanitize, ← redact]
    exact hmasked
  exact ⟨_, hrow, _, hcolumn, hv, of_get?_column [Sample.call] _ hrow _ hcolumn _ _ hv⟩

end AuditLogService
end Daywright
