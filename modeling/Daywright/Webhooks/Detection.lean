/-
# What a change set changes

`hasChanges` decides whether an event changes the row; if not, the event is skipped and
the watermark moves past it. It takes its comparison from the values it meets, not from
the field: two strings that PHP reads as numbers count as equal if their integers are.
So a text field can be overlooked whose two values are different numeric strings with
one integer (`Confusable`), and an event is skipped in error exactly if it carries such
a field and changes nothing else (`skips_rightly_iff`).

Key definitions: `StoredRow`, `SameValue`, `Confusable`, `SkipsRightly`.
Key theorems: `hasChanged_eq_false`, `skips_rightly_iff`.
-/
import Daywright.Webhooks.Columns
import Mathlib.Data.List.Nodup

namespace Daywright
namespace ZoomMeetingUpdatedWebhookChanges

open Php MeetingUpdatedWebhookData

/-- The fields of an event that hold text. The table has no `uuid`: there is a null. -/
def textFields : List String := ["topic", "password", "timezone", "uuid", "join_url", "start_url", "agenda"]

/-- What the columns of the table can hold. -/
structure StoredRow (E : Env) (m : Meeting) : Prop where
  text : ∀ name ∈ textFields, m.attributes name = .null ∨ ∃ s, m.attributes name = .str s
  duration : ∃ n, m.attributes "duration" = .int n
  startTime : ∃ t, instant E (m.attributes "start_time") = some (some t)
  joinBeforeHost : ∃ b, m.attributes "join_before_host" = Meeting.column (.bool b)

/-- The two values of a column mean the same: the same instant, the same boolean, the
same integer or the same string. -/
def SameValue (E : Env) (name : String) (current value : Value) : Prop :=
  if name = "start_time" then ∃ t, instant E current = some (some t) ∧ instant E value = some (some t)
  else if name = "join_before_host" then toBool current = toBool value
  else current = value

/-- Two numeric strings that differ, with the same integer. -/
def Confusable (name : String) (current value : Value) : Prop :=
  name ∈ textFields ∧ current ≠ value ∧ (numeric current).isSome ∧ numeric current = numeric value

/-- If the event is skipped, writing it would have left each of its fields as it is. -/
def SkipsRightly (E : Env) (m : Meeting) (changes : Fields) : Prop :=
  hasChanges E m changes = some false →
    ∀ f ∈ changes, SameValue E f.1 (m.attributes f.1) ((m.fill changes).attributes f.1)

/-! ### What an event carries -/

/-- A field of an event and its value. -/
inductive Carried : String × Value → Prop
  | text {name : String} (h : name ∈ textFields) (s : String) : Carried (name, .str s)
  | duration (n : ℤ) : Carried ("duration", .int n)
  | startTime (s : String) : Carried ("start_time", .str s)
  | joinBeforeHost (b : Bool) : Carried ("join_before_host", .bool b)

variable {E : Env} {fmt : ℤ → String} {payload : MeetingUpdatedPayload} {m : Meeting}

theorem carried_of_normalizedField {name : String} {value v : Value} (hn : name ∈ MeetingUpdatedWebhookData.allowedFields)
    (h : normalizedField E fmt name value = some v) : Carried (name, v) := by
  unfold normalizedField at h
  split at h
  · rename_i hd
    subst hd
    obtain ⟨n, -, rfl⟩ := Option.map_eq_some_iff.mp h
    exact .duration n
  split at h
  · rename_i hs
    subst hs
    cases value with
    | str s =>
      simp only [normalizeStartTime, Option.ite_none_left_eq_some, Option.map_eq_some_iff] at h
      obtain ⟨-, t, -, rfl⟩ := h
      exact .startTime _
    | _ => cases h
  · rename_i hd hs
    split at h <;> cases h
    refine .text ?_ _
    simpa [MeetingUpdatedWebhookData.allowedFields, textFields, hd, hs] using hn

theorem carried_of_mem {f : String × Value} (hf : f ∈ normalizeChanges E fmt payload) : Carried f := by
  rcases List.mem_append.mp hf with hf | hf
  · obtain ⟨name, hn, hv⟩ := List.mem_filterMap.mp hf
    obtain ⟨value, -, hv⟩ := Option.bind_eq_some_iff.mp hv
    obtain ⟨v, hv', rfl⟩ := Option.map_eq_some_iff.mp hv
    exact carried_of_normalizedField hn hv'
  · obtain ⟨v, hv, rfl⟩ := Option.map_eq_some_iff.mp (Option.mem_toList.mp hf)
    unfold normalizedJoinBeforeHost at hv
    split at hv
    · cases hv
    · obtain ⟨b, -, rfl⟩ := Option.map_eq_some_iff.mp hv
      exact .joinBeforeHost b

theorem names_filterMap_sublist {g : String → Option (String × Value)} (hg : ∀ n f, g n = some f → f.1 = n) :
    ∀ names : List String, ((names.filterMap g).map (·.1)).Sublist names
  | [] => .slnil
  | n :: names => by
    rw [List.filterMap_cons]
    split
    · exact (names_filterMap_sublist hg names).cons n
    · rename_i f hf
      rw [List.map_cons, hg n f hf]
      exact (names_filterMap_sublist hg names).cons_cons n

/-- An event names no field twice. -/
theorem nodup_normalizeChanges : ((normalizeChanges E fmt payload).map (·.1)).Nodup := by
  have hsub := names_filterMap_sublist (g := fun name => (field name payload.entries).bind fun value =>
    (normalizedField E fmt name value).map fun v => (name, v)) (fun n f h => by
      obtain ⟨value, -, h⟩ := Option.bind_eq_some_iff.mp h
      obtain ⟨v, -, rfl⟩ := Option.map_eq_some_iff.mp h
      rfl) MeetingUpdatedWebhookData.allowedFields
  rw [normalizeChanges, List.map_append, List.nodup_append]
  refine ⟨hsub.nodup (by decide), ?_, fun a ha b hb => ?_⟩
  · cases normalizedJoinBeforeHost payload.joinBeforeHost <;> simp
  · obtain ⟨f, hf, rfl⟩ := List.mem_map.mp hb
    obtain ⟨v, -, rfl⟩ := Option.map_eq_some_iff.mp (Option.mem_toList.mp hf)
    have hnot : "join_before_host" ∉ MeetingUpdatedWebhookData.allowedFields := by decide
    rintro rfl
    exact hnot (hsub.subset ha)

/-- A column that a statement names once holds the value given for it. -/
theorem fill_attributes_of_mem {fields : Fields} (hn : (fields.map (·.1)).Nodup) {f : String × Value}
    (hf : f ∈ fields) : (m.fill fields).attributes f.1 = Meeting.column f.2 := by
  rcases Meeting.fill_attributes fields f.1 m with ⟨hnot, -⟩ | ⟨f', hf', he, h⟩
  · exact absurd (List.mem_map_of_mem hf) hnot
  · rw [h, List.inj_on_of_nodup_map hn hf' hf he]

/-! ### One field -/

theorem textFields_ne {name : String} (h : name ∈ textFields) :
    name ≠ "start_time" ∧ name ≠ "duration" ∧ name ≠ "join_before_host" := by
  have : ∀ n ∈ textFields, n ≠ "start_time" ∧ n ≠ "duration" ∧ n ≠ "join_before_host" := by decide
  exact this name h

theorem not_confusable {name : String} {current value : Value} (h : name ∉ textFields) :
    ¬ Confusable name current value := fun hc => h hc.1

theorem hasChanged_text {name s : String} (hm : StoredRow E m) (hn : name ∈ textFields) :
    hasChanged E m name (.str s) = some false ↔
      m.attributes name = .str s ∨ Confusable name (m.attributes name) (.str s) := by
  have hb : (m.attributes name).isBool = false := by
    rcases hm.text name hn with h | ⟨t, h⟩ <;> rw [h] <;> rfl
  have hs : ¬ ((m.attributes name).isBool || (Value.str s).isBool) = true := by
    rw [hb]
    exact Bool.false_ne_true
  simp only [hasChanged, if_neg (textFields_ne hn).1, if_neg hs]
  by_cases he : m.attributes name = .str s
  · simp [he]
  · by_cases hc : (numeric (m.attributes name)).isSome && (numeric (.str s)).isSome
    · rw [if_pos hc]
      rw [Bool.and_eq_true] at hc
      simp only [Option.some.injEq, bne_eq_false_iff_eq, he, false_or, Confusable, hn, true_and, ne_eq,
        not_false_eq_true, hc.1]
      exact eq_comm
    · rw [if_neg hc]
      have hnot : ¬ Confusable name (m.attributes name) (.str s) := by
        rintro ⟨-, -, h, heq⟩
        rw [heq] at h
        exact hc (by rw [heq, h]; rfl)
      simp [he, hnot, Ne.symm he]

/-- **A field counts as unchanged** if its values mean the same, or can be confused. -/
theorem hasChanged_eq_false {f : String × Value} (hm : StoredRow E m) (hf : Carried f) :
    hasChanged E m f.1 f.2 = some false ↔
      SameValue E f.1 (m.attributes f.1) (Meeting.column f.2) ∨ Confusable f.1 (m.attributes f.1) f.2 := by
  cases hf with
  | text hn s =>
    have hne := textFields_ne hn
    rw [hasChanged_text hm hn, SameValue, if_neg hne.1, if_neg hne.2.2]
    rfl
  | duration n =>
    obtain ⟨k, hk⟩ := hm.duration
    have hsame : SameValue E "duration" (m.attributes "duration") (Meeting.column (.int n)) ↔ n = k := by
      simp [SameValue, hk, Meeting.column, eq_comm]
    have hnot : "duration" ∉ textFields := by decide
    rw [or_iff_left (not_confusable hnot), hsame]
    simp [hasChanged, hk, Value.isBool, numeric]
  | startTime s =>
    obtain ⟨t, ht⟩ := hm.startTime
    have hnot : "start_time" ∉ textFields := by decide
    rw [or_iff_left (not_confusable hnot)]
    simp only [hasChanged, if_true, timeHasChanged, ht, SameValue, Meeting.column, Option.some.injEq, exists_eq_left']
    cases hv : instant E (.str s) with
    | none => simp
    | some v =>
      simp only [Option.some.injEq, bne_eq_false_iff_eq]
      exact eq_comm
  | joinBeforeHost b =>
    have hcol : Php.toBool (Meeting.column (.bool b)) = Php.toBool (.bool b) := by cases b <;> rfl
    have hnot : "join_before_host" ∉ textFields := by decide
    have hsame : SameValue E "join_before_host" (m.attributes "join_before_host") (Meeting.column (.bool b)) ↔
        Php.toBool (m.attributes "join_before_host") = Php.toBool (.bool b) := by
      rw [SameValue, if_neg (by decide), if_pos rfl, hcol]
    have hne : "join_before_host" ≠ "start_time" := by decide
    have hbool : ((m.attributes "join_before_host").isBool || (Value.bool b).isBool) = true := Bool.or_true _
    rw [or_iff_left (not_confusable hnot), hsame, hasChanged, if_neg hne, if_pos hbool, Option.some.injEq,
      bne_eq_false_iff_eq]
    exact eq_comm

/-- What can be confused is not the same. -/
theorem not_sameValue_of_confusable {f : String × Value} (hf : Carried f)
    (hc : Confusable f.1 (m.attributes f.1) f.2) : ¬ SameValue E f.1 (m.attributes f.1) (Meeting.column f.2) := by
  obtain ⟨hname, hvalue, -, -⟩ := hc
  have hne := textFields_ne hname
  rw [SameValue, if_neg hne.1, if_neg hne.2.2]
  cases hf with
  | text hn s => exact hvalue
  | duration => exact absurd rfl hne.2.1
  | startTime => exact absurd rfl hne.1
  | joinBeforeHost => exact absurd rfl hne.2.2

/-! ### All of them -/

theorem hasChanges_eq_false {changes : Fields} : hasChanges E m changes = some false ↔
    ∀ f ∈ changes, hasChanged E m f.1 f.2 = some false := by
  induction changes with
  | nil => simp [hasChanges]
  | cons f changes ih =>
    rw [hasChanges]
    split
    · rename_i h
      simp [h]
    · rename_i h
      simp [h]
    · rename_i h
      simp [h, ih]

/-- **A skipped event would have changed nothing** exactly if none of its fields can be
confused with what is stored, or another one tells that it is no repetition. -/
theorem skips_rightly_iff (hm : StoredRow E m) : SkipsRightly E m (normalizeChanges E fmt payload) ↔
    (∀ f ∈ normalizeChanges E fmt payload, ¬ Confusable f.1 (m.attributes f.1) f.2) ∨
      ∃ f ∈ normalizeChanges E fmt payload, ¬ SameValue E f.1 (m.attributes f.1) (Meeting.column f.2) ∧
        ¬ Confusable f.1 (m.attributes f.1) f.2 := by
  have written {f : String × Value} (hf : f ∈ normalizeChanges E fmt payload) :
      (m.fill (normalizeChanges E fmt payload)).attributes f.1 = Meeting.column f.2 :=
    fill_attributes_of_mem nodup_normalizeChanges hf
  have unchanged {f : String × Value} (hf : f ∈ normalizeChanges E fmt payload) :
      hasChanged E m f.1 f.2 = some false ↔
        SameValue E f.1 (m.attributes f.1) (Meeting.column f.2) ∨ Confusable f.1 (m.attributes f.1) f.2 :=
    hasChanged_eq_false hm (carried_of_mem hf)
  unfold SkipsRightly
  rw [hasChanges_eq_false]
  constructor
  · intro h
    by_contra hn
    rw [not_or] at hn
    obtain ⟨hconf, hseen⟩ := hn
    obtain ⟨f, hf, hc⟩ : ∃ f ∈ normalizeChanges E fmt payload, Confusable f.1 (m.attributes f.1) f.2 := by
      by_contra hn
      exact hconf fun f hf hc => hn ⟨f, hf, hc⟩
    have hskipped : ∀ g ∈ normalizeChanges E fmt payload, hasChanged E m g.1 g.2 = some false := by
      intro g hg
      by_contra hn
      rw [unchanged hg] at hn
      exact hseen ⟨g, hg, not_or.mp hn⟩
    have hsame := h hskipped f hf
    rw [written hf] at hsame
    exact not_sameValue_of_confusable (carried_of_mem hf) hc hsame
  · intro h hall f hf
    rw [written hf]
    rcases h with h | ⟨g, hg, hs, hc⟩
    · exact ((unchanged hf).mp (hall f hf)).resolve_right (h f hf)
    · exact absurd ((unchanged hg).mp (hall g hg)) (not_or.mpr ⟨hs, hc⟩)

/-! ### A password of digits -/

namespace Sample

/-- A meeting whose password begins with a zero. -/
def row : Meeting :=
  CreateProjectMeeting.blankMeeting.fill
    { Meetings.Sample.storeData with password := "0123456" }.toArray

def event (name value : String) : Fields :=
  normalizeChanges Meetings.Sample.env (fun _ => "") ⟨some 77, [(name, .str value)], .null⟩

theorem storedRow : StoredRow Meetings.Sample.env row where
  text name hn := by
    simp only [textFields, List.mem_cons, List.not_mem_nil, or_false] at hn
    rcases hn with rfl | rfl | rfl | rfl | rfl | rfl | rfl
    · exact .inr ⟨_, rfl⟩
    · exact .inr ⟨_, rfl⟩
    · exact .inr ⟨_, rfl⟩
    · exact .inl rfl
    · exact .inl rfl
    · exact .inl rfl
    · exact .inr ⟨_, rfl⟩
  duration := ⟨_, rfl⟩
  startTime := ⟨_, rfl⟩
  joinBeforeHost := ⟨false, rfl⟩

end Sample

theorem skips_rightly_iff_topic : SkipsRightly Meetings.Sample.env Sample.row (Sample.event "topic" "Planning") := by
  refine (skips_rightly_iff Sample.storedRow).mpr (.inl fun f hf hc => ?_)
  have hf : f ∈ [("topic", Value.str "Planning")] := hf
  rw [List.mem_singleton.mp hf] at hc
  exact hc.2.1 rfl

/-- The zero is dropped from the password, and the event is taken for a repetition. -/
theorem password_overlooked :
    ¬ SkipsRightly Meetings.Sample.env Sample.row (Sample.event "password" "123456") := by
  intro h
  have hsame := h (by decide) ("password", .str "123456") List.mem_cons_self
  have hne : ¬ SameValue Meetings.Sample.env "password" (.str "0123456") (.str "123456") := by
    simp [SameValue]
  exact hne hsame

end ZoomMeetingUpdatedWebhookChanges
end Daywright
