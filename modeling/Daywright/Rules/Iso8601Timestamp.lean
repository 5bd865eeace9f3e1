/-
# Timestamps with an offset

`Iso8601Timestamp` matches a text against a pattern, reads what matched again with
`createFromFormat`, and takes warnings (a field out of range) for a refusal;
`normalizeToUtc` writes the second of a timestamp in UTC. So a timestamp is accepted, and
its normal form stands for its second (`normalizeToUtc_text`); two of the same second have
the same normal form.

The pattern ends in `$`, which also matches before a last line feed, so a timestamp with a
line feed behind it is accepted as well; and the year of the normal form has more than
four digits, or a sign, where the offset carries the timestamp out of the years 0 to 9999:
it is not accepted again. Elsewhere the rule is exact (`exact_iff`).

Key definitions: `pregMatch`, `createFromFormat`, `parse`, `normalizeToUtc`, `Timestamp`, `Exact`.
Key theorems: `parse_text`, `exists_of_parse`, `normalizeToUtc_text`, `exact_iff`.
-/
import Daywright.Calendar
import Daywright.FormRequest
import Daywright.Scan
import Mathlib.Data.List.Infix
import Mathlib.Data.List.TakeWhile

namespace Daywright
namespace Iso8601Timestamp

open Scan Calendar

/-! ### The pattern -/

/-- The named groups of `ISO_8601_PATTERN`; one that did not take part is empty. -/
structure Matches where
  date : List Char
  time : List Char
  fraction : List Char
  timezone : List Char
  deriving DecidableEq

/-- `(?:\.(?<fraction>\d{1,6}))?`; no digit follows, so it is of no use to take fewer
digits than there are. -/
def fractionGroup : List Char → List Char × List Char
  | [] => ([], [])
  | c :: cs =>
    let ds := (cs.takeWhile Char.isDigit).take 6
    if c = '.' ∧ ds ≠ [] then (ds, cs.drop ds.length) else ([], c :: cs)

/-- `[+-]\d{2}:\d{2}`: the sign, the hours and the minutes. -/
def offset : List Char → Option ((Char × List Char × List Char) × List Char)
  | [] => none
  | c :: cs =>
    if c = '+' ∨ c = '-' then
      (digits 2 cs).bind fun h => (char ':' h.2).bind fun cs => (digits 2 cs).map fun m => ((c, h.1, m.1), m.2)
    else none

/-- `(?<timezone>Z|[+-]\d{2}:\d{2})`. -/
def timezoneGroup : List Char → Option (List Char × List Char)
  | [] => none
  | c :: cs =>
    if c = 'Z' then some (['Z'], cs)
    else (offset (c :: cs)).map fun r => (r.1.1 :: (r.1.2.1 ++ ':' :: r.1.2.2), r.2)

/-- `preg_match(self::ISO_8601_PATTERN, $value, $matches)`. -/
def pregMatch (cs : List Char) : Option Matches := do
  let (year, cs) ← digits 4 cs
  let cs ← char '-' cs
  let (month, cs) ← digits 2 cs
  let cs ← char '-' cs
  let (day, cs) ← digits 2 cs
  let cs ← char 'T' cs
  let (hour, cs) ← digits 2 cs
  let cs ← char ':' cs
  let (minute, cs) ← digits 2 cs
  let cs ← char ':' cs
  let (second, cs) ← digits 2 cs
  let (fraction, cs) := fractionGroup cs
  let (timezone, cs) ← timezoneGroup cs
  -- `$` is the end, or before a line feed that is last
  if cs = [] ∨ cs = ['\n'] then
    some ⟨year ++ '-' :: (month ++ '-' :: day), hour ++ ':' :: (minute ++ ':' :: second), fraction, timezone⟩
  else none

/-! ### The date and time -/

/-- What `createFromFormat` has read, in range or not. -/
structure Parsed where
  year : ℕ
  month : ℕ
  day : ℕ
  hour : ℕ
  minute : ℕ
  second : ℕ
  microsecond : ℕ
  /-- In seconds, east of Greenwich. -/
  offset : ℤ
  deriving DecidableEq

def epoch : Parsed := ⟨1970, 1, 1, 0, 0, 0, 0, 0⟩

def offsetSeconds (sign : Char) (hours minutes : List Char) : ℤ :=
  (if sign = '-' then -1 else 1) * (value hours * 3600 + value minutes * 60)

/-- `DateTimeImmutable::createFromFormat`, for the characters of the formats used here. -/
def createFromFormat : (format cs : List Char) → Parsed → Option Parsed
  | [], cs, p => if cs = [] then some p else none
  | '!' :: format, cs, _ => createFromFormat format cs epoch
  | 'Y' :: format, cs, p => (digits 4 cs).bind fun r => createFromFormat format r.2 { p with year := value r.1 }
  | 'm' :: format, cs, p => (digits 2 cs).bind fun r => createFromFormat format r.2 { p with month := value r.1 }
  | 'd' :: format, cs, p => (digits 2 cs).bind fun r => createFromFormat format r.2 { p with day := value r.1 }
  | 'H' :: format, cs, p => (digits 2 cs).bind fun r => createFromFormat format r.2 { p with hour := value r.1 }
  | 'i' :: format, cs, p => (digits 2 cs).bind fun r => createFromFormat format r.2 { p with minute := value r.1 }
  | 's' :: format, cs, p => (digits 2 cs).bind fun r => createFromFormat format r.2 { p with second := value r.1 }
  | 'u' :: format, cs, p => (digits 6 cs).bind fun r => createFromFormat format r.2 { p with microsecond := value r.1 }
  | 'P' :: format, cs, p => (offset cs).bind fun r =>
    createFromFormat format r.2 { p with offset := offsetSeconds r.1.1 r.1.2.1 r.1.2.2 }
  | '\\' :: c :: format, cs, p => (char c cs).bind fun cs => createFromFormat format cs p
  | c :: format, cs, p => (char c cs).bind fun cs => createFromFormat format cs p

/-- A date and time with its offset. -/
structure Moment where
  wall : DateTime
  offset : ℤ

def Moment.second (m : Moment) : ℤ := m.wall.toSeconds - m.offset

/-- No warning: neither the date nor the time has a field out of range. -/
def Parsed.withoutWarnings (p : Parsed) : Option Moment :=
  if h : IsDate p.year p.month p.day ∧ p.hour < 24 ∧ p.minute < 60 ∧ p.second < 60 then
    some ⟨⟨⟨p.year, p.month, p.day, h.1⟩, p.hour, p.minute, p.second, h.2.1, h.2.2.1, h.2.2.2⟩, p.offset⟩
  else none

/-- `mb_str_pad($value, $length, '0')`. -/
def mbStrPad (value : List Char) (length : ℕ) : List Char := value ++ List.replicate (length - value.length) '0'

def parse (cs : List Char) : Option Moment :=
  (pregMatch cs).bind fun groups =>
    let timezone := if groups.timezone = ['Z'] then ['+', '0', '0', ':', '0', '0'] else groups.timezone
    let parsed :=
      if groups.fraction ≠ [] then
        createFromFormat "!Y-m-d\\TH:i:s.uP".toList
          (groups.date ++ 'T' :: (groups.time ++ '.' :: (mbStrPad groups.fraction 6 ++ timezone))) epoch
      else createFromFormat "!Y-m-d\\TH:i:sP".toList (groups.date ++ 'T' :: (groups.time ++ timezone)) epoch
    parsed.bind Parsed.withoutWarnings

/-- At least four digits. -/
def atLeastFour (n : ℕ) : List Char :=
  if n < 10000 then padded 4 n else atLeastFour (n / 10) ++ [Nat.digitChar (n % 10)]

/-- The year as `Y` writes it. -/
def yearText (y : ℤ) : List Char := if y < 0 then '-' :: atLeastFour y.natAbs else atLeastFour y.natAbs

/-- A date, a separator, a time and what stands for the zone. -/
def dateAndTime (separator : Char) (zone : List Char) (t : DateTime) : List Char :=
  yearText t.date.year ++ '-' :: (padded 2 t.date.month ++ '-' :: (padded 2 t.date.day ++ separator :: (padded 2 t.hour ++
    ':' :: (padded 2 t.minute ++ ':' :: (padded 2 t.second ++ zone)))))

/-- `format(DateTimeInterface::ATOM)`, in UTC. -/
def atom (t : DateTime) : List Char := dateAndTime 'T' ['+', '0', '0', ':', '0', '0'] t

def normalizeToUtc (s : String) : Option String :=
  (parse s.toList).map fun m => String.ofList (atom (DateTime.ofSeconds m.second))

/-- The message of the failure, if it fails. -/
def validate : Json → Option String
  | .str s =>
    if (parse s.toList).isSome then none
    else some "The :attribute must be a valid ISO 8601 timestamp with a timezone offset."
  | _ => some "The :attribute must be a valid ISO 8601 timestamp with a timezone offset."

/-! ### What a timestamp is -/

inductive Zone where
  | utc
  | offset (sign : Char) (hours minutes : List Char) (isSign : sign = '+' ∨ sign = '-')
      (isHours : IsDigits 2 hours) (isMinutes : IsDigits 2 minutes)

def Zone.text : Zone → List Char
  | .utc => ['Z']
  | .offset sign hours minutes _ _ _ => sign :: (hours ++ ':' :: minutes)

def Zone.seconds : Zone → ℤ
  | .utc => 0
  | .offset sign hours minutes _ _ _ => offsetSeconds sign hours minutes

/-- A text of the form of a timestamp; without a fraction, `fraction` is empty. -/
structure Spelling where
  year : List Char
  month : List Char
  day : List Char
  hour : List Char
  minute : List Char
  second : List Char
  fraction : List Char
  zone : Zone
  isYear : IsDigits 4 year
  isMonth : IsDigits 2 month
  isDay : IsDigits 2 day
  isHour : IsDigits 2 hour
  isMinute : IsDigits 2 minute
  isSecond : IsDigits 2 second
  isFraction : ∀ c ∈ fraction, c.isDigit = true
  fraction_le : fraction.length ≤ 6

def fractionText (fraction : List Char) : List Char := if fraction = [] then [] else '.' :: fraction

namespace Spelling

variable (x : Spelling)

def text : List Char :=
  x.year ++ '-' :: (x.month ++ '-' :: (x.day ++ 'T' :: (x.hour ++ ':' :: (x.minute ++ ':' :: (x.second ++
    (fractionText x.fraction ++ x.zone.text))))))

def groups : Matches :=
  ⟨x.year ++ '-' :: (x.month ++ '-' :: x.day), x.hour ++ ':' :: (x.minute ++ ':' :: x.second), x.fraction, x.zone.text⟩

/-- The fields, in range or not. -/
def parsed : Parsed where
  year := value x.year
  month := value x.month
  day := value x.day
  hour := value x.hour
  minute := value x.minute
  second := value x.second
  microsecond := value (if x.fraction = [] then [] else mbStrPad x.fraction 6)
  offset := x.zone.seconds

/-- Every field is in range. -/
def Valid : Prop :=
  IsDate (value x.year) (value x.month) (value x.day) ∧ value x.hour < 24 ∧ value x.minute < 60 ∧ value x.second < 60

instance : Decidable x.Valid := inferInstanceAs (Decidable (_ ∧ _ ∧ _ ∧ _))

end Spelling

/-- A timestamp: a date that exists, a time and an offset. -/
structure Timestamp extends Spelling where
  valid : toSpelling.Valid

def Timestamp.moment (x : Timestamp) : Moment where
  wall := ⟨⟨value x.year, value x.month, value x.day, x.valid.1⟩, value x.hour, value x.minute, value x.second,
    x.valid.2.1, x.valid.2.2.1, x.valid.2.2.2⟩
  offset := x.zone.seconds

/-- The second of the instant. -/
def Timestamp.instant (x : Timestamp) : ℤ := x.moment.second

/-! ### The pattern takes the spellings -/

variable {x : Spelling} {cs r tail : List Char}

theorem offset_cons {sign : Char} {hours minutes : List Char} (hs : sign = '+' ∨ sign = '-') (hh : IsDigits 2 hours)
    (hm : IsDigits 2 minutes) (r : List Char) :
    offset (sign :: (hours ++ ':' :: (minutes ++ r))) = some ((sign, hours, minutes), r) := by
  rw [offset, if_pos hs, digits_append hh, Option.bind_some, char_eq_some.mpr rfl, Option.bind_some, digits_append hm]
  rfl

theorem exists_of_offset {o : Char × List Char × List Char} (h : offset cs = some (o, r)) :
    (o.1 = '+' ∨ o.1 = '-') ∧ IsDigits 2 o.2.1 ∧ IsDigits 2 o.2.2 ∧ cs = o.1 :: (o.2.1 ++ ':' :: (o.2.2 ++ r)) := by
  cases cs with
  | nil => cases h
  | cons c cs =>
    rw [offset] at h
    split at h
    · rename_i hs
      obtain ⟨⟨hours, cs₁⟩, hh, h⟩ := Option.bind_eq_some_iff.mp h
      obtain ⟨cs₂, hc, h⟩ := Option.bind_eq_some_iff.mp h
      obtain ⟨⟨minutes, cs₃⟩, hm, h⟩ := Option.map_eq_some_iff.mp h
      cases h
      obtain ⟨rfl, isHours⟩ := digits_eq_some.mp hh
      obtain rfl := char_eq_some.mp hc
      obtain ⟨rfl, isMinutes⟩ := digits_eq_some.mp hm
      exact ⟨hs, isHours, isMinutes, rfl⟩
    · cases h

theorem timezoneGroup_text (z : Zone) (r : List Char) : timezoneGroup (z.text ++ r) = some (z.text, r) := by
  cases z with
  | utc => rfl
  | offset sign hours minutes hs hh hm =>
    have hz : sign ≠ 'Z' := by
      rintro rfl
      exact absurd hs (by decide)
    have ho := offset_cons hs hh hm r
    rw [Zone.text, List.cons_append, List.append_assoc, List.cons_append, timezoneGroup, if_neg hz, ho]
    rfl

theorem exists_of_timezoneGroup {z : List Char} (h : timezoneGroup cs = some (z, r)) :
    ∃ zone : Zone, z = zone.text ∧ cs = zone.text ++ r := by
  cases cs with
  | nil => cases h
  | cons c cs =>
    rw [timezoneGroup] at h
    split at h
    · rename_i hz
      cases h
      exact ⟨.utc, rfl, by rw [hz]; rfl⟩
    · obtain ⟨⟨o, r'⟩, ho, h⟩ := Option.map_eq_some_iff.mp h
      cases h
      obtain ⟨hs, hh, hm, hcs⟩ := exists_of_offset ho
      refine ⟨.offset o.1 o.2.1 o.2.2 hs hh hm, rfl, ?_⟩
      rw [hcs, Zone.text, List.cons_append, List.append_assoc, List.cons_append]

/-- No offset begins with a digit or a point. -/
theorem head_zone (z : Zone) (r : List Char) : ∃ c rest, z.text ++ r = c :: rest ∧ c.isDigit = false ∧ c ≠ '.' := by
  cases z with
  | utc => exact ⟨'Z', r, rfl, rfl, by decide⟩
  | offset sign hours minutes hs hh hm =>
    refine ⟨sign, _, rfl, ?_⟩
    obtain rfl | rfl := hs
    · exact ⟨rfl, by decide⟩
    · exact ⟨rfl, by decide⟩

theorem fractionGroup_text {fraction : List Char} (hd : ∀ c ∈ fraction, c.isDigit = true) (hle : fraction.length ≤ 6)
    (z : Zone) (r : List Char) :
    fractionGroup (fractionText fraction ++ (z.text ++ r)) = (fraction, z.text ++ r) := by
  obtain ⟨c, rest, hz, hc, hpoint⟩ := head_zone z r
  rw [hz]
  by_cases hnil : fraction = []
  · rw [hnil, fractionText, if_pos rfl, List.nil_append, fractionGroup]
    exact if_neg fun h => hpoint h.1
  · have htake : (fraction ++ c :: rest).takeWhile Char.isDigit = fraction := by
      rw [List.takeWhile_append_of_pos hd, List.takeWhile_cons_of_neg (by rw [hc]; decide), List.append_nil]
    rw [fractionText, if_neg hnil, List.cons_append, fractionGroup, htake, List.take_of_length_le hle,
      if_pos ⟨rfl, hnil⟩, List.drop_left]

theorem exists_of_fractionGroup {fraction : List Char} (h : fractionGroup cs = (fraction, r)) :
    (∀ c ∈ fraction, c.isDigit = true) ∧ fraction.length ≤ 6 ∧ cs = fractionText fraction ++ r := by
  cases cs with
  | nil =>
    cases h
    exact ⟨fun c hc => absurd hc List.not_mem_nil, Nat.zero_le 6, rfl⟩
  | cons c cs =>
    rw [fractionGroup] at h
    split at h
    · rename_i hc
      cases h
      refine ⟨fun d hd => ?_, List.length_take_le 6 _, ?_⟩
      · exact List.mem_takeWhile_imp (List.mem_of_mem_take hd)
      · have hpre : (cs.takeWhile Char.isDigit).take 6 <+: cs := (List.take_prefix 6 _).trans (List.takeWhile_prefix _)
        rw [fractionText, if_neg hc.2, hc.1, List.cons_append]
        exact congrArg _ (List.prefix_append_drop hpre)
    · cases h
      exact ⟨fun c hc => absurd hc List.not_mem_nil, Nat.zero_le 6, rfl⟩

/-- The end that `$` takes. -/
def IsTail (tail : List Char) : Prop := tail = [] ∨ tail = ['\n']

theorem pregMatch_text (x : Spelling) (ht : IsTail tail) : pregMatch (x.text ++ tail) = some x.groups := by
  have hf := fractionGroup_text x.isFraction x.fraction_le x.zone tail
  have hz := timezoneGroup_text x.zone tail
  simp only [Spelling.text, List.append_assoc, List.cons_append, pregMatch, digits_append x.isYear,
    digits_append x.isMonth, digits_append x.isDay, digits_append x.isHour, digits_append x.isMinute,
    digits_append x.isSecond, char_eq_some.mpr rfl, Option.bind_eq_bind, Option.bind_some, hf, hz]
  exact if_pos ht

theorem exists_of_pregMatch {groups : Matches} (h : pregMatch cs = some groups) :
    ∃ (x : Spelling) (tail : List Char), IsTail tail ∧ cs = x.text ++ tail ∧ groups = x.groups := by
  simp only [pregMatch, Option.bind_eq_bind, Option.bind_eq_some_iff, Prod.exists, digits_eq_some, char_eq_some] at h
  obtain ⟨year, _, ⟨rfl, isYear⟩, _, rfl, month, _, ⟨rfl, isMonth⟩, _, rfl, day, _, ⟨rfl, isDay⟩, _, rfl, hour, _,
    ⟨rfl, isHour⟩, _, rfl, minute, _, ⟨rfl, isMinute⟩, _, rfl, second, rest, ⟨rfl, isSecond⟩, z, tail, hz, h⟩ := h
  obtain ⟨fraction, afterFraction, hf⟩ : ∃ fraction r, fractionGroup rest = (fraction, r) := ⟨_, _, rfl⟩
  rw [hf] at hz h
  split at h
  · rename_i ht
    cases h
    obtain ⟨isFraction, fraction_le, rfl⟩ := exists_of_fractionGroup hf
    obtain ⟨zone, rfl, rfl⟩ := exists_of_timezoneGroup hz
    refine ⟨⟨year, month, day, hour, minute, second, fraction, zone, isYear, isMonth, isDay, isHour, isMinute, isSecond,
      isFraction, fraction_le⟩, tail, ht, ?_, rfl⟩
    simp only [Spelling.text, List.append_assoc, List.cons_append]
  · cases h

/-! ### What matched is read again -/

theorem offset_zone (z : Zone) (r : List Char) :
    ∃ o, offset ((if z.text = ['Z'] then ['+', '0', '0', ':', '0', '0'] else z.text) ++ r) = some (o, r) ∧
      offsetSeconds o.1 o.2.1 o.2.2 = z.seconds := by
  cases z with
  | utc => exact ⟨('+', ['0', '0'], ['0', '0']), rfl, rfl⟩
  | offset sign hours minutes hs hh hm =>
    have hz : (Zone.offset sign hours minutes hs hh hm).text ≠ ['Z'] := by
      intro h
      obtain rfl := (List.cons.inj h).1
      exact absurd hs (by decide)
    rw [if_neg hz, Zone.text, List.cons_append, List.append_assoc, List.cons_append]
    exact ⟨(sign, hours, minutes), offset_cons hs hh hm r, rfl⟩

theorem isDigits_mbStrPad {fraction : List Char} (hd : ∀ c ∈ fraction, c.isDigit = true) (hle : fraction.length ≤ 6) :
    IsDigits 6 (mbStrPad fraction 6) := by
  refine ⟨by rw [mbStrPad, List.length_append, List.length_replicate]; omega, fun c hc => ?_⟩
  rcases List.mem_append.mp hc with hc | hc
  · exact hd c hc
  · rw [List.eq_of_mem_replicate hc]
    rfl

/-- A separator stands for itself. -/
theorem read_separator {c : Char} (hc : c = '-' ∨ c = ':' ∨ c = '.') (format cs : List Char) (p : Parsed) :
    createFromFormat (c :: format) (c :: cs) p = createFromFormat format cs p := by
  obtain rfl | rfl | rfl := hc <;> rfl

/-- The part of the two formats that they share. -/
theorem read_dateTime (x : Spelling) (format r : List Char) (p : Parsed) :
    createFromFormat ("!Y-m-d\\TH:i:s".toList ++ format) (x.groups.date ++ 'T' :: (x.groups.time ++ r)) p =
      createFromFormat format r { x.parsed with microsecond := 0, offset := 0 } := by
  have hformat : "!Y-m-d\\TH:i:s".toList ++ format =
      '!' :: 'Y' :: '-' :: 'm' :: '-' :: 'd' :: '\\' :: 'T' :: 'H' :: ':' :: 'i' :: ':' :: 's' :: format := rfl
  have hdash := read_separator (c := '-') (.inl rfl)
  have hcolon := read_separator (c := ':') (.inr (.inl rfl))
  simp only [hformat, Spelling.groups, List.append_assoc, List.cons_append, createFromFormat, hdash, hcolon,
    digits_append x.isYear, digits_append x.isMonth, digits_append x.isDay, digits_append x.isHour,
    digits_append x.isMinute, digits_append x.isSecond, Option.bind_some, char_eq_some.mpr rfl]
  rfl

theorem read_zone (z : Zone) (p : Parsed) :
    createFromFormat ['P'] (if z.text = ['Z'] then ['+', '0', '0', ':', '0', '0'] else z.text) p =
      some { p with offset := z.seconds } := by
  obtain ⟨o, ho, hseconds⟩ := offset_zone z []
  rw [List.append_nil] at ho
  rw [createFromFormat, ho, Option.bind_some, createFromFormat, if_pos rfl, hseconds]

/-- **The fields are read back as they were matched.** -/
theorem parse_text (x : Spelling) (ht : IsTail tail) : parse (x.text ++ tail) = x.parsed.withoutWarnings := by
  have hzone (p : Parsed) : createFromFormat ['P'] (if x.groups.timezone = ['Z'] then ['+', '0', '0', ':', '0', '0']
      else x.groups.timezone) p = some { p with offset := x.zone.seconds } := read_zone x.zone p
  rw [parse, pregMatch_text x ht, Option.bind_some]
  by_cases hf : x.fraction = []
  · have hformat : "!Y-m-d\\TH:i:sP".toList = "!Y-m-d\\TH:i:s".toList ++ ['P'] := rfl
    have hgroup : ¬ x.groups.fraction ≠ [] := not_not.mpr hf
    simp only [if_neg hgroup]
    rw [hformat, read_dateTime, hzone, Option.bind_some, Spelling.parsed, if_pos hf]
    rfl
  · have hformat : "!Y-m-d\\TH:i:s.uP".toList = "!Y-m-d\\TH:i:s".toList ++ ['.', 'u', 'P'] := rfl
    have hgroup : x.groups.fraction ≠ [] := hf
    have hmicro (r : List Char) : digits 6 (mbStrPad x.groups.fraction 6 ++ r) = some (mbStrPad x.fraction 6, r) :=
      digits_append (isDigits_mbStrPad x.isFraction x.fraction_le) r
    simp only [if_pos hgroup]
    rw [hformat, read_dateTime, read_separator (.inr (.inr rfl)), createFromFormat, hmicro, Option.bind_some,
      hzone, Option.bind_some, Spelling.parsed, if_neg hf]

theorem withoutWarnings_parsed (x : Timestamp) : x.parsed.withoutWarnings = some x.moment := dif_pos x.valid

/-- **What is accepted** is a timestamp, with or without a line feed. -/
theorem exists_of_parse {m : Moment} (h : parse cs = some m) :
    ∃ (x : Timestamp) (tail : List Char), IsTail tail ∧ cs = x.text ++ tail ∧ m = x.moment := by
  obtain ⟨groups, hm, -⟩ := Option.bind_eq_some_iff.mp h
  obtain ⟨x, tail, ht, rfl, -⟩ := exists_of_pregMatch hm
  rw [parse_text x ht] at h
  by_cases hx : x.Valid
  · rw [withoutWarnings_parsed ⟨x, hx⟩] at h
    exact ⟨⟨x, hx⟩, tail, ht, rfl, (Option.some.inj h).symm⟩
  · have hnone : x.parsed.withoutWarnings = none := dif_neg hx
    rw [hnone] at h
    cases h

theorem parse_timestamp (x : Timestamp) (ht : IsTail tail) : parse (x.text ++ tail) = some x.moment := by
  rw [parse_text x.toSpelling ht, withoutWarnings_parsed]

/-! ### The normal form -/

/-- The normal form of a second. -/
def normalForm (n : ℤ) : String := String.ofList (atom (DateTime.ofSeconds n))

/-- **The normal form of a timestamp** is that of its second. -/
theorem normalizeToUtc_text (x : Timestamp) (ht : IsTail tail) :
    normalizeToUtc (String.ofList (x.text ++ tail)) = some (normalForm x.instant) := by
  rw [normalizeToUtc, String.toList_ofList, parse_timestamp x ht]
  rfl

/-- The seconds whose year in UTC has four digits and no sign. -/
def InRange (n : ℤ) : Prop := 0 ≤ n ∧ n < daysBeforeYear 10000 * 86400

theorem inRange_iff (n : ℤ) : InRange n ↔
    0 ≤ (DateTime.ofSeconds n).date.year ∧ (DateTime.ofSeconds n).date.year < 10000 := by
  have hyear : (DateTime.ofSeconds n).date.year = yearOf (n / 86400) := rfl
  obtain ⟨hlow, hhigh⟩ := yearOf_spec (n / 86400)
  have hzero : daysBeforeYear 0 = 0 := rfl
  rw [hyear, InRange]
  constructor
  · rintro ⟨h0, h1⟩
    have hpos : 0 < yearOf (n / 86400) + 1 := lt_of_daysBeforeYear_lt (by omega)
    exact ⟨by omega, lt_of_daysBeforeYear_lt (by omega)⟩
  · rintro ⟨h0, h1⟩
    have hfirst : daysBeforeYear 0 ≤ daysBeforeYear (yearOf (n / 86400)) := daysBeforeYear_mono h0
    have hlast : daysBeforeYear (yearOf (n / 86400) + 1) ≤ daysBeforeYear 10000 := daysBeforeYear_mono (by omega)
    omega

theorem yearText_of_inRange {y : ℤ} (h : 0 ≤ y) (h' : y < 10000) : yearText y = padded 4 y.natAbs := by
  rw [yearText, if_neg (not_lt.mpr h), atLeastFour, if_pos (by omega)]

/-- The text of a date time of such a year. -/
def spelled (zone : Zone) (t : DateTime) : Spelling where
  year := padded 4 t.date.year.natAbs
  month := padded 2 t.date.month
  day := padded 2 t.date.day
  hour := padded 2 t.hour
  minute := padded 2 t.minute
  second := padded 2 t.second
  fraction := []
  zone := zone
  isYear := isDigits_padded 4 _
  isMonth := isDigits_padded 2 _
  isDay := isDigits_padded 2 _
  isHour := isDigits_padded 2 _
  isMinute := isDigits_padded 2 _
  isSecond := isDigits_padded 2 _
  isFraction := fun _ hc => absurd hc List.not_mem_nil
  fraction_le := Nat.zero_le 6

/-- A date time of such a year, in any zone, is a timestamp. -/
theorem exists_timestamp (zone : Zone) {t : DateTime} (h : 0 ≤ t.date.year) (h' : t.date.year < 10000) :
    ∃ x : Timestamp, x.text = dateAndTime 'T' zone.text t ∧ x.moment = ⟨t, zone.seconds⟩ := by
  obtain ⟨-, hm, -, hd⟩ := t.date.isDate
  have hd31 : t.date.day ≤ 31 := hd.trans (daysInMonth_le _ _)
  have hh := t.hour_lt
  have hmin := t.minute_lt
  have hs := t.second_lt
  have hyear : (value (padded 4 t.date.year.natAbs) : ℤ) = t.date.year := by
    rw [value_padded (by omega)]
    omega
  have hmonth : value (padded 2 t.date.month) = t.date.month := value_padded (by omega)
  have hday : value (padded 2 t.date.day) = t.date.day := value_padded (by omega)
  have hhour : value (padded 2 t.hour) = t.hour := value_padded (by omega)
  have hminute : value (padded 2 t.minute) = t.minute := value_padded (by omega)
  have hsecond : value (padded 2 t.second) = t.second := value_padded (by omega)
  have hvalid : (spelled zone t).Valid := by
    rw [Spelling.Valid, spelled]
    dsimp only
    rw [hyear, hmonth, hday, hhour, hminute, hsecond]
    exact ⟨t.date.isDate, hh, hmin, hs⟩
  refine ⟨⟨spelled zone t, hvalid⟩, ?_, ?_⟩
  · rw [dateAndTime, yearText_of_inRange h h']
    rfl
  · have hwall : (⟨spelled zone t, hvalid⟩ : Timestamp).moment.wall = t :=
      DateTime.ext (Date.ext hyear hmonth hday) hhour hminute hsecond
    rw [Timestamp.moment, Moment.mk.injEq]
    exact ⟨hwall, rfl⟩

theorem parse_dateAndTime (zone : Zone) {t : DateTime} (h : 0 ≤ t.date.year) (h' : t.date.year < 10000) :
    parse (dateAndTime 'T' zone.text t) = some ⟨t, zone.seconds⟩ := by
  obtain ⟨x, hx, hmoment⟩ := exists_timestamp zone h h'
  have hparse := parse_timestamp x (.inl rfl)
  rwa [List.append_nil, hx, hmoment] at hparse

/-- The zone of `atom`. -/
def zeroOffset : Zone := .offset '+' ['0', '0'] ['0', '0'] (.inl rfl) (isDigits_of_all rfl rfl) (isDigits_of_all rfl rfl)

theorem atLeastFour_spec (n : ℕ) :
    (∀ c ∈ atLeastFour n, c.isDigit = true) ∧ 4 ≤ (atLeastFour n).length ∧ (10000 ≤ n → 5 ≤ (atLeastFour n).length) := by
  induction n using atLeastFour.induct with
  | case1 n h =>
    rw [atLeastFour, if_pos h]
    obtain ⟨hlen, hd⟩ := isDigits_padded 4 n
    exact ⟨hd, hlen.ge, fun h' => absurd h (not_lt.mpr h')⟩
  | case2 n h ih =>
    obtain ⟨hd, hlen, -⟩ := ih
    rw [atLeastFour, if_neg h]
    refine ⟨fun c hc => ?_, ?_, fun _ => ?_⟩
    · rcases List.mem_append.mp hc with hc | hc
      · exact hd c hc
      · rw [List.mem_singleton.mp hc]
        exact (digitChar_spec (Nat.mod_lt n (by decide))).1
    · rw [List.length_append]
      exact hlen.trans (Nat.le_add_right _ _)
    · rw [List.length_append]
      exact Nat.add_le_add_right hlen 1

/-- **A normal form is accepted only if its year has four digits and no sign.** -/
theorem year_of_atom {t : DateTime} (x : Spelling) (h : atom t = x.text ++ tail) :
    0 ≤ t.date.year ∧ t.date.year < 10000 := by
  obtain ⟨hlen, hd⟩ := x.isYear
  -- the fifth character of a timestamp is no digit
  have hdash : (x.text ++ tail)[4]? = some '-' := by
    rw [Spelling.text, List.append_assoc, List.getElem?_append_right hlen.le, hlen]
    rfl
  obtain ⟨c, hc⟩ : ∃ c, (x.text ++ tail)[0]? = some c ∧ c.isDigit = true := by
    obtain ⟨c, year, hy⟩ := List.exists_cons_of_length_pos (l := x.year) (by omega)
    exact ⟨c, by rw [Spelling.text, hy]; rfl, hd c (hy ▸ List.mem_cons_self)⟩
  rw [← h] at hdash hc
  constructor
  · by_contra hneg
    rw [atom, dateAndTime, yearText, if_pos (not_le.mp hneg)] at hc
    obtain ⟨hfirst, hdigit⟩ := hc
    cases hfirst
    exact absurd hdigit (by decide)
  · by_contra hlarge
    have hpos : ¬ t.date.year < 0 := by omega
    obtain ⟨hds, -, hfive⟩ := atLeastFour_spec t.date.year.natAbs
    have hlong : 4 < (atLeastFour t.date.year.natAbs).length := hfive (by omega)
    rw [atom, dateAndTime, yearText, if_neg hpos, List.getElem?_append_left hlong, List.getElem?_eq_getElem hlong] at hdash
    have hdigit := hds _ (List.getElem_mem hlong)
    rw [Option.some.inj hdash] at hdigit
    exact absurd hdigit (by decide)

/-- A normal form that is accepted stands for one second. -/
theorem normalForm_inj {n n' : ℤ} (h : InRange n) : normalForm n' = normalForm n ↔ n' = n := by
  refine ⟨fun he => ?_, fun he => congrArg normalForm he⟩
  have htext : atom (DateTime.ofSeconds n') = atom (DateTime.ofSeconds n) := String.ofList_injective he
  obtain ⟨hlow, hhigh⟩ := (inRange_iff n).mp h
  obtain ⟨x, hx, -⟩ := exists_timestamp zeroOffset hlow hhigh
  have htext' : atom (DateTime.ofSeconds n') = x.text ++ [] := by
    rw [htext, List.append_nil, hx]
    rfl
  obtain ⟨hlow', hhigh'⟩ := year_of_atom x.toSpelling htext'
  have hparse : parse (atom (DateTime.ofSeconds n)) = some ⟨DateTime.ofSeconds n, 0⟩ :=
    parse_dateAndTime zeroOffset hlow hhigh
  have hparse' : parse (atom (DateTime.ofSeconds n')) = some ⟨DateTime.ofSeconds n', 0⟩ :=
    parse_dateAndTime zeroOffset hlow' hhigh'
  rw [htext, hparse, Option.some.injEq, Moment.mk.injEq] at hparse'
  have hsecond := congrArg DateTime.toSeconds hparse'.1
  rw [DateTime.toSeconds_ofSeconds, DateTime.toSeconds_ofSeconds] at hsecond
  exact hsecond.symm

/-! ### Exactness -/

theorem not_mem_digits {n : ℕ} {ds : List Char} (h : IsDigits n ds) : '\n' ∉ ds :=
  fun hm => absurd (h.isDigit _ hm) (by decide)

/-- A timestamp has no line feed in it. -/
theorem not_mem_text (x : Spelling) : '\n' ∉ x.text := by
  have hzone : '\n' ∉ x.zone.text := by
    cases x.zone with
    | utc => decide
    | offset sign hours minutes hs hh hm =>
      have hsign : '\n' ≠ sign := by
        rintro rfl
        exact absurd hs (by decide)
      simp [Zone.text, hsign, not_mem_digits hh, not_mem_digits hm]
  have hfraction : '\n' ∉ fractionText x.fraction := by
    have hdigits : '\n' ∉ x.fraction := fun hm => absurd (x.isFraction _ hm) (by decide)
    unfold fractionText
    split
    · exact List.not_mem_nil
    · simp [hdigits]
  simp [Spelling.text, not_mem_digits x.isYear, not_mem_digits x.isMonth, not_mem_digits x.isDay,
    not_mem_digits x.isHour, not_mem_digits x.isMinute, not_mem_digits x.isSecond, hfraction, hzone]

/-- A date and time in UTC, of a year of any length, written out. -/
def Denotes (u : String) (n : ℤ) : Prop := ∃ t : DateTime, u.toList = atom t ∧ t.toSeconds = n

/-- The rule treats a text as it should. -/
structure Exact (s : String) : Prop where
  accepted_iff : validate (.str s) = none ↔ ∃ x : Timestamp, s.toList = x.text
  /-- The normal form stands for the same second, is accepted and its own normal form, and
  that of every timestamp of this second. -/
  normalForm : ∀ x : Timestamp, s.toList = x.text → ∃ u, normalizeToUtc s = some u ∧ Denotes u x.instant ∧
    validate (.str u) = none ∧ normalizeToUtc u = some u ∧
      ∀ x' : Timestamp, x'.instant = x.instant → normalizeToUtc (String.ofList x'.text) = some u

theorem validate_eq_none {s : String} :
    validate (.str s) = none ↔ ∃ (x : Timestamp) (tail : List Char), IsTail tail ∧ s.toList = x.text ++ tail := by
  have hparse : validate (.str s) = none ↔ (parse s.toList).isSome = true := by
    rw [validate]
    cases parse s.toList <;> simp
  rw [hparse, Option.isSome_iff_exists]
  constructor
  · rintro ⟨m, hm⟩
    obtain ⟨x, tail, ht, hs, -⟩ := exists_of_parse hm
    exact ⟨x, tail, ht, hs⟩
  · rintro ⟨x, tail, ht, hs⟩
    exact ⟨x.moment, by rw [hs, parse_timestamp x ht]⟩

theorem normalizeToUtc_eq {s : String} {x : Timestamp} (hs : s.toList = x.text) :
    normalizeToUtc s = some (Iso8601Timestamp.normalForm x.instant) := by
  have h := normalizeToUtc_text x (.inl rfl)
  rwa [List.append_nil, ← hs, String.ofList_toList] at h

theorem denotes_normalForm (n : ℤ) : Denotes (normalForm n) n :=
  ⟨DateTime.ofSeconds n, String.toList_ofList, DateTime.toSeconds_ofSeconds n⟩

/-- In these years the normal form is a timestamp of its second. -/
theorem exists_text_normalForm {n : ℤ} (h : InRange n) :
    ∃ y : Timestamp, (normalForm n).toList = y.text ∧ y.instant = n := by
  obtain ⟨hlow, hhigh⟩ := (inRange_iff n).mp h
  obtain ⟨y, hy, hmoment⟩ := exists_timestamp zeroOffset hlow hhigh
  refine ⟨y, ?_, ?_⟩
  · rw [hy, normalForm, String.toList_ofList]
    rfl
  · rw [Timestamp.instant, hmoment, Moment.second, DateTime.toSeconds_ofSeconds]
    exact sub_zero n

theorem inRange_of_validate {n : ℤ} (h : validate (.str (normalForm n)) = none) : InRange n := by
  obtain ⟨x, tail, -, hx⟩ := validate_eq_none.mp h
  rw [normalForm, String.toList_ofList] at hx
  exact (inRange_iff n).mpr (year_of_atom x.toSpelling hx)

theorem validate_text {s : String} {x : Timestamp} (hs : s.toList = x.text) : validate (.str s) = none :=
  validate_eq_none.mpr ⟨x, [], .inl rfl, by rw [hs, List.append_nil]⟩

/-- **The rule is exact** for a text unless it is a timestamp with a line feed behind it, or
one whose year in UTC does not lie between 0 and 9999. -/
theorem exact_iff (s : String) : Exact s ↔ (¬ ∃ x : Timestamp, s.toList = x.text ++ ['\n']) ∧
    ∀ x : Timestamp, s.toList = x.text → InRange x.instant := by
  constructor
  · intro h
    constructor
    · rintro ⟨x, hs⟩
      obtain ⟨x', hs'⟩ := h.accepted_iff.mp (validate_eq_none.mpr ⟨x, _, .inr rfl, hs⟩)
      refine not_mem_text x'.toSpelling ?_
      rw [← hs', hs]
      exact List.mem_append_right _ List.mem_cons_self
    · intro x hs
      obtain ⟨u, hu, -, haccepted, -⟩ := h.normalForm x hs
      rw [normalizeToUtc_eq hs] at hu
      rw [← Option.some.inj hu] at haccepted
      exact inRange_of_validate haccepted
  · rintro ⟨hnewline, hrange⟩
    refine ⟨⟨fun h => ?_, fun ⟨x, hs⟩ => validate_text hs⟩, fun x hs => ?_⟩
    · obtain ⟨x, tail, rfl | rfl, hs⟩ := validate_eq_none.mp h
      · exact ⟨x, by rw [hs, List.append_nil]⟩
      · exact absurd ⟨x, hs⟩ hnewline
    · obtain ⟨y, hu, hinstant⟩ := exists_text_normalForm (hrange x hs)
      refine ⟨_, normalizeToUtc_eq hs, denotes_normalForm _, validate_text hu, ?_, fun x' hx' => ?_⟩
      · rw [normalizeToUtc_eq hu, hinstant]
      · rw [normalizeToUtc_eq String.toList_ofList, hx']

/-! ### A request that writes its timestamp in UTC -/

/-- `prepareForValidation` of a request with a timestamp under this key. An array throws in the
source; here it is left to the rules, which refuse it. -/
def normalizeInput (key : String) (input : Json) : Json :=
  match input.get? key with
  | none => input
  | some v =>
    match normalizeToUtc (Php.toText v.toValue) with
    | none => input
    | some normalized => .array (Json.put key (.str normalized) input.entries)

theorem not_isBlank_atom (t : DateTime) : Php.isBlank (String.ofList (atom t)) = false := by
  refine Bool.eq_false_iff.mpr fun hb => ?_
  rw [Php.isBlank, String.toList_ofList, List.all_eq_true] at hb
  have hT : 'T' ∈ atom t := by simp [atom, dateAndTime]
  exact absurd (hb _ hT) (by decide)

section

variable {trim : String → String} (ht : ∀ s, Php.isBlank (trim s) = true → trim s = "") {key s : String} {input : Json}
include ht

/-- The value has been written in UTC, or is not of the form to be. -/
theorem normalizeInput_cases (hk : key ∉ Middleware.notTrimmed)
    (hs : (normalizeInput key (Middleware.handle trim input)).get? key = some (.str s)) :
    (∃ t, s = String.ofList (atom t)) ∨ (Php.isBlank s = false ∧ normalizeToUtc s = none) := by
  rw [normalizeInput] at hs
  cases hget : (Middleware.handle trim input).get? key with
  | none =>
    rw [hget] at hs
    cases hget.symm.trans hs
  | some value =>
    rw [hget] at hs
    dsimp only at hs
    cases hn : normalizeToUtc (Php.toText value.toValue) with
    | none =>
      rw [hn] at hs
      obtain rfl : value = .str s := Option.some.inj (hget.symm.trans hs)
      rw [Middleware.get?_handle, Option.map_eq_some_iff] at hget
      obtain ⟨v, -, hv⟩ := hget
      have hblank : (Middleware.convertEmptyStringsToNull (Middleware.trimStrings trim key v)).isBlankString = false :=
        Middleware.not_isBlankString ht hk v
      rw [hv] at hblank
      exact .inr ⟨hblank, hn⟩
    | some normalized =>
      rw [hn] at hs
      dsimp only at hs
      rw [Validator.get?_put, if_pos rfl] at hs
      obtain rfl : normalized = s := Json.str.inj (Option.some.inj hs)
      obtain ⟨m, -, rfl⟩ := Option.map_eq_some_iff.mp hn
      exact .inl ⟨_, rfl⟩

/-- **What the rule takes after that** is written in UTC, of a year of four digits. -/
theorem normalizeInput_accepted (hk : key ∉ Middleware.notTrimmed)
    (hs : (normalizeInput key (Middleware.handle trim input)).get? key = some (.str s)) {V : ValidationEnv}
    (hV : V.isTimestamp s = (validate (.str s)).isNone) {rules : List ValidationRule} (hr : .iso8601Timestamp ∈ rules)
    (h : Validator.fieldPasses V rules (some (.str s)) = true) :
    ∃ t, s = String.ofList (atom t) ∧ 0 ≤ t.date.year ∧ t.date.year < 10000 := by
  have hcases := normalizeInput_cases ht hk hs
  have hnotBlank : (Json.str s).isBlankString = false := by
    obtain ⟨t, rfl⟩ | ⟨hb, -⟩ := hcases
    · exact not_isBlank_atom t
    · exact hb
  have hrule : V.isTimestamp s = true := Validator.rule_of_fieldPasses hnotBlank (.inl rfl) h hr
  have hvalid : validate (.str s) = none := Option.isNone_iff_eq_none.mp (hV.symm.trans hrule)
  obtain ⟨x, tail, htail, hx⟩ := validate_eq_none.mp hvalid
  obtain ⟨t, rfl⟩ | ⟨-, hn⟩ := hcases
  · rw [String.toList_ofList] at hx
    exact ⟨t, rfl, year_of_atom x.toSpelling hx⟩
  · have hsome := normalizeToUtc_text x htail
    rw [← hx, String.ofList_toList] at hsome
    cases hn.symm.trans hsome

end

/-! ### A line feed, and the last day -/

namespace Sample

def zone : Zone := .offset '-' ['0', '1'] ['0', '0'] (.inr rfl) (isDigits_of_all rfl rfl) (isDigits_of_all rfl rfl)

/-- In UTC it is the first hour of the year 10000. -/
def lastDay : Timestamp where
  year := ['9', '9', '9', '9']
  month := ['1', '2']
  day := ['3', '1']
  hour := ['2', '3']
  minute := ['5', '9']
  second := ['5', '9']
  fraction := []
  zone := zone
  isYear := isDigits_of_all rfl rfl
  isMonth := isDigits_of_all rfl rfl
  isDay := isDigits_of_all rfl rfl
  isHour := isDigits_of_all rfl rfl
  isMinute := isDigits_of_all rfl rfl
  isSecond := isDigits_of_all rfl rfl
  isFraction := fun _ hc => absurd hc List.not_mem_nil
  fraction_le := Nat.zero_le 6
  valid := by decide

end Sample

/-- The rule takes a line feed for the end of the text, and does not take its own normal
form again. -/
theorem not_exact : ¬ Exact "2024-01-01T00:00:00Z\n" ∧ ¬ Exact "9999-12-31T23:59:59-01:00" := by
  constructor
  · intro h
    have haccepted : validate (.str "2024-01-01T00:00:00Z\n") = none := by decide +kernel
    obtain ⟨x, hx⟩ := h.accepted_iff.mp haccepted
    refine not_mem_text x.toSpelling ?_
    rw [← hx]
    decide
  · intro h
    obtain ⟨u, hu, -, haccepted, -⟩ := h.normalForm Sample.lastDay rfl
    obtain ⟨x, tail, -, hu'⟩ := validate_eq_none.mp haccepted
    rw [normalizeToUtc_eq (x := Sample.lastDay) rfl] at hu
    rw [← Option.some.inj hu, normalForm, String.toList_ofList] at hu'
    have hyear : (DateTime.ofSeconds Sample.lastDay.instant).date.year = 10000 := by decide +kernel
    have hlt := (year_of_atom x.toSpelling hu').2
    omega

end Iso8601Timestamp
end Daywright
