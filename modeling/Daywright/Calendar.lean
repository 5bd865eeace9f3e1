/-
# The proleptic Gregorian calendar

Days are counted from the first of January of the year 0, seconds from its midnight, in
both directions without end. The dates of the calendar and the days, and the date times
and the seconds, correspond one to one: `Date.toDays` and `Date.ofDays`, and
`DateTime.toSeconds` and `DateTime.ofSeconds`, are inverse to each other.

Key definitions: `Date`, `Date.toDays`, `Date.ofDays`, `DateTime`, `DateTime.toSeconds`,
`DateTime.ofSeconds`.
Key theorems: `ofDays_toDays`, `toDays_ofDays`, `ofSeconds_toSeconds`, `toSeconds_ofSeconds`.
-/
import Mathlib.Algebra.Order.Ring.Int
import Mathlib.Data.Nat.Find
import Mathlib.Order.Monotone.Basic

namespace Daywright
namespace Calendar

/-! ### Years and months -/

def isLeap (y : ℤ) : Bool := decide (y % 4 = 0 ∧ (y % 100 ≠ 0 ∨ y % 400 = 0))

def daysInMonth (y : ℤ) (m : ℕ) : ℕ :=
  if m = 2 then if isLeap y then 29 else 28
  else if m = 4 ∨ m = 6 ∨ m = 9 ∨ m = 11 then 30 else 31

/-- A date exists: the month and the day are in range. -/
def IsDate (y : ℤ) (m d : ℕ) : Prop := 1 ≤ m ∧ m ≤ 12 ∧ 1 ≤ d ∧ d ≤ daysInMonth y m

instance (y : ℤ) (m d : ℕ) : Decidable (IsDate y m d) := inferInstanceAs (Decidable (_ ∧ _ ∧ _ ∧ _))

def daysBeforeYear (y : ℤ) : ℤ := 365 * y + (y + 3) / 4 - (y + 99) / 100 + (y + 399) / 400

/-- The days of the first `k` months. -/
def daysOfMonths (y : ℤ) : ℕ → ℕ
  | 0 => 0
  | k + 1 => daysOfMonths y k + daysInMonth y (k + 1)

theorem daysInMonth_le (y : ℤ) (m : ℕ) : daysInMonth y m ≤ 31 := by
  unfold daysInMonth
  split_ifs <;> decide

theorem daysOfMonths_mono (y : ℤ) : Monotone (daysOfMonths y) := monotone_nat_of_le_succ fun _ => Nat.le_add_right _ _

theorem daysOfMonths_year (y : ℤ) : daysOfMonths y 12 = if isLeap y then 366 else 365 := by
  cases h : isLeap y <;> simp [daysOfMonths, daysInMonth, h]

/-- A year has the days of its twelve months. -/
theorem daysBeforeYear_succ (y : ℤ) : daysBeforeYear (y + 1) = daysBeforeYear y + daysOfMonths y 12 := by
  rw [daysOfMonths_year]
  by_cases h : y % 4 = 0 ∧ (y % 100 ≠ 0 ∨ y % 400 = 0)
  · rw [isLeap, decide_eq_true h, if_pos rfl]
    unfold daysBeforeYear
    omega
  · rw [isLeap, decide_eq_false h, if_neg Bool.false_ne_true]
    unfold daysBeforeYear
    omega

theorem daysBeforeYear_mono {y y' : ℤ} (h : y ≤ y') : daysBeforeYear y ≤ daysBeforeYear y' := by
  have hmono : Monotone daysBeforeYear := monotone_int_of_le_succ fun y => by
    rw [daysBeforeYear_succ]
    omega
  exact hmono h

theorem lt_of_daysBeforeYear_lt {y y' : ℤ} (h : daysBeforeYear y < daysBeforeYear y') : y < y' := by
  by_contra hge
  have hle : daysBeforeYear y' ≤ daysBeforeYear y := daysBeforeYear_mono (not_lt.mp hge)
  omega

/-- The year of a day, from an estimate that is off by one at most. -/
def yearOf (n : ℤ) : ℤ :=
  let y := 400 * n / 146097
  if n < daysBeforeYear y then y - 1 else if daysBeforeYear (y + 1) ≤ n then y + 1 else y

theorem yearOf_spec (n : ℤ) : daysBeforeYear (yearOf n) ≤ n ∧ n < daysBeforeYear (yearOf n + 1) := by
  unfold yearOf
  dsimp only
  split_ifs with h h'
  · rw [sub_add_cancel]
    unfold daysBeforeYear at *
    omega
  · unfold daysBeforeYear at *
    omega
  · exact ⟨not_lt.mp h, not_le.mp h'⟩

theorem yearOf_eq {y n : ℤ} (h : daysBeforeYear y ≤ n) (h' : n < daysBeforeYear (y + 1)) : yearOf n = y := by
  obtain ⟨hlow, hhigh⟩ := yearOf_spec n
  have hle : y < yearOf n + 1 := lt_of_daysBeforeYear_lt (h.trans_lt hhigh)
  have hge : yearOf n < y + 1 := lt_of_daysBeforeYear_lt (hlow.trans_lt h')
  omega

/-- The number of full months before a day of the year. -/
def monthsBefore (y : ℤ) (n : ℕ) : ℕ := Nat.findGreatest (fun k => daysOfMonths y k ≤ n) 11

theorem monthsBefore_spec {y : ℤ} {n : ℕ} (h : n < daysOfMonths y 12) :
    monthsBefore y n ≤ 11 ∧ daysOfMonths y (monthsBefore y n) ≤ n ∧ n < daysOfMonths y (monthsBefore y n + 1) := by
  have hle : monthsBefore y n ≤ 11 := Nat.findGreatest_le 11
  refine ⟨hle, ?_, ?_⟩
  · exact Nat.findGreatest_spec (P := fun k => daysOfMonths y k ≤ n) (Nat.zero_le 11) (Nat.zero_le n)
  · rcases hle.eq_or_lt with heq | hlt
    · rwa [heq]
    · exact not_le.mp (Nat.findGreatest_is_greatest (P := fun k => daysOfMonths y k ≤ n) (Nat.lt_succ_self _) hlt)

theorem monthsBefore_eq {y : ℤ} {n k : ℕ} (hk : k ≤ 11) (h : daysOfMonths y k ≤ n) (h' : n < daysOfMonths y (k + 1)) :
    monthsBefore y n = k := by
  obtain ⟨-, hlow, hhigh⟩ := monthsBefore_spec (h'.trans_le (daysOfMonths_mono y (Nat.succ_le_succ hk)))
  have hle : k < monthsBefore y n + 1 := (daysOfMonths_mono y).reflect_lt (h.trans_lt hhigh)
  have hge : monthsBefore y n < k + 1 := (daysOfMonths_mono y).reflect_lt (hlow.trans_lt h')
  omega

/-! ### Dates and days -/

@[ext]
structure Date where
  year : ℤ
  month : ℕ
  day : ℕ
  isDate : IsDate year month day
  deriving DecidableEq

namespace Date

def toDays (d : Date) : ℤ := daysBeforeYear d.year + daysOfMonths d.year (d.month - 1) + (d.day - 1)

/-- The day within its year. -/
def dayOfYear (n : ℤ) : ℕ := (n - daysBeforeYear (yearOf n)).toNat

theorem dayOfYear_lt (n : ℤ) : dayOfYear n < daysOfMonths (yearOf n) 12 := by
  obtain ⟨hlow, hhigh⟩ := yearOf_spec n
  rw [daysBeforeYear_succ] at hhigh
  unfold dayOfYear
  omega

def ofDays (n : ℤ) : Date where
  year := yearOf n
  month := monthsBefore (yearOf n) (dayOfYear n) + 1
  day := dayOfYear n - daysOfMonths (yearOf n) (monthsBefore (yearOf n) (dayOfYear n)) + 1
  isDate := by
    obtain ⟨hle, hlow, hhigh⟩ := monthsBefore_spec (dayOfYear_lt n)
    rw [daysOfMonths] at hhigh
    exact ⟨Nat.succ_le_succ (Nat.zero_le _), by omega, Nat.succ_le_succ (Nat.zero_le _), by omega⟩

/-- The date of the day it stands for. -/
theorem toDays_ofDays (n : ℤ) : (ofDays n).toDays = n := by
  obtain ⟨hle, hlow, hhigh⟩ := monthsBefore_spec (dayOfYear_lt n)
  have hyear := (yearOf_spec n).1
  have hday : (dayOfYear n : ℤ) = n - daysBeforeYear (yearOf n) := Int.toNat_of_nonneg (by omega)
  simp only [toDays, ofDays, Nat.add_sub_cancel]
  omega

theorem ofDays_toDays (d : Date) : ofDays d.toDays = d := by
  obtain ⟨hm, hm', hd, hd'⟩ := d.isDate
  obtain ⟨k, hk⟩ : ∃ k, d.month = k + 1 := ⟨d.month - 1, by omega⟩
  rw [hk] at hd'
  have hsum : daysOfMonths d.year (k + 1) = daysOfMonths d.year k + daysInMonth d.year (k + 1) := rfl
  have hdays : d.toDays = daysBeforeYear d.year + daysOfMonths d.year k + (d.day - 1) := by
    rw [toDays, hk, Nat.add_sub_cancel]
  have hbefore : daysOfMonths d.year (k + 1) ≤ daysOfMonths d.year 12 := daysOfMonths_mono d.year (by omega)
  have hyear : yearOf d.toDays = d.year := by
    have hsucc := daysBeforeYear_succ d.year
    exact yearOf_eq (by omega) (by omega)
  have hday : dayOfYear d.toDays = daysOfMonths d.year k + (d.day - 1) := by
    rw [dayOfYear, hyear]
    omega
  have hmonth : monthsBefore d.year (dayOfYear d.toDays) = k := monthsBefore_eq (by omega) (by omega) (by omega)
  refine Date.ext hyear ?_ ?_
  · simp only [ofDays, hyear, hmonth, hk]
  · simp only [ofDays, hyear, hmonth]
    omega

end Date

/-! ### Date times and seconds -/

@[ext]
structure DateTime where
  date : Date
  hour : ℕ
  minute : ℕ
  second : ℕ
  hour_lt : hour < 24
  minute_lt : minute < 60
  second_lt : second < 60
  deriving DecidableEq

namespace DateTime

def toSeconds (t : DateTime) : ℤ := t.date.toDays * 86400 + t.hour * 3600 + t.minute * 60 + t.second

def ofSeconds (n : ℤ) : DateTime where
  date := Date.ofDays (n / 86400)
  hour := (n % 86400 / 3600).toNat
  minute := (n % 3600 / 60).toNat
  second := (n % 60).toNat
  hour_lt := by omega
  minute_lt := by omega
  second_lt := by omega

theorem toSeconds_ofSeconds (n : ℤ) : (ofSeconds n).toSeconds = n := by
  simp only [toSeconds, ofSeconds, Date.toDays_ofDays]
  omega

theorem ofSeconds_toSeconds (t : DateTime) : ofSeconds t.toSeconds = t := by
  have hh := t.hour_lt
  have hm := t.minute_lt
  have hs := t.second_lt
  have hdate : t.toSeconds / 86400 = t.date.toDays := by
    unfold toSeconds
    omega
  refine DateTime.ext ?_ ?_ ?_ ?_
  · simp only [ofSeconds, hdate, Date.ofDays_toDays]
  · simp only [ofSeconds, toSeconds]
    omega
  · simp only [ofSeconds, toSeconds]
    omega
  · simp only [ofSeconds, toSeconds]
    omega

end DateTime
end Calendar
end Daywright
