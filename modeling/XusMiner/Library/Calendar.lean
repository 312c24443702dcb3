import Mathlib.Algebra.BigOperators.Group.Finset.Basic
import Mathlib.Algebra.Order.BigOperators.Group.Finset
import Mathlib.Tactic

/-! The proleptic Gregorian calendar: years of any sign, and days counted from 1970-01-01. -/

namespace Calendar

def IsLeap (year : ℤ) : Prop := 4 ∣ year ∧ (¬100 ∣ year ∨ 400 ∣ year)

instance : DecidablePred IsLeap := fun year =>
  inferInstanceAs (Decidable (4 ∣ year ∧ (¬100 ∣ year ∨ 400 ∣ year)))

def yearLength (year : ℤ) : ℤ := if IsLeap year then 366 else 365

def monthLength (year month : ℤ) : ℤ :=
  if month = 2 then if IsLeap year then 29 else 28
  else if month = 4 ∨ month = 6 ∨ month = 9 ∨ month = 11 then 30
  else 31

/-- The days from the start of 1970 to the start of a year; negative for earlier years. -/
def daysBeforeYear (year : ℤ) : ℤ :=
  ∑ k ∈ Finset.range (year - 1970).toNat, yearLength (1970 + k) -
    ∑ k ∈ Finset.range (1970 - year).toNat, yearLength (1969 - k)

def daysBeforeMonth (year month : ℤ) : ℤ :=
  ∑ k ∈ Finset.range (month - 1).toNat, monthLength year (1 + k)

structure Date where
  year : ℤ
  month : ℤ
  day : ℤ
  deriving DecidableEq

structure Date.Valid (date : Date) : Prop where
  month : 1 ≤ date.month ∧ date.month ≤ 12
  day : 1 ≤ date.day ∧ date.day ≤ monthLength date.year date.month

/-- The days from 1970-01-01. -/
def Date.dayCount (date : Date) : ℤ :=
  daysBeforeYear date.year + daysBeforeMonth date.year date.month + (date.day - 1)

theorem daysBeforeYear_succ (year : ℤ) :
    daysBeforeYear (year + 1) = daysBeforeYear year + yearLength year := by
  unfold daysBeforeYear
  rcases le_or_gt 1970 year with h | h
  · have hafter : (year + 1 - 1970).toNat = (year - 1970).toNat + 1 := by omega
    have hbefore : (1970 - (year + 1)).toNat = 0 ∧ (1970 - year).toNat = 0 := by omega
    have hyear : (1970 : ℤ) + ((year - 1970).toNat : ℤ) = year := by omega
    rw [hafter, hbefore.1, hbefore.2, Finset.sum_range_succ, hyear, Finset.sum_range_zero]
    omega
  · have hbefore : (1970 - year).toNat = (1970 - (year + 1)).toNat + 1 := by omega
    have hafter : (year + 1 - 1970).toNat = 0 ∧ (year - 1970).toNat = 0 := by omega
    have hyear : (1969 : ℤ) - ((1970 - (year + 1)).toNat : ℤ) = year := by omega
    rw [hbefore, hafter.1, hafter.2, Finset.sum_range_succ, hyear]
    omega

theorem yearLength_pos (year : ℤ) : 0 < yearLength year := by
  unfold yearLength
  split_ifs <;> decide

theorem monthLength_pos (year month : ℤ) : 0 < monthLength year month := by
  unfold monthLength
  split_ifs <;> decide

theorem daysBeforeYear_mono : Monotone daysBeforeYear := by
  apply monotone_int_of_le_succ
  intro year
  rw [daysBeforeYear_succ]
  have := yearLength_pos year
  omega

theorem daysBeforeMonth_succ (year : ℤ) {month : ℤ} (h : 1 ≤ month) :
    daysBeforeMonth year (month + 1) = daysBeforeMonth year month + monthLength year month := by
  have hnext : (month + 1 - 1).toNat = (month - 1).toNat + 1 := by omega
  have hmonth : (1 : ℤ) + ((month - 1).toNat : ℤ) = month := by omega
  rw [daysBeforeMonth, hnext, Finset.sum_range_succ, hmonth, daysBeforeMonth]

theorem daysBeforeMonth_mono (year : ℤ) : Monotone (daysBeforeMonth year) := by
  intro month month' h
  apply Finset.sum_le_sum_of_subset_of_nonneg
  · exact Finset.range_subset_range.2 (by omega)
  · exact fun k _ _ => (monthLength_pos year _).le

/-- The years of a cycle differ in their leap days only. -/
theorem daysBeforeYear_eq (year : ℤ) : daysBeforeYear year =
    365 * year + (year - 1) / 4 - (year - 1) / 100 + (year - 1) / 400 - 719527 := by
  refine Int.inductionOn' year 1970 rfl (fun year _ ih => ?_) fun year _ ih => ?_
  · rw [daysBeforeYear_succ, ih, yearLength]
    split_ifs with h <;> unfold IsLeap at h <;> omega
  · have hsucc := daysBeforeYear_succ (year - 1)
    rw [sub_add_cancel, ih, yearLength] at hsucc
    split_ifs at hsucc with h <;> unfold IsLeap at h <;> omega

theorem daysBeforeMonth_eq (year : ℤ) {month : ℤ} (h : 1 ≤ month ∧ month ≤ 13) :
    daysBeforeMonth year month = (367 * month - 362) / 12 -
      if month ≤ 2 then 0 else if IsLeap year then 1 else 2 := by
  obtain ⟨hlow, hhigh⟩ := h
  induction month, hlow using Int.leInduction with
  | base => rfl
  | succ month hlow ih =>
    have hlast : month ≤ 12 := by omega
    rw [daysBeforeMonth_succ year hlow, ih (by omega), monthLength]
    interval_cases month <;> split_ifs <;> omega

/-- The number of 1 March of a year. -/
def marchFirst (year : ℤ) : ℤ := 365 * year + year / 4 - year / 100 + year / 400 - 719468

theorem daysBefore_of_march {year month : ℤ} (h : 3 ≤ month ∧ month ≤ 13) :
    daysBeforeYear year + daysBeforeMonth year month =
      marchFirst year + ((367 * month - 362) / 12 - 61) := by
  rw [daysBeforeYear_eq, daysBeforeMonth_eq year (by omega), if_neg (by omega), marchFirst]
  split_ifs with hleap <;> unfold IsLeap at hleap <;> omega

theorem daysBeforeYear_of_march (year : ℤ) :
    daysBeforeYear (year + 1) = marchFirst year + 306 := by
  rw [daysBeforeYear_eq, marchFirst, add_sub_cancel_right]
  omega

/-- A day lies in its month, and the month in its year. -/
theorem Date.Valid.dayCount_mem {date : Date} (h : date.Valid) :
    (daysBeforeYear date.year + daysBeforeMonth date.year date.month ≤ date.dayCount ∧
      date.dayCount < daysBeforeYear date.year + daysBeforeMonth date.year (date.month + 1)) ∧
    daysBeforeYear date.year ≤ date.dayCount ∧ date.dayCount < daysBeforeYear (date.year + 1) := by
  have hmonth := daysBeforeMonth_succ date.year h.month.1
  have hfirst : daysBeforeMonth date.year 1 ≤ daysBeforeMonth date.year date.month :=
    daysBeforeMonth_mono date.year h.month.1
  have hlast : daysBeforeMonth date.year (date.month + 1) ≤ daysBeforeMonth date.year 13 :=
    daysBeforeMonth_mono date.year (by have := h.month.2; omega)
  have hyear : daysBeforeMonth date.year 13 = yearLength date.year := by
    rw [daysBeforeMonth_eq date.year (by omega), yearLength]
    split_ifs <;> omega
  have hzero : daysBeforeMonth date.year 1 = 0 := rfl
  have hday := h.day
  rw [daysBeforeYear_succ, Date.dayCount]
  omega

/-- No two dates are the same number of days from 1970-01-01. -/
theorem Date.Valid.eq_of_dayCount {date date' : Date} (h : date.Valid) (h' : date'.Valid)
    (hcount : date.dayCount = date'.dayCount) : date = date' := by
  obtain ⟨hin, hyear⟩ := h.dayCount_mem
  obtain ⟨hin', hyear'⟩ := h'.dayCount_mem
  have hsame : date.year = date'.year := by
    by_contra hne
    rcases lt_or_gt_of_ne hne with hlt | hlt
    · have := daysBeforeYear_mono (show date.year + 1 ≤ date'.year from hlt)
      omega
    · have := daysBeforeYear_mono (show date'.year + 1 ≤ date.year from hlt)
      omega
  rw [← hsame] at hin'
  have hmonth : date.month = date'.month := by
    by_contra hne
    rcases lt_or_gt_of_ne hne with hlt | hlt
    · have := daysBeforeMonth_mono date.year (show date.month + 1 ≤ date'.month from hlt)
      omega
    · have := daysBeforeMonth_mono date.year (show date'.month + 1 ≤ date.month from hlt)
      omega
  have hday : date.day = date'.day := by
    rw [Date.dayCount, Date.dayCount, ← hsame, ← hmonth] at hcount
    omega
  cases date
  cases date'
  congr

/-- A date and a time of day. -/
structure Instant where
  date : Date
  hour : ℤ
  minute : ℤ
  second : ℤ
  millisecond : ℤ

structure Instant.Valid (instant : Instant) : Prop where
  date : instant.date.Valid
  hour : 0 ≤ instant.hour ∧ instant.hour < 24
  minute : 0 ≤ instant.minute ∧ instant.minute < 60
  second : 0 ≤ instant.second ∧ instant.second < 60
  millisecond : 0 ≤ instant.millisecond ∧ instant.millisecond < 1000

/-- The milliseconds from 1970-01-01T00:00:00.000. -/
def Instant.millis (instant : Instant) : ℤ :=
  (((instant.date.dayCount * 24 + instant.hour) * 60 + instant.minute) * 60 + instant.second) *
    1000 + instant.millisecond

theorem Instant.Valid.eq_of_millis {instant instant' : Instant} (h : instant.Valid)
    (h' : instant'.Valid) (hmillis : instant.millis = instant'.millis) : instant = instant' := by
  obtain ⟨hdate, hhour, hminute, hsecond, hmillisecond⟩ := h
  obtain ⟨hdate', hhour', hminute', hsecond', hmillisecond'⟩ := h'
  unfold Instant.millis at hmillis
  have hmilliseconds : instant.millisecond = instant'.millisecond := by omega
  have hseconds : instant.second = instant'.second := by omega
  have hminutes : instant.minute = instant'.minute := by omega
  have hcount : instant.date.dayCount = instant'.date.dayCount := by omega
  have hhours : instant.hour = instant'.hour := by omega
  have hdays := hdate.eq_of_dayCount hdate' hcount
  cases instant
  cases instant'
  congr

end Calendar
