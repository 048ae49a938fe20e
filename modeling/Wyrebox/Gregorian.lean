import Mathlib.Data.Nat.Basic
import Mathlib.Logic.Function.Iterate

set_option autoImplicit false

/-!
# The proleptic Gregorian calendar

Dates from the first of January of the year 1 on, numbered from 1. Every number is that of one date.
-/
namespace Wyrebox.Gregorian

def isLeap (year : ℕ) : Bool := year % 4 = 0 ∧ (year % 100 ≠ 0 ∨ year % 400 = 0)

def daysInMonth (year : ℕ) : ℕ → ℕ
  | 2 => if isLeap year then 29 else 28
  | 4 => 30
  | 6 => 30
  | 9 => 30
  | 11 => 30
  | _ => 31

@[ext] structure Date where
  year : ℕ
  month : ℕ
  day : ℕ
  year_pos : 0 < year
  month_pos : 0 < month
  month_le : month ≤ 12
  day_pos : 0 < day
  day_le : day ≤ daysInMonth year month
  deriving DecidableEq

theorem daysInMonth_pos (year month : ℕ) : 0 < daysInMonth year month := by
  unfold daysInMonth
  split <;> first | split <;> decide | decide

def Date.first : Date := ⟨1, 1, 1, by decide, by decide, by decide, by decide, by decide⟩

/-- The day after. -/
def Date.next (date : Date) : Date :=
  if hday : date.day < daysInMonth date.year date.month then
    ⟨date.year, date.month, date.day + 1, date.year_pos, date.month_pos, date.month_le, Nat.succ_pos _, hday⟩
  else if hmonth : date.month < 12 then
    ⟨date.year, date.month + 1, 1, date.year_pos, Nat.succ_pos _, hmonth, Nat.one_pos, daysInMonth_pos _ _⟩
  else ⟨date.year + 1, 1, 1, Nat.succ_pos _, Nat.one_pos, by decide, Nat.one_pos, daysInMonth_pos _ _⟩

/-! ## Day numbers -/

def daysBeforeYear (year : ℕ) : ℕ := 365 * (year - 1) + (year - 1) / 4 - (year - 1) / 100 + (year - 1) / 400

def daysBeforeMonth (year : ℕ) : ℕ → ℕ
  | 0 => 0
  | 1 => 0
  | month + 2 => daysBeforeMonth year (month + 1) + daysInMonth year (month + 1)

/-- The first of January of the year 1 has number 1. -/
def Date.dayNumber (date : Date) : ℕ := daysBeforeYear date.year + daysBeforeMonth date.year date.month + date.day

theorem daysBeforeMonth_succ (year : ℕ) {month : ℕ} (h : 0 < month) :
    daysBeforeMonth year (month + 1) = daysBeforeMonth year month + daysInMonth year month := by
  obtain ⟨month, rfl⟩ : ∃ m, month = m + 1 := ⟨month - 1, by omega⟩
  rfl

theorem daysBeforeYear_succ {year : ℕ} (h : 0 < year) :
    daysBeforeYear (year + 1) = daysBeforeYear year + daysBeforeMonth year 13 := by
  have hlength : daysBeforeMonth year 13 = if isLeap year then 366 else 365 := by
    simp only [daysBeforeMonth, daysInMonth]
    cases isLeap year <;> rfl
  obtain ⟨previous, rfl⟩ : ∃ previous, year = previous + 1 := ⟨year - 1, by omega⟩
  have hcentury : previous / 100 ≤ previous / 4 := Nat.div_le_div_left (by decide) (by decide)
  rw [hlength, daysBeforeYear, daysBeforeYear, Nat.add_sub_cancel, Nat.add_sub_cancel, Nat.succ_div, Nat.succ_div,
    Nat.succ_div]
  simp only [Nat.dvd_iff_mod_eq_zero, isLeap, decide_eq_true_eq]
  by_cases h400 : (previous + 1) % 400 = 0
  · have h100 : (previous + 1) % 100 = 0 := by omega
    have h4 : (previous + 1) % 4 = 0 := by omega
    simp only [h400, h100, h4, if_true, or_true, and_self]
    omega
  · by_cases h100 : (previous + 1) % 100 = 0
    · have h4 : (previous + 1) % 4 = 0 := by omega
      simp only [h400, h100, h4, if_true, if_false, ne_eq, not_true_eq_false, or_self, and_false]
      omega
    · by_cases h4 : (previous + 1) % 4 = 0
      · simp only [h400, h100, h4, if_true, if_false, ne_eq, not_false_eq_true, true_or, and_self]
        omega
      · simp only [h400, h100, h4, if_false, false_and]
        omega

theorem daysBeforeYear_mono {year year' : ℕ} (hpos : 0 < year) (h : year ≤ year') :
    daysBeforeYear year ≤ daysBeforeYear year' := by
  induction year', h using Nat.le_induction with
  | base => exact le_rfl
  | succ year' hle ih => exact Nat.le_trans ih (by rw [daysBeforeYear_succ (by omega)]; exact Nat.le_add_right _ _)

theorem daysBeforeMonth_mono (year : ℕ) {month month' : ℕ} (hpos : 0 < month) (h : month ≤ month') :
    daysBeforeMonth year month ≤ daysBeforeMonth year month' := by
  induction month', h using Nat.le_induction with
  | base => exact le_rfl
  | succ month' hle ih => exact Nat.le_trans ih (by rw [daysBeforeMonth_succ year (by omega)]; exact Nat.le_add_right _ _)

namespace Date

theorem dayNumber_first : first.dayNumber = 1 := rfl

theorem dayNumber_next (date : Date) : date.next.dayNumber = date.dayNumber + 1 := by
  have hday := date.day_le
  unfold next
  split
  · simp only [dayNumber]
    omega
  · have hlast : date.day = daysInMonth date.year date.month := by omega
    split
    · simp only [dayNumber, daysBeforeMonth_succ date.year date.month_pos]
      omega
    · have hmonth : date.month = 12 := by have := date.month_le; omega
      have hyear : daysBeforeMonth date.year 13 = daysBeforeMonth date.year 12 + daysInMonth date.year 12 :=
        daysBeforeMonth_succ date.year (by decide)
      rw [hmonth] at hlast
      simp only [dayNumber, daysBeforeYear_succ date.year_pos, hmonth, hlast, hyear]
      rw [daysBeforeMonth]
      omega

/-- Within its year a date comes after the months before its own and not after their end. -/
theorem dayInYear_le (date : Date) : daysBeforeMonth date.year date.month + date.day ≤ daysBeforeMonth date.year 13 := by
  have hday := date.day_le
  have hmonth := daysBeforeMonth_succ date.year date.month_pos
  have hmono : daysBeforeMonth date.year (date.month + 1) ≤ daysBeforeMonth date.year 13 :=
    daysBeforeMonth_mono date.year (Nat.succ_pos _) (Nat.succ_le_succ date.month_le)
  omega

theorem dayNumber_le (date : Date) : date.dayNumber ≤ daysBeforeYear (date.year + 1) := by
  have h := date.dayInYear_le
  rw [daysBeforeYear_succ date.year_pos, dayNumber]
  omega

theorem lt_dayNumber (date : Date) : daysBeforeYear date.year < dayNumber date := by
  have h := date.day_pos
  rw [dayNumber]
  omega

/-- The years in the order of the day numbers. -/
theorem year_le_iff (date : Date) (year : ℕ) : date.year ≤ year ↔ date.dayNumber ≤ daysBeforeYear (year + 1) := by
  constructor
  · intro h
    exact Nat.le_trans date.dayNumber_le (daysBeforeYear_mono (Nat.succ_pos _) (Nat.succ_le_succ h))
  · intro h
    by_contra hlt
    have hmono : daysBeforeYear (year + 1) ≤ daysBeforeYear date.year :=
      daysBeforeYear_mono (Nat.succ_pos _) (Nat.lt_of_not_le hlt)
    have hday := date.lt_dayNumber
    omega

theorem dayNumber_injective : Function.Injective dayNumber := by
  intro date date' h
  have hyear : date.year = date'.year := by
    have hle := (date'.year_le_iff date.year).mpr (h ▸ date.dayNumber_le)
    have hge := (date.year_le_iff date'.year).mpr (h ▸ date'.dayNumber_le)
    omega
  have hmonth : date.month = date'.month := by
    have hstart := date.day_pos
    have hstart' := date'.day_pos
    have hend := date.day_le
    have hend' := date'.day_le
    have hsucc := daysBeforeMonth_succ date.year date.month_pos
    have hsucc' := daysBeforeMonth_succ date'.year date'.month_pos
    rw [dayNumber, dayNumber, hyear] at h
    rw [hyear] at hsucc hend
    rcases Nat.lt_trichotomy date.month date'.month with hlt | heq | hlt
    · have hmono := daysBeforeMonth_mono date'.year (Nat.succ_pos date.month) hlt
      rw [Nat.succ_eq_add_one] at hmono
      omega
    · exact heq
    · have hmono := daysBeforeMonth_mono date'.year (Nat.succ_pos date'.month) hlt
      rw [Nat.succ_eq_add_one] at hmono
      omega
  have hday : date.day = date'.day := by
    rw [dayNumber, dayNumber, hyear, hmonth] at h
    omega
  exact Date.ext hyear hmonth hday

/-- The date with a day number, found by counting days. -/
def ofDayNumber (n : ℕ) : Date := next^[n - 1] first

theorem dayNumber_ofDayNumber {n : ℕ} (h : 0 < n) : (ofDayNumber n).dayNumber = n := by
  have hcount : ∀ k, (next^[k] first).dayNumber = k + 1 := by
    intro k
    induction k with
    | zero => exact dayNumber_first
    | succ k ih => rw [Function.iterate_succ_apply', dayNumber_next, ih]
  rw [ofDayNumber, hcount]
  omega

theorem ofDayNumber_dayNumber (date : Date) : ofDayNumber date.dayNumber = date :=
  dayNumber_injective (dayNumber_ofDayNumber (Nat.zero_lt_of_lt date.lt_dayNumber))

/-- From Monday, which is 1, to Sunday, which is 7. -/
def weekday (date : Date) : ℕ := (date.dayNumber - 1) % 7 + 1

theorem weekday_next (date : Date) : date.next.weekday = date.weekday % 7 + 1 := by
  have h := date.lt_dayNumber
  rw [weekday, weekday, dayNumber_next]
  omega

end Date

/-! ## Instants -/

/-- The first of January 1970. -/
def epochDay : ℕ := 719163

def secondsPerDay : ℕ := 86400

/-- The seconds from the epoch to a second of a day. -/
def unixSeconds (date : Date) (secondOfDay : ℕ) : ℤ :=
  ((date.dayNumber : ℤ) - epochDay) * secondsPerDay + secondOfDay

/-- The first second of a year. -/
def yearStart (year : ℕ) : ℤ := ((daysBeforeYear year : ℤ) + 1 - epochDay) * secondsPerDay

/-- The day of an instant. -/
def dayOfInstant (t : ℤ) : ℕ := (t / secondsPerDay + epochDay).toNat

def secondOfDay (t : ℤ) : ℕ := (t % secondsPerDay).toNat

theorem secondOfDay_lt (t : ℤ) : secondOfDay t < secondsPerDay := by
  rw [secondOfDay, secondsPerDay]
  omega

/-- An instant from the year 1 on is a second of a day. -/
theorem unixSeconds_ofDayNumber {t : ℤ} (h : 0 < dayOfInstant t) :
    unixSeconds (.ofDayNumber (dayOfInstant t)) (secondOfDay t) = t := by
  rw [unixSeconds, Date.dayNumber_ofDayNumber h]
  rw [dayOfInstant] at h ⊢
  rw [secondOfDay]
  simp only [secondsPerDay, epochDay] at h ⊢
  omega

/-- The years of an instant's day. -/
theorem year_of_instant {t : ℤ} {from' until' : ℕ} (hpos : 0 < from') (hfrom : yearStart from' ≤ t)
    (huntil : t < yearStart (until' + 1)) : 0 < dayOfInstant t ∧
      from' ≤ (Date.ofDayNumber (dayOfInstant t)).year ∧ (Date.ofDayNumber (dayOfInstant t)).year ≤ until' := by
  have hday : daysBeforeYear from' < dayOfInstant t ∧ dayOfInstant t ≤ daysBeforeYear (until' + 1) := by
    simp only [yearStart, dayOfInstant, secondsPerDay, epochDay] at *
    omega
  have hdayPos : 0 < dayOfInstant t := by omega
  have hnumber := Date.dayNumber_ofDayNumber hdayPos
  refine ⟨hdayPos, ?_, ?_⟩
  · by_contra hlt
    have hle := ((Date.ofDayNumber (dayOfInstant t)).year_le_iff (from' - 1)).mp (by omega)
    rw [Nat.sub_add_cancel hpos, hnumber] at hle
    omega
  · rw [Date.year_le_iff, hnumber]
    exact hday.2

end Wyrebox.Gregorian
