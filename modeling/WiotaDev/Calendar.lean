import WiotaDev.StretchWalk
import Mathlib.Tactic.IntervalCases

/-! # The Gregorian calendar: dates, moments and how they are counted -/

namespace WiotaDev.Calendar
open StretchWalk

def IsLeap (y : ℕ) : Prop := y % 4 = 0 ∧ (y % 100 ≠ 0 ∨ y % 400 = 0)

instance (y : ℕ) : Decidable (IsLeap y) := inferInstanceAs (Decidable (_ ∧ _))

/-- The days of month `m`, counted from 1. -/
def monthLength (y m : ℕ) : ℕ :=
  if m = 2 then if IsLeap y then 29 else 28
  else if m = 4 ∨ m = 6 ∨ m = 9 ∨ m = 11 then 30
  else 31

def yearLength (y : ℕ) : ℕ := if IsLeap y then 366 else 365

theorem distance_months (y : ℕ) : distance (monthLength y) 1 13 = yearLength y := by
  by_cases h : IsLeap y <;>
    simp [distance, Finset.sum_Ico_eq_sum_range, Finset.sum_range_succ, monthLength, yearLength, h]

theorem monthLength_bounds (y m : ℕ) : 28 ≤ monthLength y m ∧ monthLength y m ≤ 31 := by
  rw [monthLength]
  split_ifs <;> omega

theorem january_le : 1 ≤ 12 := by decide

/-- A day of the calendar. -/
structure Date where
  year : ℕ
  month : ℕ
  day : ℕ
  month_pos : 1 ≤ month
  month_le : month ≤ 12
  day_pos : 1 ≤ day
  day_le : day ≤ monthLength year month

namespace Date

/-- Days since the first day of year 0. -/
def dayNumber (d : Date) : ℕ :=
  distance yearLength 0 d.year + distance (monthLength d.year) 1 d.month + (d.day - 1)

/-- The day of a month is inside the month, and the months up to it inside the year. -/
theorem ends_month (d : Date) :
    Ends (monthLength d.year) 1 (distance (monthLength d.year) 1 d.month + (d.day - 1)) d.month
      (d.day - 1) := by
  have hpos := d.day_pos
  have hle := d.day_le
  exact ⟨d.month_pos, rfl, by omega⟩

theorem ends_year (d : Date) :
    Ends yearLength 0 d.dayNumber d.year (distance (monthLength d.year) 1 d.month + (d.day - 1)) := by
  refine ⟨Nat.zero_le _, by rw [dayNumber, Nat.add_assoc], ?_⟩
  have hpos := d.day_pos
  have hle := d.day_le
  have hmonth : distance (monthLength d.year) 1 (d.month + 1) =
      distance (monthLength d.year) 1 d.month + monthLength d.year d.month :=
    distance_succ d.month_pos
  have hmax := d.month_le
  have hrest : distance (monthLength d.year) 1 (d.month + 1) ≤ distance (monthLength d.year) 1 13 :=
    distance_mono (by omega)
  rw [← distance_months]
  omega

theorem dayNumber_injective {d e : Date} (h : d.dayNumber = e.dayNumber) : d = e := by
  have he := e.ends_year
  rw [← h] at he
  obtain ⟨hyear, hrest⟩ := d.ends_year.unique he
  have hm := e.ends_month
  rw [← hyear] at hm hrest
  rw [← hrest] at hm
  obtain ⟨hmonth, hday⟩ := d.ends_month.unique hm
  have hd := d.day_pos
  have hd' := e.day_pos
  cases d
  cases e
  simp only at hyear hmonth hday hd hd'
  obtain rfl := hyear
  obtain rfl := hmonth
  congr 1
  omega

end Date

/-- A second of a day. -/
structure Moment extends Date where
  hour : ℕ
  minute : ℕ
  second : ℕ
  hour_lt : hour < 24
  minute_lt : minute < 60
  second_lt : second < 60

namespace Moment

def secondOfDay (m : Moment) : ℕ := m.hour * 3600 + m.minute * 60 + m.second

/-- Seconds since the first moment of year 0. -/
def seconds (m : Moment) : ℕ := m.dayNumber * 86400 + m.secondOfDay

theorem secondOfDay_lt (m : Moment) : m.secondOfDay < 86400 := by
  have hh := m.hour_lt
  have hm := m.minute_lt
  have hs := m.second_lt
  rw [secondOfDay]
  omega

theorem dayNumber_eq (m : Moment) : m.dayNumber = m.seconds / 86400 := by
  have hlt := m.secondOfDay_lt
  rw [seconds]
  omega

/-- A moment is determined by its number. -/
theorem seconds_injective {m n : Moment} (h : m.seconds = n.seconds) : m = n := by
  have hdate : m.toDate = n.toDate := by
    apply Date.dayNumber_injective
    rw [m.dayNumber_eq, n.dayNumber_eq, h]
  have hday : m.secondOfDay = n.secondOfDay := by
    rw [seconds, seconds, hdate] at h
    omega
  obtain ⟨d, hour, minute, second, hh, hm, hs⟩ := m
  obtain ⟨d', hour', minute', second', hh', hm', hs'⟩ := n
  simp only [secondOfDay] at hday hdate
  obtain rfl := hdate
  obtain rfl : hour = hour' := by omega
  obtain rfl : minute = minute' := by omega
  obtain rfl : second = second' := by omega
  rfl

end Moment

end WiotaDev.Calendar
