import WiotaDev.Calendar
import Mathlib.Data.Int.ModEq

/-! # The date arithmetic of the RTC alarm -/

namespace WiotaDev.AlarmDates
open StretchWalk Calendar

def SECOND_PER_MINUTE : ℤ := 60
def SECOND_PER_HOUR : ℤ := 60 * SECOND_PER_MINUTE
def SECOND_PER_DAY : ℤ := 24 * SECOND_PER_HOUR
def SECOND_PER_NORMAL_YEAR : ℤ := 365 * SECOND_PER_DAY
def SECOND_PER_LEAP_YEAR : ℤ := 366 * SECOND_PER_DAY

/-- `rtc_time_t`: the year is 16-bit, every other field 8-bit. -/
structure RtcTime where
  year : ℕ
  mon : ℕ
  day : ℕ
  hour : ℕ
  min : ℕ
  sec : ℕ
  week : ℕ
  deriving DecidableEq

def isLeapYear (year : ℕ) : Bool := year &&& 0x03 == 0

def days : List ℤ := [31, 28, 31, 30, 31, 30, 31, 31, 30, 31, 30, 31]

def getMonthDay (year mon : ℕ) : ℤ :=
  if isLeapYear year ∧ mon = 2 then 29 else days.getD (mon - 1) 0

/-- The seconds of the year up to the time, as `total` sums them up. -/
def totalSeconds (t : RtcTime) : ℤ :=
  (List.range' 1 (t.mon - 1)).foldl (fun total i => total + getMonthDay t.year i * SECOND_PER_DAY) 0 +
    ((t.day - 1) * SECOND_PER_DAY + t.hour * SECOND_PER_HOUR + t.min * SECOND_PER_MINUTE + t.sec)

/-- The `while` loop: the year, and what is left of the interval. -/
def yearLoop (interval : ℤ) (year : ℕ) : ℕ × ℤ :=
  let delta := if isLeapYear year then SECOND_PER_LEAP_YEAR else SECOND_PER_NORMAL_YEAR
  if interval > 0 ∧ interval ≥ delta then
    yearLoop (interval - delta) ((year + 1) % 2 ^ 16)
  else
    (year, interval)
termination_by interval.toNat
decreasing_by
  simp only [SECOND_PER_LEAP_YEAR, SECOND_PER_NORMAL_YEAR, SECOND_PER_DAY, SECOND_PER_HOUR,
    SECOND_PER_MINUTE]
  split_ifs <;> omega

/-- The `for` loop with `n` passes to go: the month, and what is left of the interval. -/
def monthLoop (year : ℕ) : ℕ → ℕ → ℕ → ℤ → ℕ × ℤ
  | 0, _, mon, interval => (mon, interval)
  | n + 1, i, mon, interval =>
    let delta := getMonthDay year i * SECOND_PER_DAY
    if interval ≥ delta then
      monthLoop year n (i + 1) ((mon + 1) % 2 ^ 8) (interval - delta)
    else
      (mon, interval)

/-- A 32-bit `int` as the unsigned operand it becomes next to an unsigned one. -/
def unsigned (x : ℤ) : ℤ := x % 2 ^ 32

theorem unsigned_of_lt {x : ℕ} (hx : x < 2 ^ 32) : unsigned x = x :=
  Int.emod_eq_of_lt (by omega) (by omega)

def interval2time (interval : ℤ) (t : RtcTime) : RtcTime :=
  let passed := unsigned
    (interval + t.hour * SECOND_PER_HOUR + t.min * SECOND_PER_MINUTE + t.sec) / SECOND_PER_DAY
  let week := (unsigned (t.week + passed) % 7).toNat
  let interval := (interval + totalSeconds t).bmod (2 ^ 32)
  let (year, interval) := yearLoop interval t.year
  let (mon, interval) := monthLoop year 11 1 1 interval
  let inDay := unsigned interval % SECOND_PER_DAY
  let inHour := unsigned inDay % SECOND_PER_HOUR
  { year := year
    mon := mon
    day := (1 + unsigned interval / SECOND_PER_DAY).toNat % 2 ^ 8
    hour := (unsigned inDay / SECOND_PER_HOUR).toNat % 2 ^ 8
    min := (unsigned inHour / SECOND_PER_MINUTE).toNat % 2 ^ 8
    sec := (unsigned inHour % SECOND_PER_MINUTE).toNat % 2 ^ 8
    week := if week = 0 then 7 else week }

/-- The fields are those of a moment of the calendar. -/
structure RtcTime.Shows (t : RtcTime) (m : Moment) : Prop where
  year : t.year = m.year
  mon : t.mon = m.month
  day : t.day = m.day
  hour : t.hour = m.hour
  min : t.min = m.minute
  sec : t.sec = m.second

/-- The years for which the simplified rule for leap years is the calendar's. -/
theorem isLeapYear_iff {y : ℕ} (hlow : 2000 ≤ y) (hhigh : y ≤ 2099) :
    isLeapYear y = true ↔ IsLeap y := by
  have hmask : y &&& 0x03 = y % 4 := Nat.and_two_pow_sub_one_eq_mod y 2
  rw [isLeapYear, hmask, beq_iff_eq, IsLeap]
  omega

theorem getMonthDay_eq {y m : ℕ} (hlow : 2000 ≤ y) (hhigh : y ≤ 2099) (hm : 1 ≤ m) (hm' : m ≤ 12) :
    getMonthDay y m = monthLength y m := by
  have hleap := isLeapYear_iff hlow hhigh
  simp only [getMonthDay, monthLength, hleap]
  by_cases h : IsLeap y
  · interval_cases m <;> simp [h, days]
  · interval_cases m <;> simp [h, days]

/-- The seconds of a year and of a month. -/
def yearSeconds (y : ℕ) : ℕ := yearLength y * 86400

def monthSeconds (y m : ℕ) : ℕ := monthLength y m * 86400

theorem yearSeconds_pos (y : ℕ) : 0 < yearSeconds y := by
  rw [yearSeconds, yearLength]
  split_ifs <;> decide

theorem distance_monthSeconds (y : ℕ) : distance (monthSeconds y) 1 13 = yearSeconds y := by
  rw [yearSeconds, ← distance_months]
  exact distance_mul 86400 1 13

theorem delta_eq {y : ℕ} (hlow : 2000 ≤ y) (hhigh : y ≤ 2099) :
    (if isLeapYear y then SECOND_PER_LEAP_YEAR else SECOND_PER_NORMAL_YEAR) = (yearSeconds y : ℤ) := by
  rw [yearSeconds, yearLength]
  by_cases h : IsLeap y
  · rw [if_pos ((isLeapYear_iff hlow hhigh).mpr h), if_pos h]
    rfl
  · rw [if_neg (mt (isLeapYear_iff hlow hhigh).mp h), if_neg h]
    rfl

/-- The loop over the years walks to the year in which the interval ends. -/
theorem yearLoop_ends {x y : ℕ} (hlow : 2000 ≤ y) (hx : x < distance yearSeconds y 2100) :
    ∃ j r : ℕ, yearLoop x y = (j, (r : ℤ)) ∧ Ends yearSeconds y x j r := by
  induction x using Nat.strong_induction_on generalizing y with
  | _ x ih =>
    have hhigh : y < 2100 := by
      by_contra hge
      rw [distance, Finset.Ico_eq_empty_of_le (not_lt.mp hge), Finset.sum_empty] at hx
      omega
    have hpos := yearSeconds_pos y
    have hdelta := delta_eq hlow (by omega)
    rw [yearLoop]
    by_cases hfits : yearSeconds y ≤ x
    · rw [distance_first hhigh] at hx
      obtain ⟨j, r, hloop, hends⟩ := ih (x - yearSeconds y) (by omega) (show 2000 ≤ y + 1 by omega)
        (by omega)
      have hleft : (x : ℤ) - yearSeconds y = ((x - yearSeconds y : ℕ) : ℤ) := by omega
      have hyear : (y + 1) % 2 ^ 16 = y + 1 := Nat.mod_eq_of_lt (by omega)
      refine ⟨j, r, ?_, hends.step hfits⟩
      simp only [hdelta]
      rw [if_pos (by omega), hleft, hyear]
      exact hloop
    · refine ⟨y, x, ?_, Ends.stop (not_le.mp hfits)⟩
      simp only [hdelta]
      rw [if_neg (by omega)]

/-- The loop over the months walks to the month in which the rest ends. -/
theorem monthLoop_ends {y : ℕ} (hlow : 2000 ≤ y) (hhigh : y ≤ 2099) {n i x : ℕ} (hi : 1 ≤ i)
    (hn : i + n = 12) (hx : x < distance (monthSeconds y) i 13) :
    ∃ j r : ℕ, monthLoop y n i i x = (j, (r : ℤ)) ∧ Ends (monthSeconds y) i x j r := by
  induction n generalizing i x with
  | zero =>
    obtain rfl : i = 12 := hn
    refine ⟨12, x, rfl, Ends.stop ?_⟩
    rwa [distance_succ le_rfl, distance_self, Nat.zero_add] at hx
  | succ n ih =>
    have hdelta : getMonthDay y i * SECOND_PER_DAY = (monthSeconds y i : ℤ) := by
      rw [getMonthDay_eq hlow hhigh hi (by omega), monthSeconds, Nat.cast_mul]
      rfl
    by_cases hfits : monthSeconds y i ≤ x
    · rw [distance_first (by omega)] at hx
      obtain ⟨j, r, hloop, hends⟩ := ih (show 1 ≤ i + 1 by omega) (by omega)
        (show x - monthSeconds y i < distance (monthSeconds y) (i + 1) 13 by omega)
      have hleft : (x : ℤ) - monthSeconds y i = ((x - monthSeconds y i : ℕ) : ℤ) := by omega
      have hmon : (i + 1) % 2 ^ 8 = i + 1 := Nat.mod_eq_of_lt (by omega)
      refine ⟨j, r, ?_, hends.step hfits⟩
      simp only [monthLoop, hdelta]
      rw [if_pos (by omega), hleft, hmon]
      exact hloop
    · refine ⟨i, x, ?_, Ends.stop (not_le.mp hfits)⟩
      simp only [monthLoop, hdelta]
      rw [if_neg (by omega)]

/-- The seconds of the year up to a moment. -/
def secondOfYear (m : Moment) : ℕ :=
  distance (monthSeconds m.year) 1 m.month + (m.day - 1) * 86400 + m.secondOfDay

/-- The loop over the months before the current one. -/
theorem months_before {y : ℕ} (hlow : 2000 ≤ y) (hhigh : y ≤ 2099) {n : ℕ} (hn : n ≤ 11) :
    (List.range' 1 n).foldl (fun total i => total + getMonthDay y i * SECOND_PER_DAY) 0 =
      (distance (monthSeconds y) 1 (n + 1) : ℤ) := by
  induction n with
  | zero => simp
  | succ n ih =>
    have hmonth : getMonthDay y (1 + n) * SECOND_PER_DAY = (monthSeconds y (n + 1) : ℤ) := by
      rw [Nat.add_comm 1 n, getMonthDay_eq hlow hhigh (by omega) (by omega), monthSeconds,
        Nat.cast_mul]
      rfl
    rw [List.range'_1_concat, List.foldl_append, ih (by omega), List.foldl_cons, List.foldl_nil,
      hmonth, distance_succ (show 1 ≤ n + 1 by omega), Nat.cast_add]

theorem totalSeconds_eq {t : RtcTime} {m : Moment} (h : t.Shows m) (hlow : 2000 ≤ m.year)
    (hhigh : m.year ≤ 2099) : totalSeconds t = secondOfYear m := by
  have hpos := m.month_pos
  have hmonth := m.month_le
  have hday := m.day_pos
  have hbefore := months_before hlow hhigh (show m.month - 1 ≤ 11 by omega)
  rw [Nat.sub_add_cancel hpos] at hbefore
  rw [totalSeconds, h.year, h.mon, h.day, h.hour, h.min, h.sec, hbefore, secondOfYear,
    Moment.secondOfDay]
  simp only [SECOND_PER_DAY, SECOND_PER_HOUR, SECOND_PER_MINUTE]
  omega

theorem seconds_eq (m : Moment) :
    m.seconds = distance yearSeconds 0 m.year + secondOfYear m := by
  have hyears : distance yearSeconds 0 m.year = distance yearLength 0 m.year * 86400 :=
    distance_mul 86400 0 m.year
  have hmonths : distance (monthSeconds m.year) 1 m.month =
      distance (monthLength m.year) 1 m.month * 86400 := distance_mul 86400 1 m.month
  rw [Moment.seconds, Date.dayNumber, secondOfYear, hyears, hmonths]
  omega

theorem secondOfYear_lt (m : Moment) : secondOfYear m < yearSeconds m.year := by
  have hinside := m.ends_year.inside
  have hmonths : distance (monthSeconds m.year) 1 m.month =
      distance (monthLength m.year) 1 m.month * 86400 := distance_mul 86400 1 m.month
  have hlt := m.secondOfDay_lt
  rw [secondOfYear, yearSeconds, hmonths]
  omega

/-- The moment `q` seconds into a month. -/
def inMonth (y k q : ℕ) (hpos : 1 ≤ k) (hle : k ≤ 12) (hq : q < monthSeconds y k) : Moment where
  year := y
  month := k
  day := 1 + q / 86400
  hour := q % 86400 / 3600
  minute := q % 86400 % 3600 / 60
  second := q % 86400 % 3600 % 60
  month_pos := hpos
  month_le := hle
  day_pos := by omega
  day_le := by
    rw [monthSeconds] at hq
    omega
  hour_lt := by omega
  minute_lt := by omega
  second_lt := by omega

theorem secondOfYear_inMonth {y k q : ℕ} (hpos : 1 ≤ k) (hle : k ≤ 12) (hq : q < monthSeconds y k) :
    secondOfYear (inMonth y k q hpos hle hq) = distance (monthSeconds y) 1 k + q := by
  simp only [secondOfYear, inMonth, Moment.secondOfDay]
  omega

/-- 2099-12-31 23:59:59 -/
def lastMoment : Moment where
  year := 2099
  month := 12
  day := 31
  hour := 23
  minute := 59
  second := 59
  month_pos := january_le
  month_le := by decide
  day_pos := by decide
  day_le := by decide
  hour_lt := by decide
  minute_lt := by decide
  second_lt := by decide

/-- The seconds of the year fit the years that are left when the alarm time does. -/
theorem interval_fits {m : Moment} (hhigh : m.year ≤ 2099) {interval : ℕ}
    (hlast : m.seconds + interval ≤ lastMoment.seconds) :
    secondOfYear m + interval < distance yearSeconds m.year 2100 := by
  have hsum := seconds_eq m
  have hend := seconds_eq lastMoment
  have hlt := secondOfYear_lt lastMoment
  have hyear : lastMoment.year = 2099 := rfl
  have htotal : distance yearSeconds 0 m.year + distance yearSeconds m.year 2100 =
      distance yearSeconds 0 2100 := distance_add (Nat.zero_le _) (by omega)
  have htop : distance yearSeconds 0 2100 = distance yearSeconds 0 2099 + yearSeconds 2099 :=
    distance_succ (Nat.zero_le _)
  rw [hyear] at hend hlt
  omega

/-- The two loops find the month of the alarm time and the seconds into it. -/
theorem loops_end {m : Moment} (hlow : 2000 ≤ m.year) (hhigh : m.year ≤ 2099) {interval : ℕ}
    (hlast : m.seconds + interval ≤ lastMoment.seconds) :
    ∃ (j r k q : ℕ) (hpos : 1 ≤ k) (hle : k ≤ 12) (hq : q < monthSeconds j k),
      yearLoop ((secondOfYear m + interval : ℕ) : ℤ) m.year = (j, (r : ℤ)) ∧
      monthLoop j 11 1 1 r = (k, (q : ℤ)) ∧
      (inMonth j k q hpos hle hq).seconds = m.seconds + interval := by
  have hx := interval_fits hhigh hlast
  obtain ⟨j, r, hyears, hj⟩ := yearLoop_ends hlow hx
  have hjlow := hj.le
  have hjhigh : j < 2100 := hj.lt hx
  have hr : r < distance (monthSeconds j) 1 13 := distance_monthSeconds j ▸ hj.inside
  obtain ⟨k, q, hmonths, hk⟩ :=
    monthLoop_ends (show 2000 ≤ j by omega) (by omega) le_rfl (show 1 + 11 = 12 from rfl) hr
  have hkhigh : k < 13 := hk.lt hr
  refine ⟨j, r, k, q, hk.le, by omega, hk.inside, hyears, hmonths, ?_⟩
  have hsum := seconds_eq m
  have hjtotal := hj.total
  have hktotal := hk.total
  have htotal : distance yearSeconds 0 m.year + distance yearSeconds m.year j =
      distance yearSeconds 0 j := distance_add (Nat.zero_le _) hj.le
  have hyear : (inMonth j k q hk.le (by omega) hk.inside).year = j := rfl
  rw [seconds_eq, secondOfYear_inMonth, hyear]
  omega

/-- What the loops leave is written out as the fields of a moment. -/
theorem shows_inMonth {t : RtcTime} {interval : ℤ} {j r k q : ℕ} (hpos : 1 ≤ k) (hle : k ≤ 12)
    (hq : q < monthSeconds j k)
    (hyears : yearLoop ((interval + totalSeconds t).bmod (2 ^ 32)) t.year = (j, (r : ℤ)))
    (hmonths : monthLoop j 11 1 1 r = (k, (q : ℤ))) :
    (interval2time interval t).Shows (inMonth j k q hpos hle hq) := by
  have hday : q / 86400 ≤ 30 := by
    have hmonth := (monthLength_bounds j k).2
    rw [monthSeconds] at hq
    omega
  have hinDay : unsigned q % SECOND_PER_DAY = ((q % 86400 : ℕ) : ℤ) := by
    rw [unsigned_of_lt (by omega)]
    rfl
  have hinHour : unsigned ((q % 86400 : ℕ) : ℤ) % SECOND_PER_HOUR =
      ((q % 86400 % 3600 : ℕ) : ℤ) := by
    rw [unsigned_of_lt (by omega)]
    rfl
  simp only [interval2time, hyears, hmonths, hinDay, hinHour]
  rw [unsigned_of_lt (by omega), unsigned_of_lt (by omega), unsigned_of_lt (by omega)]
  refine ⟨rfl, rfl, ?_, ?_, ?_, ?_⟩ <;>
    simp only [inMonth, SECOND_PER_DAY, SECOND_PER_HOUR, SECOND_PER_MINUTE] <;> omega

/-- The midnights between two moments. -/
theorem midnights_eq {m n : Moment} {interval : ℕ} (h : n.seconds = m.seconds + interval) :
    n.dayNumber - m.dayNumber = (interval + m.secondOfDay) / 86400 := by
  have hlt := m.secondOfDay_lt
  rw [Moment.dayNumber_eq, h, Moment.seconds]
  omega

theorem passed_eq {t : RtcTime} {m : Moment} (h : t.Shows m) {interval : ℕ}
    (hint : interval < 2 ^ 31) :
    unsigned (interval + t.hour * SECOND_PER_HOUR + t.min * SECOND_PER_MINUTE + t.sec) /
      SECOND_PER_DAY = ((interval + m.secondOfDay) / 86400 : ℕ) := by
  have hlt := m.secondOfDay_lt
  have hsod : m.secondOfDay = m.hour * 3600 + m.minute * 60 + m.second := rfl
  have hsum : (interval + t.hour * SECOND_PER_HOUR + t.min * SECOND_PER_MINUTE + t.sec : ℤ) =
      ((interval + m.secondOfDay : ℕ) : ℤ) := by
    rw [h.hour, h.min, h.sec, hsod, SECOND_PER_HOUR, SECOND_PER_MINUTE]
    omega
  rw [hsum, unsigned_of_lt (by omega)]
  rfl

theorem week_eq {t : RtcTime} {m : Moment} (h : t.Shows m) (hweek : 1 ≤ t.week ∧ t.week ≤ 7)
    {interval : ℕ} (hint : interval < 2 ^ 31) :
    (interval2time interval t).week =
      (t.week - 1 + (interval + m.secondOfDay) / 86400) % 7 + 1 := by
  have hlt := m.secondOfDay_lt
  simp only [interval2time, passed_eq h hint]
  rw [← Nat.cast_add, unsigned_of_lt (by omega)]
  by_cases hzero : (((t.week + (interval + m.secondOfDay) / 86400 : ℕ) : ℤ) % 7).toNat = 0
  · rw [if_pos hzero]
    omega
  · rw [if_neg hzero]
    omega

/-- The alarm time is the moment that many seconds later, and the weekday moves on with every
midnight. -/
theorem interval2time_shows {t : RtcTime} {m : Moment} (h : t.Shows m) (hlow : 2000 ≤ m.year)
    (hhigh : m.year ≤ 2099) (hweek : 1 ≤ t.week ∧ t.week ≤ 7) (interval : ℕ)
    (hint : secondOfYear m + interval < 2 ^ 31)
    (hlast : m.seconds + interval ≤ lastMoment.seconds) :
    ∃ m' : Moment, (∀ u : Moment, u.seconds = m.seconds + interval ↔ u = m') ∧
      (interval2time interval t).Shows m' ∧
      (interval2time interval t).week =
        (t.week - 1 + (m'.dayNumber - m.dayNumber)) % 7 + 1 := by
  obtain ⟨j, r, k, q, hpos, hle, hq, hyears, hmonths, hnext⟩ := loops_end hlow hhigh hlast
  have hstart : (↑interval + totalSeconds t).bmod (2 ^ 32) =
      ((secondOfYear m + interval : ℕ) : ℤ) := by
    rw [totalSeconds_eq h hlow hhigh, ← Nat.cast_add, Nat.add_comm]
    exact Int.bmod_eq_of_le (by omega) (by omega)
  rw [← hstart, ← h.year] at hyears
  refine ⟨inMonth j k q hpos hle hq, fun u => ⟨fun hu => ?_, ?_⟩, ?_, ?_⟩
  · exact Moment.seconds_injective (hu.trans hnext.symm)
  · rintro rfl
    exact hnext
  · exact shows_inMonth hpos hle hq hyears hmonths
  · rw [midnights_eq hnext]
    exact week_eq h hweek (by omega)

/-- 2099-02-28 23:59:59 -/
def endOfFebruary : Moment where
  year := 2099
  month := 2
  day := 28
  hour := 23
  minute := 59
  second := 59
  month_pos := by decide
  month_le := by decide
  day_pos := by decide
  day_le := by decide
  hour_lt := by decide
  minute_lt := by decide
  second_lt := by decide

/-- One second from the end of February to March. -/
theorem interval2time_from_february :
    ∃ m' : Moment, (∀ u : Moment, u.seconds = endOfFebruary.seconds + 1 ↔ u = m') ∧
      (interval2time 1 ⟨2099, 2, 28, 23, 59, 59, 7⟩).Shows m' ∧
      (interval2time 1 ⟨2099, 2, 28, 23, 59, 59, 7⟩).week =
        (7 - 1 + (m'.dayNumber - endOfFebruary.dayNumber)) % 7 + 1 := by
  have hsecond : secondOfYear endOfFebruary = 59 * 86400 - 1 := by decide
  have hlast : secondOfYear lastMoment = 365 * 86400 - 1 := by decide
  have hend : endOfFebruary.seconds + 1 ≤ lastMoment.seconds := by
    rw [seconds_eq, seconds_eq, hsecond, hlast, Nat.add_assoc]
    exact Nat.add_le_add_left (by decide) _
  exact interval2time_shows (t := ⟨2099, 2, 28, 23, 59, 59, 7⟩) ⟨rfl, rfl, rfl, rfl, rfl, rfl⟩
    (by decide) (by decide) (by decide) 1 (by rw [hsecond]; decide) hend

end WiotaDev.AlarmDates
