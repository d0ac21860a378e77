/-
The proleptic Gregorian calendar and the wall clock.

Days are counted from 1 January of year 1, and a date is the day with that number
(`Date.toDays_ofDays`, `Date.ofDays_toDays`). Years repeat after 146097 days, so the year is
found by a division that is off by one at most (`yearStart_yearOf`); a month starts at a floor of
a linear function, and is found by another (`monthOf_spec`).

A date with a clock reading is a number of nanoseconds since the beginning of 1970, as that
clock shows it (`DateTime.toNanos_ofNanos`, `DateTime.ofNanos_toNanos`).

Leap years make the lengths of years and months irregular, so both numbers are found by an
estimate and a correction. The year that `400 * n / 146097` gives for day `n` is right or
one short, never further off, which is a matter of linear arithmetic with divisions by
constants. For months the floor of a linear function with slope 367/12 gives the days before
the first of a month, as if February had thirty days; from March on one or two days are
taken off again.

A wall clock has a date and the nanoseconds since midnight. It is the same point of the line
of numbers in every zone; the offset is added or subtracted before the date is taken apart,
in the module about the texts of times.
-/
import Mathlib.Algebra.Order.Ring.Int
import Mathlib.Data.Int.Notation
import Mathlib.Tactic.IntervalCases

set_option autoImplicit false

namespace Calendar

/-! ## Years and months -/

/-- The leap years: every fourth, without the full centuries that are no multiples of 400. -/
def IsLeap (year : ℤ) : Prop := year % 4 = 0 ∧ (year % 100 ≠ 0 ∨ year % 400 = 0)

instance (year : ℤ) : Decidable (IsLeap year) := inferInstanceAs (Decidable (_ ∧ _))

/-- The length of a month. The months are counted from 1, and a number that is no month is
given 31 days. -/
def daysIn (month year : ℤ) : ℤ :=
  if month = 2 then if IsLeap year then 29 else 28
  else if month = 4 ∨ month = 6 ∨ month = 9 ∨ month = 11 then 30
  else 31

/-- The number of days before 1 January of a year, where year 1 starts at 0: 365 for every
year in between, and one for every leap year among them. For years before the first it is
negative. -/
def yearStart (year : ℤ) : ℤ :=
  365 * (year - 1) + (year - 1) / 4 - (year - 1) / 100 + (year - 1) / 400

/-- The number of days from 1 January to the first of a month. The quotient is right for a
February of 30 days, and is corrected for what that month lacks. -/
def monthStart (month year : ℤ) : ℤ :=
  (367 * month - 362) / 12 + if month ≤ 2 then 0 else if IsLeap year then -1 else -2

/-- The year of a day. By the mean length of a year the estimate is the right year or the
one before it, which the start of the next year tells apart. -/
def yearOf (n : ℤ) : ℤ :=
  let y := 400 * n / 146097 + 1
  if yearStart (y + 1) ≤ n then y + 1 else y

/-- The month of the day `doy` of a year, counted from 0, by the inverse of the quotient in
`monthStart`, after the same correction for February. -/
def monthOf (doy year : ℤ) : ℤ :=
  let correction := if doy < monthStart 3 year then 0 else if IsLeap year then 1 else 2
  (12 * (doy + correction) + 373) / 367

/-- A year is as long as it should be: 365 days, or 366 in a leap year. This ties the closed
formula of `yearStart` to the rule for leap years. -/
theorem yearStart_succ (year : ℤ) :
    yearStart (year + 1) = yearStart year + if IsLeap year then 366 else 365 := by
  by_cases hleap : IsLeap year
  · rw [if_pos hleap]
    unfold yearStart IsLeap at *
    omega
  · rw [if_neg hleap]
    unfold yearStart IsLeap at *
    omega

/-- A month is as long as `daysIn` says, in both kinds of year. -/
theorem monthStart_succ {month : ℤ} (year : ℤ) (h : 1 ≤ month ∧ month ≤ 12) :
    monthStart (month + 1) year = monthStart month year + daysIn month year := by
  obtain ⟨hlow, hhigh⟩ := h
  unfold monthStart daysIn
  by_cases hleap : IsLeap year
  · simp only [hleap, if_true]
    interval_cases month <;> decide
  · simp only [hleap, if_false]
    interval_cases month <;> decide

/-- The year starts with January and ends with December. -/
theorem monthStart_one (year : ℤ) : monthStart 1 year = 0 := rfl

theorem monthStart_thirteen (year : ℤ) :
    monthStart 13 year = if IsLeap year then 366 else 365 := by
  unfold monthStart
  by_cases hleap : IsLeap year
  · simp [hleap]
  · simp [hleap]

theorem yearStart_mono {y z : ℤ} (h : y ≤ z) : yearStart y ≤ yearStart z := by
  unfold yearStart
  omega

theorem monthStart_mono {m n : ℤ} (year : ℤ) (hm : 1 ≤ m) (h : m ≤ n) :
    monthStart m year ≤ monthStart n year := by
  unfold monthStart
  split_ifs <;> omega

/-- A day lies in its year: not before it starts, and before the next one does. -/
theorem yearStart_yearOf (n : ℤ) : yearStart (yearOf n) ≤ n ∧ n < yearStart (yearOf n + 1) := by
  unfold yearOf
  dsimp only
  by_cases hnext : yearStart (400 * n / 146097 + 1 + 1) ≤ n
  · rw [if_pos hnext]
    refine ⟨hnext, ?_⟩
    unfold yearStart at *
    omega
  · rw [if_neg hnext]
    refine ⟨?_, by omega⟩
    unfold yearStart at *
    omega

theorem yearOf_eq {n y : ℤ} (h : yearStart y ≤ n) (h' : n < yearStart (y + 1)) :
    yearOf n = y := by
  obtain ⟨hlow, hhigh⟩ := yearStart_yearOf n
  rcases lt_trichotomy (yearOf n) y with hlt | heq | hgt
  · have hmono : yearStart (yearOf n + 1) ≤ yearStart y := yearStart_mono (by omega)
    omega
  · exact heq
  · have hmono : yearStart (y + 1) ≤ yearStart (yearOf n) := yearStart_mono (by omega)
    omega

/-- A day of a year lies in its month, and that is one of the twelve. -/
theorem monthOf_spec {doy year : ℤ} (h : 0 ≤ doy) (h' : doy < if IsLeap year then 366 else 365) :
    (1 ≤ monthOf doy year ∧ monthOf doy year ≤ 12) ∧
      monthStart (monthOf doy year) year ≤ doy ∧
      doy < monthStart (monthOf doy year + 1) year := by
  unfold monthOf monthStart
  dsimp only
  by_cases hleap : IsLeap year
  · simp only [hleap, if_true] at h' ⊢
    split_ifs <;> omega
  · simp only [hleap, if_false] at h' ⊢
    split_ifs <;> omega

theorem monthOf_eq {doy year m : ℤ} (hm : 1 ≤ m ∧ m ≤ 12) (h : monthStart m year ≤ doy)
    (h' : doy < monthStart (m + 1) year) : monthOf doy year = m := by
  have hstart := monthStart_mono year le_rfl hm.1
  have hend := monthStart_mono (n := 13) year (by omega : 1 ≤ m + 1) (by omega)
  rw [monthStart_one] at hstart
  rw [monthStart_thirteen] at hend
  obtain ⟨hmem, hlow, hhigh⟩ := monthOf_spec (hstart.trans h) (h'.trans_le hend)
  rcases lt_trichotomy (monthOf doy year) m with hlt | heq | hgt
  · have hmono := monthStart_mono (n := m) year (by omega : 1 ≤ monthOf doy year + 1) (by omega)
    omega
  · exact heq
  · have hmono := monthStart_mono (n := monthOf doy year) year (by omega : 1 ≤ m + 1) (by omega)
    omega

/-! ## Dates -/

/-- A date that exists: the month is one of the twelve, and the day is one that the month
has in that year. So 30 February cannot be built. -/
structure Date where
  year : ℤ
  month : ℤ
  day : ℤ
  month_mem : 1 ≤ month ∧ month ≤ 12
  day_mem : 1 ≤ day ∧ day ≤ daysIn month year
  deriving DecidableEq

namespace Date

/-- The number of a date, where 1 January of year 1 is 0. -/
def toDays (d : Date) : ℤ := yearStart d.year + monthStart d.month d.year + (d.day - 1)

/-- A date lies within its month, and so within its year; from this `yearOf` and `monthOf`
find them again. -/
theorem toDays_mem (d : Date) :
    yearStart d.year + monthStart d.month d.year ≤ d.toDays ∧
      d.toDays < yearStart d.year + monthStart (d.month + 1) d.year := by
  have hday := d.day_mem
  rw [monthStart_succ d.year d.month_mem]
  unfold toDays
  omega

/-- The date with a number. -/
def ofDays (n : ℤ) : Date where
  year := yearOf n
  month := monthOf (n - yearStart (yearOf n)) (yearOf n)
  day := n - yearStart (yearOf n) -
    monthStart (monthOf (n - yearStart (yearOf n)) (yearOf n)) (yearOf n) + 1
  month_mem := by
    obtain ⟨hlow, hhigh⟩ := yearStart_yearOf n
    rw [yearStart_succ] at hhigh
    exact (monthOf_spec (by omega) (by omega)).1
  day_mem := by
    obtain ⟨hlow, hhigh⟩ := yearStart_yearOf n
    rw [yearStart_succ] at hhigh
    have hdoy : n - yearStart (yearOf n) < if IsLeap (yearOf n) then 366 else 365 := by omega
    obtain ⟨hmem, hfrom, hto⟩ := monthOf_spec (by omega) hdoy
    rw [monthStart_succ _ hmem] at hto
    omega

/-- Every number is that of its date. -/
theorem toDays_ofDays (n : ℤ) : (ofDays n).toDays = n := by
  unfold toDays ofDays
  dsimp only
  omega

/-- Every date is the one with its number. With `toDays_ofDays`, dates and days correspond,
over all of the past and the future. -/
theorem ofDays_toDays (d : Date) : ofDays d.toDays = d := by
  obtain ⟨hfrom, hto⟩ := d.toDays_mem
  have hstart := monthStart_mono d.year le_rfl d.month_mem.1
  have hmonth := d.month_mem
  have hend := monthStart_mono (n := 13) d.year (by omega : 1 ≤ d.month + 1) (by omega)
  rw [monthStart_one] at hstart
  rw [monthStart_thirteen] at hend
  -- the day is between the start of its year and of the next, and so in its month
  have hyear : yearOf d.toDays = d.year := by
    apply yearOf_eq
    · omega
    · rw [yearStart_succ]
      omega
  have hof : monthOf (d.toDays - yearStart d.year) d.year = d.month := by
    apply monthOf_eq d.month_mem
    · omega
    · omega
  have hday : (ofDays d.toDays).day = d.day := by
    unfold ofDays
    dsimp only
    rw [hyear, hof]
    unfold toDays
    omega
  cases d with
  | mk year month day month_mem day_mem =>
      unfold ofDays at hday ⊢
      simp only [Date.mk.injEq]
      dsimp only at hyear hof hday
      exact ⟨hyear, by rw [hyear, hof], hday⟩

/-- The days before 1970. -/
def unixEpoch : ℤ := yearStart 1970

example : ofDays (unixEpoch + 19782) = ⟨2024, 2, 29, by decide, by decide⟩ := by decide

end Date

/-! ## The clock -/

/-- A time of day that exists, to the nanosecond, without leap seconds. -/
structure Clock where
  hour : ℕ
  minute : ℕ
  second : ℕ
  nanosecond : ℕ
  hour_lt : hour < 24
  minute_lt : minute < 60
  second_lt : second < 60
  nanosecond_lt : nanosecond < 1000000000
  deriving DecidableEq

namespace Clock

/-- The nanoseconds since midnight. -/
def toNanos (c : Clock) : ℕ :=
  ((c.hour * 60 + c.minute) * 60 + c.second) * 1000000000 + c.nanosecond

theorem toNanos_lt (c : Clock) : c.toNanos < 86400000000000 := by
  have hhour := c.hour_lt
  have hminute := c.minute_lt
  have hsecond := c.second_lt
  have hnano := c.nanosecond_lt
  unfold toNanos
  omega

/-- The clock that many nanoseconds after midnight. -/
def ofNanos (n : ℕ) (h : n < 86400000000000) : Clock where
  hour := n / 3600000000000
  minute := n / 60000000000 % 60
  second := n / 1000000000 % 60
  nanosecond := n % 1000000000
  hour_lt := by omega
  minute_lt := by omega
  second_lt := by omega
  nanosecond_lt := by omega

theorem toNanos_ofNanos {n : ℕ} (h : n < 86400000000000) : (ofNanos n h).toNanos = n := by
  unfold toNanos ofNanos
  dsimp only
  omega

theorem ofNanos_toNanos (c : Clock) : ofNanos c.toNanos c.toNanos_lt = c := by
  obtain ⟨hour, minute, second, nanosecond, hhour, hminute, hsecond, hnano⟩ := c
  unfold ofNanos toNanos
  simp only [Clock.mk.injEq]
  omega

end Clock

/-- A date and the time of day, in no zone in particular. -/
structure DateTime where
  date : Date
  clock : Clock
  deriving DecidableEq

namespace DateTime

/-- The nanoseconds since the beginning of 1970. -/
def toNanos (t : DateTime) : ℤ :=
  (t.date.toDays - Date.unixEpoch) * 86400000000000 + t.clock.toNanos

/-- The date and time that many nanoseconds after the beginning of 1970. -/
def ofNanos (n : ℤ) : DateTime where
  date := .ofDays (n / 86400000000000 + Date.unixEpoch)
  clock := .ofNanos (n % 86400000000000).toNat (by omega)

theorem toNanos_ofNanos (n : ℤ) : (ofNanos n).toNanos = n := by
  unfold toNanos ofNanos
  rw [Date.toDays_ofDays, Clock.toNanos_ofNanos]
  omega

theorem ofNanos_toNanos (t : DateTime) : ofNanos t.toNanos = t := by
  have hclock := t.clock.toNanos_lt
  have hdays : t.toNanos / 86400000000000 + Date.unixEpoch = t.date.toDays := by
    unfold toNanos
    omega
  have hnanos : (t.toNanos % 86400000000000).toNat = t.clock.toNanos := by
    unfold toNanos
    omega
  unfold ofNanos
  simp only [hdays, hnanos, Date.ofDays_toDays, Clock.ofNanos_toNanos]

end DateTime

end Calendar
