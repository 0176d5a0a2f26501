import Mathlib.Algebra.Ring.Int.Defs
import Mathlib.Tactic.SplitIfs

/-! The proleptic Gregorian calendar on integer day numbers and the C library's
broken-down time in one fixed-offset zone. Day 0 is 1970-01-01. -/
namespace CivilTime

def isLeap (y : Int) : Bool := y % 4 = 0 && (y % 100 ≠ 0 || y % 400 = 0)

/-- Days from 0001-01-01 to the first day of year `y`. -/
def daysBeforeYear (y : Int) : Int :=
  365 * (y - 1) + (y - 1) / 4 - (y - 1) / 100 + (y - 1) / 400

/-- Days from 0001-01-01 to 1970-01-01. -/
def epochDay : Int := 719162

def monthLengths (leap : Bool) : List Int :=
  [31, if leap then 29 else 28, 31, 30, 31, 30, 31, 31, 30, 31, 30, 31]

/-- How many leading periods end by day `d`, and the day within the next one. -/
def splitDay : List Int → Int → Nat × Int
  | [], d => (0, d)
  | length :: rest, d =>
    if d < length then (0, d)
    else let (passed, day) := splitDay rest (d - length); (passed + 1, day)

/-- Days of the year before month `m`, months counted from 1. -/
def daysBeforeMonth (leap : Bool) (m : Int) : Int := ((monthLengths leap).take (m - 1).toNat).sum

/-- The year containing the day `z` after 0001-01-01. The mean-year guess is
off by at most one. -/
def yearOfDay (z : Int) : Int :=
  let guess := z * 400 / 146097 + 1
  if z < daysBeforeYear guess then guess - 1
  else if z < daysBeforeYear (guess + 1) then guess else guess + 1

/-- Day number of a date; out-of-range days run on into neighbouring months. -/
def daysFromCivil (y m d : Int) : Int :=
  daysBeforeYear y + daysBeforeMonth (isLeap y) m + (d - 1) - epochDay

structure Date where
  year : Int
  month : Int
  day : Int
deriving DecidableEq, Repr

def civilFromDays (n : Int) : Date :=
  let z := n + epochDay
  let y := yearOfDay z
  let (passed, day) := splitDay (monthLengths (isLeap y)) (z - daysBeforeYear y)
  ⟨y, passed + 1, day + 1⟩

theorem daysBeforeYear_succ (y : Int) :
    daysBeforeYear (y + 1) = daysBeforeYear y + if isLeap y then 366 else 365 := by
  simp only [daysBeforeYear, isLeap, Bool.and_eq_true, Bool.or_eq_true, decide_eq_true_eq]
  split <;> omega

theorem yearOfDay_bounds (z : Int) :
    daysBeforeYear (yearOfDay z) ≤ z ∧ z < daysBeforeYear (yearOfDay z + 1) := by
  have below : daysBeforeYear (z * 400 / 146097 + 1 - 1) ≤ z := by
    simp only [daysBeforeYear]
    omega
  have above : z < daysBeforeYear (z * 400 / 146097 + 1 + 1 + 1) := by
    simp only [daysBeforeYear]
    omega
  simp only [yearOfDay]
  split
  · exact ⟨below, by simpa using ‹_›⟩
  · split
    · exact ⟨by omega, ‹_›⟩
    · exact ⟨by omega, above⟩

theorem splitDay_sum (lengths : List Int) (d : Int) :
    (lengths.take (splitDay lengths d).1).sum + (splitDay lengths d).2 = d := by
  induction lengths generalizing d with
  | nil => simp [splitDay]
  | cons length rest ih =>
    simp only [splitDay]
    split
    · simp
    · have tail := ih (d - length)
      simp only [List.take_succ_cons, List.sum_cons]
      omega

theorem splitDay_range {lengths : List Int} {d bound : Int} (low : 0 ≤ d) (high : d < lengths.sum)
    (short : ∀ length ∈ lengths, length ≤ bound) :
    (splitDay lengths d).1 < lengths.length ∧ 0 ≤ (splitDay lengths d).2 ∧
      (splitDay lengths d).2 < bound := by
  induction lengths generalizing d with
  | nil => simp at high; omega
  | cons length rest ih =>
    have first := short length (by simp)
    simp only [splitDay]
    split
    · exact ⟨by simp, low, by simp only; omega⟩
    · simp only [List.sum_cons] at high
      obtain ⟨index, positive, below⟩ := ih (d := d - length) (by omega) (by omega)
        fun n member => short n (by simp [member])
      exact ⟨by simpa using index, positive, below⟩

theorem monthLengths_sum (leap : Bool) :
    (monthLengths leap).sum = if leap then 366 else 365 := by
  cases leap <;> rfl

theorem monthLengths_short (leap : Bool) : ∀ length ∈ monthLengths leap, length ≤ 31 := by
  cases leap <;> decide

theorem civilFromDays_range (n : Int) :
    (1 ≤ (civilFromDays n).month ∧ (civilFromDays n).month ≤ 12) ∧
      (1 ≤ (civilFromDays n).day ∧ (civilFromDays n).day ≤ 31) := by
  obtain ⟨low, high⟩ := yearOfDay_bounds (n + epochDay)
  rw [daysBeforeYear_succ] at high
  obtain ⟨index, positive, below⟩ := splitDay_range
    (d := n + epochDay - daysBeforeYear (yearOfDay (n + epochDay)))
    (by omega) (by rw [monthLengths_sum]; omega) (monthLengths_short (isLeap (yearOfDay (n + epochDay))))
  have months : (monthLengths (isLeap (yearOfDay (n + epochDay)))).length = 12 := rfl
  simp only [civilFromDays]
  omega

/-- Every day number is the day number of its own date. -/
theorem daysFromCivil_civilFromDays (n : Int) :
    daysFromCivil (civilFromDays n).year (civilFromDays n).month (civilFromDays n).day = n := by
  have total := splitDay_sum (monthLengths (isLeap (yearOfDay (n + epochDay))))
    (n + epochDay - daysBeforeYear (yearOfDay (n + epochDay)))
  simp only [civilFromDays, daysFromCivil, daysBeforeMonth]
  simp only [Int.add_sub_cancel, Int.toNat_natCast]
  omega

theorem daysBeforeYear_mono {a b : Int} (order : a ≤ b) : daysBeforeYear a ≤ daysBeforeYear b := by
  simp only [daysBeforeYear]
  omega

/-- A day is in an earlier year exactly if it is before the year's first day. -/
theorem year_lt_iff (n y : Int) : (civilFromDays n).year < y ↔ n < daysFromCivil y 1 1 := by
  obtain ⟨low, high⟩ := yearOfDay_bounds (n + epochDay)
  have first : daysFromCivil y 1 1 = daysBeforeYear y - epochDay := by
    simp [daysFromCivil, daysBeforeMonth]
  rw [first]
  change yearOfDay (n + epochDay) < y ↔ _
  constructor
  · intro earlier
    have later := daysBeforeYear_mono (show yearOfDay (n + epochDay) + 1 ≤ y by omega)
    omega
  · intro before
    by_contra late
    have later := daysBeforeYear_mono (show y ≤ yearOfDay (n + epochDay) by omega)
    omega

/-- The C library's `struct tm`: years count from 1900 and months from 0. -/
structure Tm where
  year : Int
  mon : Int
  mday : Int
  hour : Int
  min : Int
  sec : Int
deriving DecidableEq, Repr

/-- A zone with one constant offset from UTC, less than a day in size. -/
structure Zone where
  utcOffset : Int
  lower : -86400 < utcOffset
  upper : utcOffset < 86400

namespace Zone

def utc : Zone := ⟨0, by decide, by decide⟩

def localtime (zone : Zone) (t : Int) : Tm :=
  let s := t + zone.utcOffset
  let date := civilFromDays (s / 86400)
  let rest := s % 86400
  ⟨date.year - 1900, date.month - 1, date.day, rest / 3600, rest % 3600 / 60, rest % 60⟩

/-- Normalizes an out-of-range month into the year and lets days, hours,
minutes and seconds run on. -/
def mktime (zone : Zone) (tm : Tm) : Int :=
  let y := tm.year + 1900 + tm.mon / 12
  let m := tm.mon % 12 + 1
  daysFromCivil y m tm.mday * 86400 + tm.hour * 3600 + tm.min * 60 + tm.sec - zone.utcOffset

/-- The number of whole local days up to `t`. -/
def dayOf (zone : Zone) (t : Int) : Int := (t + zone.utcOffset) / 86400

/-- Midnight at the start of the local day of `t`. -/
def midnight (zone : Zone) (t : Int) : Int := zone.dayOf t * 86400 - zone.utcOffset

def IsMidnight (zone : Zone) (t : Int) : Prop := zone.midnight t = t

instance (zone : Zone) (t : Int) : Decidable (zone.IsMidnight t) :=
  inferInstanceAs (Decidable (_ = _))

variable (zone : Zone)

theorem midnight_le (t : Int) : zone.midnight t ≤ t := by
  simp only [midnight, dayOf]
  omega

theorem lt_midnight_add (t : Int) : t < zone.midnight t + 86400 := by
  simp only [midnight, dayOf]
  omega

theorem isMidnight_iff (t : Int) : zone.IsMidnight t ↔ (t + zone.utcOffset) % 86400 = 0 := by
  simp only [IsMidnight, midnight, dayOf]
  omega

theorem isMidnight_day (day : Int) : zone.IsMidnight (day * 86400 - zone.utcOffset) := by
  rw [isMidnight_iff]
  omega

theorem isMidnight_midnight (t : Int) : zone.IsMidnight (zone.midnight t) :=
  zone.isMidnight_day _

theorem dayOf_day (day : Int) : zone.dayOf (day * 86400 - zone.utcOffset) = day := by
  simp only [dayOf]
  omega

theorem localtime_date (t : Int) : (zone.localtime t).year + 1900 = (civilFromDays (zone.dayOf t)).year ∧
    (zone.localtime t).mon + 1 = (civilFromDays (zone.dayOf t)).month ∧
    (zone.localtime t).mday = (civilFromDays (zone.dayOf t)).day := by
  simp [localtime, dayOf]

/-- Midnight of an ordinary calendar date, with the day free to run on. -/
theorem mktime_midnight {y m d : Int} (low : 1 ≤ m) (high : m ≤ 12) :
    zone.mktime ⟨y - 1900, m - 1, d, 0, 0, 0⟩ =
      daysFromCivil y m d * 86400 - zone.utcOffset := by
  have year : y - 1900 + 1900 + (m - 1) / 12 = y := by omega
  have month : (m - 1) % 12 + 1 = m := by omega
  simp only [mktime, year, month]
  omega

/-- Broken-down fields of `t`, moved by whole days and reset to midnight. -/
theorem mktime_localtime_day (t delta : Int) :
    zone.mktime ⟨(zone.localtime t).year, (zone.localtime t).mon,
      (zone.localtime t).mday + delta, 0, 0, 0⟩ = zone.midnight t + delta * 86400 := by
  obtain ⟨year, month, day⟩ := zone.localtime_date t
  have range := (civilFromDays_range (zone.dayOf t)).1
  have moved : daysFromCivil (civilFromDays (zone.dayOf t)).year
      (civilFromDays (zone.dayOf t)).month ((civilFromDays (zone.dayOf t)).day + delta) =
        zone.dayOf t + delta := by
    have same := daysFromCivil_civilFromDays (zone.dayOf t)
    simp only [daysFromCivil] at same ⊢
    omega
  have fields := zone.mktime_midnight (y := (civilFromDays (zone.dayOf t)).year)
    (d := (civilFromDays (zone.dayOf t)).day + delta) range.1 range.2
  rw [moved, ← year, ← month, ← day] at fields
  simp only [Int.add_sub_cancel] at fields
  rw [fields, midnight]
  omega

end Zone
end CivilTime
