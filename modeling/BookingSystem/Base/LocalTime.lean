import Mathlib.Data.Int.ModEq
import Mathlib.Tactic.LinearCombination
import BookingSystem.Base.Fields

/-!
# Local time

A zone says how far its clocks are ahead of UTC at every instant, and which instant a local time stands for: the first
one at which the clocks show it, and for a time that the clocks skip, the one by the offset before the gap. Instants
and local times are milliseconds. The accessors and setters are those of a date in local time: a setter takes the local
time apart, puts it together again with the new parts, and asks for the instant of the result.

A store has two types for a point in time, both in microseconds: an instant, and a reading of some clock that does not
say where the clock hangs. `AT TIME ZONE` makes of an instant what the clocks of the zone show, and of a reading the
instant at which they show it: the later one if there are two, and the one by the offset before the gap if there is
none. So the same two steps in a row mean one thing for one type and another for the other (`reading_through_timestamp`,
`reading_through_timestamptz`).
-/

namespace BookingSystem.Base

def dayMs : ℤ := 86400000

/-- A time zone, with the instants its local times stand for. -/
structure TimeZone where
  offset : ℤ → ℤ
  utc : ℤ → ℤ
  utc_shown : ∀ t l, t + offset t = l → utc l + offset (utc l) = l ∧ utc l ≤ t
  utc_skipped : ∀ t l, (∀ u, u + offset u ≠ l) → t + offset t < l →
    (∀ u, u + offset u < l → u + offset u ≤ t + offset t ∧ (u + offset u = t + offset t → u ≤ t)) →
    utc l = l - offset t

/-! ### Days -/

/-- The day of a local time, counted from 1970-01-01. -/
def dayOf (l : ℤ) : ℤ := l / dayMs

def timeInDay (l : ℤ) : ℤ := l % dayMs

/-- The weekday of a local time, `0` for Sunday. -/
def weekdayOf (l : ℤ) : ℤ := (dayOf l + 4) % 7

theorem dayOf_add_timeInDay (l : ℤ) : dayOf l * dayMs + timeInDay l = l := by
  rw [mul_comm]
  exact Int.mul_ediv_add_emod l dayMs

theorem timeInDay_add_days (d x : ℤ) : timeInDay (d * dayMs + x) = timeInDay x := by
  unfold timeInDay
  rw [add_comm]
  exact Int.add_mul_emod_self_right ..

theorem dayOf_add_days (d x : ℤ) : dayOf (d * dayMs + x) = d + dayOf x := by
  unfold dayOf
  rw [add_comm, Int.add_mul_ediv_right _ _ (by decide), add_comm]

theorem timeInDay_timeInDay (l : ℤ) : timeInDay (timeInDay l) = timeInDay l := Int.emod_emod_of_dvd _ dvd_rfl

theorem timeInDay_eq_iff {l l' : ℤ} : timeInDay l = timeInDay l' ↔ l ≡ l' [ZMOD dayMs] := Iff.rfl

/-! ### The calendar -/

/-- The first day of a month of the Gregorian calendar; months are counted from January as `0`, and run on over the
end of the year. -/
def firstOfMonth (year month : ℤ) : ℤ :=
  let m := month % 12
  let y := year + month / 12 - (if m < 2 then 1 else 0)
  let yoe := y % 400
  y / 400 * 146097 + (yoe * 365 + yoe / 4 - yoe / 100 + (153 * ((m + 10) % 12) + 2) / 5) - 719468

/-- The year and the month of a day. -/
def yearMonth (day : ℤ) : ℤ × ℤ :=
  let z := day + 719468
  let doe := z % 146097
  let yoe := (doe - doe / 1460 + doe / 36524 - doe / 146096) / 365
  let doy := doe - (365 * yoe + yoe / 4 - yoe / 100)
  let m := ((5 * doy + 2) / 153 + 2) % 12
  (yoe + z / 146097 * 400 + (if m < 2 then 1 else 0), m)

/-- The day of the month, from `1`. -/
def dayOfMonth (day : ℤ) : ℤ := day - firstOfMonth (yearMonth day).1 (yearMonth day).2 + 1

example : yearMonth 19782 = (2024, 1) ∧ dayOfMonth 19782 = 29 ∧ firstOfMonth 2023 14 = 19783 := by decide

namespace TimeZone

variable (z : TimeZone) (t : ℤ)

def shown : ℤ := t + z.offset t

def getDay : ℤ := weekdayOf (z.shown t)
def getHours : ℤ := timeInDay (z.shown t) / 3600000
def getMinutes : ℤ := timeInDay (z.shown t) / 60000 % 60
def getDate : ℤ := dayOfMonth (dayOf (z.shown t))
def getMonth : ℤ := (yearMonth (dayOf (z.shown t))).2
def getFullYear : ℤ := (yearMonth (dayOf (z.shown t))).1

/-! ### The setters -/

/-- The local time that `setDate` asks for: the given day of the month, at the same time of day. -/
def withDate (date : ℤ) : ℤ :=
  (firstOfMonth (z.getFullYear t) (z.getMonth t) + date - 1) * dayMs + timeInDay (z.shown t)

/-- The local time that `setMonth` asks for. -/
def withMonth (month date : ℤ) : ℤ :=
  (firstOfMonth (z.getFullYear t) month + date - 1) * dayMs + timeInDay (z.shown t)

/-- The local time that `setHours` asks for, with no seconds. -/
def withHours (hours minutes : ℤ) : ℤ := dayOf (z.shown t) * dayMs + (hours * 3600000 + minutes * 60000)

def setDate (date : ℤ) : ℤ := z.utc (z.withDate t date)
def setMonth (month date : ℤ) : ℤ := z.utc (z.withMonth t month date)
def setHours (hours minutes : ℤ) : ℤ := z.utc (z.withHours t hours minutes)

/-- Midnight of a date given by its parts; a year below `100` is one of the twentieth century. -/
def newDate (year month date : ℤ) : ℤ :=
  z.utc ((firstOfMonth (if 0 ≤ year ∧ year ≤ 99 then 1900 + year else year) month + date - 1) * dayMs)

/-- Moving the day of the month moves the local time by days. -/
theorem withDate_getDate (n : ℤ) : z.withDate t (z.getDate t + n) = z.shown t + n * dayMs := by
  have hday := dayOf_add_timeInDay (z.shown t)
  unfold withDate getDate dayOfMonth getFullYear getMonth
  linear_combination hday

theorem timeInDay_withDate (date : ℤ) : timeInDay (z.withDate t date) = timeInDay (z.shown t) := by
  rw [withDate, timeInDay_add_days, timeInDay_timeInDay]

theorem timeInDay_withMonth (month date : ℤ) : timeInDay (z.withMonth t month date) = timeInDay (z.shown t) := by
  rw [withMonth, timeInDay_add_days, timeInDay_timeInDay]

theorem timeInDay_withHours (hours minutes : ℤ) :
    timeInDay (z.withHours t hours minutes) = timeInDay (hours * 3600000 + minutes * 60000) := by
  rw [withHours, timeInDay_add_days]

/-- The clocks show a local time at the instant it stands for, unless they skip it. -/
theorem shown_utc {l : ℤ} (h : ∃ t, z.shown t = l) : z.shown (z.utc l) = l := by
  obtain ⟨t, ht⟩ := h
  exact (z.utc_shown t l ht).1

/-- A zone whose clocks are always the same time ahead of UTC. -/
def fixed (o : ℤ) : TimeZone where
  offset _ := o
  utc l := l - o
  utc_shown t l h := by omega
  utc_skipped t l h := absurd (sub_add_cancel l o) (h (l - o))

end TimeZone

/-! ### Timestamps of SQL -/

/-- A time zone: how far its clocks are ahead of UTC at an instant, and how far a reading of them is taken to be. -/
structure SqlZone where
  offset : ℤ → ℤ
  offsetOf : ℤ → ℤ
  offsetOf_shown : ∀ t l, t + offset t = l → (∀ u, u + offset u = l → u ≤ t) → offsetOf l = offset t
  offsetOf_skipped : ∀ t l, (∀ u, u + offset u ≠ l) → t + offset t < l →
    (∀ u, u + offset u < l → u + offset u ≤ t + offset t ∧ (u + offset u = t + offset t → u ≤ t)) →
    offsetOf l = offset t

/-- `timestamptz` is an instant, `timestamp` a reading. -/
inductive SqlTime where
  | timestamptz (t : ℤ)
  | timestamp (l : ℤ)
  deriving DecidableEq

namespace SqlZone

variable (z : SqlZone) (t : ℤ)

def shown : ℤ := t + z.offset t

def instantOf (l : ℤ) : ℤ := l - z.offsetOf l

/-- A zone whose clocks are always the same time ahead of UTC. -/
def fixed (o : ℤ) : SqlZone where
  offset _ := o
  offsetOf _ := o
  offsetOf_shown _ _ _ _ := rfl
  offsetOf_skipped _ _ _ _ _ := rfl

def utc : SqlZone := fixed 0

@[simp] theorem offset_fixed (o : ℤ) : (fixed o).offset t = o := rfl
@[simp] theorem offsetOf_fixed (o : ℤ) : (fixed o).offsetOf t = o := rfl
@[simp] theorem shown_utc : utc.shown t = t := add_zero t
@[simp] theorem instantOf_utc : utc.instantOf t = t := sub_zero t

end SqlZone

namespace SqlTime

/-- `AT TIME ZONE`. -/
def atTimeZone (z : SqlZone) : SqlTime → SqlTime
  | .timestamptz t => .timestamp (z.shown t)
  | .timestamp l => .timestamptz (z.instantOf l)

/-- What the store shows of a value in a session with the given zone. -/
def reading (session : SqlZone) : SqlTime → ℤ
  | .timestamptz t => session.shown t
  | .timestamp l => l

theorem reading_through_timestamp (session z : SqlZone) (l : ℤ) :
    (((timestamp l).atTimeZone .utc).atTimeZone z).reading session = z.shown l := by
  simp [atTimeZone, reading]

theorem reading_through_timestamptz (z : SqlZone) (t : ℤ) :
    (((timestamptz t).atTimeZone .utc).atTimeZone z).reading .utc = z.instantOf t := by
  simp [atTimeZone, reading]

/-! ### Dates and times of day -/

def minuteUs : ℤ := 60000000
def dayUs : ℤ := 86400000000

def dateOf (l : ℤ) : ℤ := l / dayUs

def minuteOf (l : ℤ) : ℤ := l % dayUs / minuteUs

/-- `::date`. -/
def toDate (session : SqlZone) (v : SqlTime) : ℤ := dateOf (v.reading session)

/-- `YYYY-MM-DD`; a year before the first is written as its number before it. -/
def dateText (day : ℤ) : List Char :=
  let y := (yearMonth day).1
  decimalsFrom 4 (if y ≤ 0 then 1 - y else y).toNat ++ '-' :: decimals 2 ((yearMonth day).2 + 1).toNat ++
    '-' :: decimals 2 (dayOfMonth day).toNat

/-- `HH24:MI`. -/
def timeText (minute : ℤ) : List Char :=
  decimals 2 (minute / 60).toNat ++ ':' :: decimals 2 (minute % 60).toNat

example : dateText 20454 = "2026-01-01".toList ∧ timeText 541 = "09:01".toList := by decide

theorem same_minute_iff {l l' : ℤ} :
    l / minuteUs = l' / minuteUs ↔ dateOf l = dateOf l' ∧ minuteOf l = minuteOf l' := by
  unfold dateOf minuteOf dayUs minuteUs
  omega

end SqlTime

end BookingSystem.Base
