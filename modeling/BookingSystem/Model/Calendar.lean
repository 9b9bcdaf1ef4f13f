import BookingSystem.Model.Entities
import BookingSystem.Base.Outcome

/-!
# Wall clocks, opening hours and the tenant's booking rules

The time-zone helpers (`common/tz.ts`), the weekly opening hours (`common/operating-hours.ts`) and the tenant
policy (`BookingValidatorService`), and the two checks of `BookingsService` that read them,
`mapAllDayToOperatingHours` and `assertWithinOperatingHours`. A wall clock is read to the minute, as the source
reads it, and a `Date` that may be an Invalid Date is an `Option`.
-/

namespace BookingSystem.Model

open Base

def msPerMinute : ℤ := 60000
def msPerDay : ℤ := 86400000

/-! ### Time zones -/

/-- What the clocks of a zone show: weekday (`0` = Sunday), minutes since midnight and the calendar day. -/
structure WallClock where
  weekday : ℕ
  minutes : ℕ
  dateStr : Day
  deriving DecidableEq, Repr

def utcToZonedWallClock (tz : Zone) (instant : Instant) : WallClock :=
  let shown := instant + tz instant
  { weekday := ((shown / msPerDay + 4) % 7).toNat
    minutes := (shown % msPerDay / msPerMinute).toNat
    dateStr := shown / msPerDay }

def zonedTimeToUtc (tz : Zone) (date : Day) (minutes : ℕ) : Instant :=
  let asUtc := date * msPerDay + minutes * msPerMinute
  asUtc - tz asUtc

def Env.timezone (env : Env) (tenantId : Uuid) : Zone :=
  let name := (env.customization tenantId).timezone.getD ""
  match env.zones (if name = "" then "Asia/Hong_Kong" else name) with
  | some tz => tz
  | none => fun _ => 0

def digit? (c : Char) : Option ℕ :=
  if c.isDigit then some (c.toNat - '0'.toNat) else none

/-- `HH:mm` or `H:mm`, blanks around it allowed, as minutes since midnight. -/
def hhmmToMinutes (v : String) : Option ℕ := do
  let (h, m) ← match (trim v).toList with
    | [a, ':', c, d] => do some (← digit? a, 10 * (← digit? c) + (← digit? d))
    | [a, b, ':', c, d] => do some (10 * (← digit? a) + (← digit? b), 10 * (← digit? c) + (← digit? d))
    | _ => none
  if h > 23 || m > 59 then none else some (h * 60 + m)

/-- A time as an ISO date-time spells it: two digits each, `24:00` allowed; anything else is an Invalid Date. -/
def isoTime (v : String) : Option ℕ :=
  match v.toList with
  | [a, b, ':', c, d] => do
    let h := 10 * (← digit? a) + (← digit? b)
    let m := 10 * (← digit? c) + (← digit? d)
    if (h ≤ 23 && m ≤ 59) || (h == 24 && m == 0) then some (h * 60 + m) else none
  | _ => none

/-- The calendar date of a day number, `YYYY-MM-DD`. -/
def formatDate (day : Day) : String :=
  let z := day + 719468
  let era := z / 146097
  let doe := z % 146097
  let yoe := (doe - doe / 1460 + doe / 36524 - doe / 146096) / 365
  let doy := doe - (365 * yoe + yoe / 4 - yoe / 100)
  let mp := (5 * doy + 2) / 153
  let d := doy - (153 * mp + 2) / 5 + 1
  let m := if mp < 10 then mp + 3 else mp - 9
  let y := yoe + era * 400 + (if m ≤ 2 then 1 else 0)
  let pad := fun (n : ℤ) => if n < 10 then "0" ++ toString n else toString n
  toString y ++ "-" ++ pad m ++ "-" ++ pad d

/-! ### Opening hours -/

def weekdayName (weekday : ℕ) : String :=
  ["Sunday", "Monday", "Tuesday", "Wednesday", "Thursday", "Friday", "Saturday"].getD weekday (toString weekday)

/-- The window that applies on a weekday, `none` when the resource is closed that day. -/
def windowForWeekday (oh : OperatingHours) (weekday : ℕ) : Option DayWindow :=
  match oh.days with
  | some days => days weekday
  | none =>
    match oh.openAt, oh.closeAt with
    | some o, some c => if o != "" && c != "" then some ⟨o, c⟩ else none
    | _, _ => none

/-- A window and whether the request was for the whole day. -/
structure MappedWindow where
  start : Option Instant
  finish : Option Instant
  wasAllDay : Bool

/-- An all-day request is mapped onto the opening hours of its day. -/
def mapAllDayToOperatingHours (env : Env) (tenantId : Uuid) (resource : Resource) (start finish : Instant) :
    MappedWindow :=
  let tz := env.timezone tenantId
  let s := utcToZonedWallClock tz start
  let e := utcToZonedWallClock tz finish
  let startsAtMidnight := s.minutes == 0
  let endsAtDayEnd := (e.dateStr != s.dateStr && e.minutes == 0) ||
    (e.dateStr == s.dateStr && 23 * 60 + 59 ≤ e.minutes)
  let wasAllDay := startsAtMidnight && endsAtDayEnd
  match resource.operatingHours with
  | none => ⟨some start, some finish, wasAllDay⟩
  | some oh =>
    if !wasAllDay then ⟨some start, some finish, wasAllDay⟩
    else
      match windowForWeekday oh s.weekday with
      | none => ⟨some start, some finish, wasAllDay⟩
      | some win =>
        ⟨(isoTime win.openAt).map (zonedTimeToUtc tz s.dateStr),
          (isoTime win.closeAt).map (zonedTimeToUtc tz s.dateStr), wasAllDay⟩

/-- The test of `mapAllDayToOperatingHours` for a whole day. -/
def WholeDay (s e : WallClock) : Prop :=
  s.minutes = 0 ∧ (e.dateStr ≠ s.dateStr ∧ e.minutes = 0 ∨ e.dateStr = s.dateStr ∧ 23 * 60 + 59 ≤ e.minutes)

instance (s e : WallClock) : Decidable (WholeDay s e) := inferInstanceAs (Decidable (_ ∧ _))

theorem decide_wholeDay (s e : WallClock) : decide (WholeDay s e) = (s.minutes == 0 &&
    ((e.dateStr != s.dateStr && e.minutes == 0) || (e.dateStr == s.dateStr && 23 * 60 + 59 ≤ e.minutes))) := by
  rw [Bool.eq_iff_iff, decide_eq_true_iff]
  simp [WholeDay]

section MapAllDay

variable {env : Env} {tenantId : Uuid} {resource : Resource} {start finish : Instant}

theorem wasAllDay_iff : (mapAllDayToOperatingHours env tenantId resource start finish).wasAllDay = true ↔
    WholeDay (utcToZonedWallClock (env.timezone tenantId) start)
      (utcToZonedWallClock (env.timezone tenantId) finish) := by
  simp only [mapAllDayToOperatingHours, ← decide_wholeDay]
  split
  · exact decide_eq_true_iff
  · split
    · exact decide_eq_true_iff
    · split <;> exact decide_eq_true_iff

theorem mapAllDay_of_not_wholeDay (h : ¬ WholeDay (utcToZonedWallClock (env.timezone tenantId) start)
    (utcToZonedWallClock (env.timezone tenantId) finish)) :
    mapAllDayToOperatingHours env tenantId resource start finish = ⟨some start, some finish, false⟩ := by
  simp only [mapAllDayToOperatingHours, ← decide_wholeDay, h, decide_false, Bool.not_false, if_true]
  split <;> rfl

/-- A whole day on which the room has no window is left as it is. -/
theorem mapAllDay_of_closed (h : ∀ oh, resource.operatingHours = some oh →
      windowForWeekday oh (utcToZonedWallClock (env.timezone tenantId) start).weekday = none) :
    (mapAllDayToOperatingHours env tenantId resource start finish).start = some start ∧
      (mapAllDayToOperatingHours env tenantId resource start finish).finish = some finish := by
  unfold mapAllDayToOperatingHours
  cases hoh : resource.operatingHours with
  | none => exact ⟨rfl, rfl⟩
  | some oh =>
    simp only [h oh hoh, ite_self, and_self]

theorem mapAllDay_of_open {oh : OperatingHours} {win : DayWindow} (hoh : resource.operatingHours = some oh)
    (hwin : windowForWeekday oh (utcToZonedWallClock (env.timezone tenantId) start).weekday = some win)
    (h : WholeDay (utcToZonedWallClock (env.timezone tenantId) start)
      (utcToZonedWallClock (env.timezone tenantId) finish)) :
    mapAllDayToOperatingHours env tenantId resource start finish =
      ⟨(isoTime win.openAt).map (zonedTimeToUtc (env.timezone tenantId)
          (utcToZonedWallClock (env.timezone tenantId) start).dateStr),
        (isoTime win.closeAt).map (zonedTimeToUtc (env.timezone tenantId)
          (utcToZonedWallClock (env.timezone tenantId) start).dateStr), true⟩ := by
  simp only [mapAllDayToOperatingHours, ← decide_wholeDay, h, hoh, hwin, decide_true, Bool.not_true,
    Bool.false_eq_true, if_false]

end MapAllDay

def assertWithinOperatingHours (env : Env) (tenantId : Uuid) (resource : Resource) (start finish : Instant) :
    Except HttpError Unit :=
  match resource.operatingHours with
  | none => .ok ()
  | some oh =>
    let tz := env.timezone tenantId
    let s := utcToZonedWallClock tz start
    let e := utcToZonedWallClock tz finish
    match windowForWeekday oh s.weekday with
    | none => .error (.conflict (resource.name ++ " is closed on " ++ weekdayName s.weekday))
    | some win =>
      match hhmmToMinutes win.openAt, hhmmToMinutes win.closeAt with
      | some openMin, some closeMin =>
        if closeMin ≤ openMin then .ok () -- misconfigured: the source does not block
        else if e.dateStr ≠ s.dateStr then
          .error (.conflict (resource.name ++ " closes daily — a booking can't run past " ++ win.closeAt ++
            " into the next day"))
        else if s.minutes < openMin || closeMin < e.minutes then
          .error (.conflict ("outside " ++ weekdayName s.weekday ++ " operating hours (" ++ win.openAt ++ "–" ++
            win.closeAt ++ ")"))
        else .ok ()
      | _, _ => .ok ()

/-- `assertWithinOperatingHours` on dates that may be Invalid Dates: such a date is on no weekday, all of them have one
`dateStr`, and no comparison with their minutes holds. -/
def assertOpen (env : Env) (tenantId : Uuid) (resource : Resource) (start finish : Option Instant) :
    Except HttpError Unit :=
  match start, finish with
  | some start, some finish => assertWithinOperatingHours env tenantId resource start finish
  | start, finish =>
    match resource.operatingHours with
    | none => .ok ()
    | some oh =>
      let weekday := start.map fun t => (utcToZonedWallClock (env.timezone tenantId) t).weekday
      let win := match weekday with
        | some weekday => windowForWeekday oh weekday
        | none => if oh.days.isSome then none else windowForWeekday oh 0
      match win with
      | none => .error (.conflict (resource.name ++ " is closed on " ++ weekday.elim "NaN" weekdayName))
      | some win =>
        match hhmmToMinutes win.openAt, hhmmToMinutes win.closeAt with
        | some openMin, some closeMin =>
          if closeMin ≤ openMin then .ok ()
          else if start.isSome || finish.isSome then
            .error (.conflict (resource.name ++ " closes daily — a booking can't run past " ++ win.closeAt ++
              " into the next day"))
          else .ok ()
        | _, _ => .ok ()

/-! ### The tenant's booking rules -/

namespace BookingValidator

def pastGraceMs : ℤ := 60000

def num (v : Option ℤ) (fallback : ℤ) : ℤ :=
  match v with
  | some n => if 0 < n then n else fallback
  | none => fallback

/-- The days from `cur` to `last`, at most `n` of them. -/
def daysUpTo : ℕ → Day → Day → List Day
  | 0, _, _ => []
  | n + 1, cur, last =>
    if cur ≤ last then cur :: (if cur = last then [] else daysUpTo n (cur + 1) last) else []

/-- Every local calendar day a booking touches; an end in the first minute of a day does not touch it. -/
def localDatesSpanned (start finish : Instant) (tz : Zone) : List Day :=
  let s := utcToZonedWallClock tz start
  let e := utcToZonedWallClock tz finish
  let endDate := if e.minutes = 0 ∧ e.dateStr ≠ s.dateStr then e.dateStr - 1 else e.dateStr
  daysUpTo 366 s.dateStr endDate

def hoursText (minutes : ℤ) : String :=
  let tenths := (minutes + 3) / 6
  if tenths % 10 = 0 then toString (tenths / 10) else toString (tenths / 10) ++ "." ++ toString (tenths % 10)

/-- What the first test of `validate` leaves of two dates, either of which may be an Invalid Date. -/
def validDates (start finish : Option Instant) : Except HttpError (Instant × Instant) :=
  match start, finish with
  | some s, some e => .ok (s, e)
  | _, _ => .error (.badRequest "end must be after start")

theorem validDates_eq_ok {start finish : Option Instant} {w : Instant × Instant} :
    validDates start finish = .ok w ↔ start = some w.1 ∧ finish = some w.2 := by
  unfold validDates
  split
  · rename_i s e
    simp only [Except.ok.injEq, Option.some.injEq, Prod.ext_iff]
  · rename_i hnot
    exact iff_of_false nofun fun h => hnot w.1 w.2 h.1 h.2

def validate (env : Env) (tenantId : Uuid) (start finish now : Instant) (overrides : Option RuleOverrides)
    (resourceRegion : Option String) (isAllDay : Bool) : Except HttpError Unit := do
  require (start < finish) (.badRequest "end must be after start")
  let c := env.customization tenantId
  let tz := env.timezone tenantId
  let minMinutes := num ((overrides.bind (·.minDurationMinutes)).or c.minDurationMinutes) 15
  let maxMinutes := num ((overrides.bind (·.maxDurationMinutes)).or c.maxDurationMinutes) 480
  let horizonDays := num ((overrides.bind (·.bookingHorizonDays)).or c.bookingHorizonDays) 180
  require (now - pastGraceMs ≤ start) (.badRequest "booking start must be in the future")
  require (start ≤ now + horizonDays * msPerDay)
    (.badRequest ("bookings can only be made up to " ++ toString horizonDays ++ " days in advance"))
  require (isAllDay || minMinutes * msPerMinute ≤ finish - start)
    (.badRequest ("minimum booking duration is " ++ toString minMinutes ++ " minutes"))
  require (isAllDay || finish - start ≤ maxMinutes * msPerMinute)
    (.badRequest ("maximum booking duration is " ++ hoursText maxMinutes ++ " hours"))
  let spannedDates := localDatesSpanned start finish tz
  match spannedDates.find? c.blackoutDates.contains with
  | some d =>
    throw (.badRequest ("selected dates include a blackout / closed day (" ++ formatDate d ++ ")"))
  | none =>
    let regions := ["", resourceRegion.getD ""]
    match env.holidays.find? fun h =>
      h.tenantId == tenantId && spannedDates.contains h.holidayDate && h.isBlocker && regions.contains h.region with
    | some h =>
      throw (.badRequest ("selected dates include a closed holiday (" ++ (if h.name = "" then "holiday" else h.name)
        ++ " on " ++ formatDate h.holidayDate ++ ")"))
    | none => pure ()

end BookingValidator

end BookingSystem.Model
