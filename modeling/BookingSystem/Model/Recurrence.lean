import BookingSystem.Base.LocalTime
import BookingSystem.Model.Bookings
import BookingSystem.Base.RecurrenceRules

/-!
# `RecurrenceService`

The expansion of a recurring request into the windows that are booked one by one. Days are stepped, weekdays tested and
times of day set in the zone of the server process. A date is an Invalid Date when it is more than 100,000,000 days away
from 1970: then all comparisons with it are false, and whatever is made of it is an Invalid Date. A raw RRULE is read
into a request with a pattern first, which `expand` then gets; only some of its parts are looked at.
-/

namespace BookingSystem.Model.RecurrenceService

open Base

/-! ### Dates -/

abbrev Date := Option Instant

/-- The time of a date. -/
abbrev IsDate (t : ℤ) : Prop := -8640000000000000 ≤ t ∧ t ≤ 8640000000000000

def timeClip (t : ℤ) : Date := if IsDate t then some t else none

def isBefore (d : Date) (t : Instant) : Bool := d.any (· < t)

/-- An integer from `2 ^ 1024 - 2 ^ 970` on is Infinity when it is read. -/
def infinity : ℕ := (2 ^ 54 - 1) * (2 ^ 97) ^ 10

/-- The product of a counter and an interval; no date is made of Infinity, nor of `0 * Infinity`, which is NaN. -/
def times (k : ℕ) (interval : ℤ) : Option ℤ := if interval < infinity then some (k * interval) else none

inductive RecurrencePattern
  | daily | weekly | biWeekly | monthly | custom
  deriving DecidableEq, Repr

/-- A recurring request; a date that cannot be read is an Invalid Date. The last field has what every occurrence is
booked with. -/
structure CreateRecurringDto where
  firstStart : Date
  firstEnd : Date
  pattern : RecurrencePattern
  interval : Option ℤ := none
  count : Option ℤ := none
  untilDate : Option Date := none
  byday : List ℤ := []
  bymonth : List ℤ := []
  exDates : List Date := []
  booking : BookingsService.CreateBookingDto

def maxOccurrences : ℕ := 100

def maxExpansionIterations : ℕ := 1000

/-! ### The helpers -/

def addDays (server : TimeZone) (d : Date) (n : Option ℤ) : Date :=
  d.bind fun t => n.bind fun n => timeClip (server.setDate t (server.getDate t + n))

def startOfWeek (server : TimeZone) (t : Instant) : Date :=
  (timeClip (server.setDate t (server.getDate t - server.getDay t))).bind fun t => timeClip (server.setHours t 0 0)

section Expand

variable (server : TimeZone) (dto : CreateRecurringDto) (firstStart : Instant) (durMs : ℤ) (exDates : List Date)

def intervalOf : ℤ :=
  match dto.interval with
  | some n => if 0 < n then n else 1
  | none => 1

/-- The number of occurrences: one without a count, or up to the cap when an end date bounds them. -/
def countOf : ℕ :=
  let unbounded := if dto.untilDate.isSome then maxOccurrences else 1
  match dto.count with
  | some n => if n = 0 then unbounded else (max 1 (min n (maxOccurrences : ℤ))).toNat
  | none => unbounded

def afterUntil (s : Date) : Bool := s.any fun t => dto.untilDate.any fun d => isBefore d t

def window (s : Date) : Date × Date := (s, s.bind fun t => timeClip (t + durMs))

def push (out : List (Date × Date)) (s : Date) : List (Date × Date) :=
  if exDates.contains s then out
  else if afterUntil dto s then out
  else out ++ [window durMs s]

/-! ### The loops -/

/-- The loop of a daily series. -/
def dailyLoop : List ℕ → List (Date × Date) → List (Date × Date)
  | [], out => out
  | i :: is, out =>
    let s := addDays server firstStart (times i (intervalOf dto))
    let out := push dto durMs exDates out s
    if afterUntil dto s then out else dailyLoop is out

/-- What a weekly or monthly expansion has so far. -/
structure Expansion where
  out : List (Date × Date)
  emitted : ℕ

/-- The loop over the days of one week or month; `date` is the start on a day, `none` when it is skipped as one before
the first. -/
def emitDays (date : ℤ → Option Date) : List ℤ → Expansion → Expansion
  | [], st => st
  | d :: days, st =>
    match date d with
    | none => emitDays date days st
    | some s =>
      if afterUntil dto s then { st with emitted := countOf dto }
      else
        let st' : Expansion := ⟨push dto durMs exDates st.out s, st.emitted + 1⟩
        if countOf dto ≤ st'.emitted then st' else emitDays date days st'

/-- The loop over the weeks or months, with the rounds it may still take. -/
def emitRounds {β : Type} (date : β → ℤ → Option Date) (next : β → β) (days : List ℤ) :
    ℕ → β → Expansion → Except HttpError (List (Date × Date))
  | 0, _, st =>
    if st.emitted < countOf dto then
      .error (.badRequest "Recurrence rule is too restrictive or never resolves to a valid date.")
    else .ok st.out
  | fuel + 1, b, st =>
    if st.emitted < countOf dto then
      let st' := emitDays dto durMs exDates (date b) days st
      if maxOccurrences < st'.out.length then .ok st'.out else emitRounds date next days fuel (next b) st'
    else .ok st.out

/-- The weekdays of a weekly series, sorted as `sort()` sorts numbers: by their texts. -/
def weeklyDays : List ℤ :=
  if dto.byday.isEmpty then [server.getDay firstStart]
  else dto.byday.insertionSort fun a b => toString a ≤ toString b

/-- The occurrence on a weekday of a week; one whose midnight is before the first start is skipped. -/
def weeklyDate (weekStart : Date) (wd : ℤ) : Option Date :=
  let candidate := addDays server weekStart (some wd)
  if isBefore candidate firstStart then none
  else some (candidate.bind fun t =>
    timeClip (server.setHours t (server.getHours firstStart) (server.getMinutes firstStart)))

def monthlyDays : List ℤ := if dto.bymonth.isEmpty then [server.getDate firstStart] else dto.bymonth

def monthStart (monthOffset : ℕ) : Date :=
  (times monthOffset (intervalOf dto)).bind fun n =>
    timeClip (server.setMonth firstStart (server.getMonth firstStart + n) 1)

/-- The number of days of the month of `t`. -/
def maxDom (t : Instant) : Option ℤ :=
  (timeClip (server.newDate (server.getFullYear t) (server.getMonth t + 1) 0)).map server.getDate

def monthlyDate (monthOffset : ℕ) (dom : ℤ) : Option Date :=
  let s := (monthStart server dto firstStart monthOffset).bind fun t =>
    (maxDom server t).bind fun last => timeClip (server.setDate t (min dom last))
  if isBefore s firstStart then none else some s

/-- The windows of a series. -/
def expand (firstEnd : Instant) : Except HttpError (List (Date × Date)) := do
  let durMs := firstEnd - firstStart
  let out ← match dto.pattern with
    | .daily => pure (dailyLoop server dto firstStart durMs exDates (List.range (countOf dto)) [])
    | .weekly =>
      emitRounds dto durMs exDates (weeklyDate server firstStart) (fun w => addDays server w (times 7 (intervalOf dto)))
        (weeklyDays server dto firstStart) (maxExpansionIterations + 1) (startOfWeek server firstStart) ⟨[], 0⟩
    | .biWeekly =>
      pure ((List.range (countOf dto)).foldl (fun out i =>
        push dto durMs exDates out (addDays server firstStart (times (i * 14) (intervalOf dto)))) [])
    | .monthly =>
      emitRounds dto durMs exDates (monthlyDate server dto firstStart) (· + 1) (monthlyDays server dto firstStart)
        (maxExpansionIterations + 1) 0 ⟨[], 0⟩
    | .custom => pure (push dto durMs exDates [] firstStart)
  pure (out.take maxOccurrences)

end Expand

/-- A recurring request: it is expanded, and every occurrence is booked on its own. One with an Invalid Date is not, as
one that ends when it begins is not; and of a start that is an Invalid Date there is no text for the list of those that
were skipped. -/
def createSeries (env : Env) (server : TimeZone) (now : Instant) (fresh : ℕ → BookingsService.Fresh)
    (tenantId userId : Uuid) (dto : CreateRecurringDto) (recurrenceId : Uuid) (st : Store) :
    Except HttpError (Store × List Uuid) := do
  let firstStart ← found dto.firstStart (.badRequest "firstStart/firstEnd must be ISO dates")
  let firstEnd ← found dto.firstEnd (.badRequest "firstStart/firstEnd must be ISO dates")
  require (firstStart < firstEnd) (.badRequest "end must be after start")
  let resource ← found (env.resource tenantId dto.booking.resourceId) (.notFound "resource not bookable")
  require resource.isActive (.notFound "resource not bookable")
  let occurrences ← expand server dto firstStart dto.exDates firstEnd
  let occurrences ← found (occurrences.mapM fun occ => occ.1.map fun s => (s, occ.2.getD s))
    (.internal "Invalid time value")
  BookingsService.createSeries env now fresh tenantId userId dto.booking recurrenceId occurrences st

/-! ### The built-in functions of the language -/

/-- `String.prototype.toUpperCase`, as far as it leads to letters of ASCII; any other character is left alone. -/
def upperCaseChar (c : Char) : List Char :=
  match c with
  | 'ı' => ['I']
  | 'ſ' => ['S']
  | 'ß' => ['S', 'S']
  | 'ﬀ' => ['F', 'F']
  | 'ﬁ' => ['F', 'I']
  | 'ﬂ' => ['F', 'L']
  | 'ﬃ' => ['F', 'F', 'I']
  | 'ﬄ' => ['F', 'F', 'L']
  | 'ﬅ' | 'ﬆ' => ['S', 'T']
  | c => [c.toUpper]

def toUpperCase (cs : List Char) : List Char := cs.flatMap upperCaseChar

/-- `parseInt(…, 10)`; `none` is NaN. -/
def parseInt (cs : List Char) : Option ℤ :=
  let digits := fun (sign : ℤ) (cs : List Char) =>
    let ds := cs.takeWhile Char.isDigit
    if ds = [] then none else some (sign * Recur.digitsValue ds)
  match cs.dropWhile isSpace with
  | '-' :: cs => digits (-1) cs
  | '+' :: cs => digits 1 cs
  | cs => digits 1 cs

/-- `Date.UTC`: a year below `100` is one of the twentieth century, and the parts may run over. -/
def dateUtc (year month day hour minute second : ℤ) : Instant :=
  (firstOfMonth (if 0 ≤ year ∧ year ≤ 99 then 1900 + year else year) month + day - 1) * dayMs +
    (hour * 3600000 + minute * 60000 + second * 1000)

/-! ### The text -/

def dropRRule (cs : List Char) : List Char :=
  if (cs.take 6).map Char.toUpper = "RRULE:".toList then cs.drop 6 else cs

/-- `parts`, in the order they are set. -/
def rruleParts (rrule : List Char) : List (List Char × List Char) :=
  ((dropRRule rrule).splitOn ';').filterMap fun p =>
    match p.splitOn '=' with
    | k :: v :: _ => if k = [] ∨ v = [] then none else some (toUpperCase k, v)
    | _ => none

def rrulePart (parts : List (List Char × List Char)) (name : String) : Option (List Char) :=
  (parts.reverse.find? fun p => p.1 == name.toList).map (·.2)

def weekdayCode (s : List Char) : Option ℤ :=
  ((["SU", "MO", "TU", "WE", "TH", "FR", "SA"].map String.toList).idxOf? (toUpperCase s)).map fun (i : ℕ) => (i : ℤ)

/-- The end date; `newDate` is `new Date`, for any text that is not in one of the two forms. -/
def parseUntil (newDate : List Char → Date) (s : List Char) : Date :=
  let value := fun (ds : List Char) => (Recur.digitsValue ds : ℤ)
  if s.length = 8 ∧ s.all Char.isDigit then
    some (dateUtc (value (s.take 4)) (value ((s.drop 4).take 2) - 1) (value ((s.drop 6).take 2)) 0 0 0)
  else if s.length = 16 ∧ (s.take 8).all Char.isDigit ∧ s[8]? = some 'T' ∧ ((s.drop 9).take 6).all Char.isDigit ∧
      s[15]? = some 'Z' then
    some (dateUtc (value (s.take 4)) (value ((s.drop 4).take 2) - 1) (value ((s.drop 6).take 2))
      (value ((s.drop 9).take 2)) (value ((s.drop 11).take 2)) (value ((s.drop 13).take 2)))
  else newDate s

/-- The request that a rule is read into. -/
def rruleDto (newDate : List Char → Date) (rrule : List Char) (firstStart firstEnd : Instant) :
    CreateRecurringDto :=
  let parts := rruleParts rrule
  let freq := toUpperCase ((rrulePart parts "FREQ").getD "DAILY".toList)
  let interval := parseInt ((rrulePart parts "INTERVAL").getD ['1'])
  let count := parseInt ((rrulePart parts "COUNT").getD ['0'])
  { firstStart := some firstStart
    firstEnd := some firstEnd
    pattern :=
      if freq = "WEEKLY".toList then .weekly else if freq = "MONTHLY".toList then .monthly else .daily
    interval := interval.map (max 1)
    count := some (match count with
      | some n => if n = 0 then maxOccurrences else min n maxOccurrences
      | none => maxOccurrences)
    untilDate := (rrulePart parts "UNTIL").map (parseUntil newDate)
    byday := ((rrulePart parts "BYDAY").map fun v => (v.splitOn ',').filterMap weekdayCode).getD []
    booking := { resourceId := "", startTime := firstStart, endTime := firstEnd } }

def expandRRule (server : TimeZone) (newDate : List Char → Date) (rrule : List Char) (firstStart : Instant)
    (exDates : List Date) (firstEnd : Instant) : Except HttpError (List (Date × Date)) :=
  expand server (rruleDto newDate rrule firstStart firstEnd) firstStart exDates firstEnd

end BookingSystem.Model.RecurrenceService
