import BookingSystem.Base.LocalTime
import BookingSystem.Service.Creation

/-!
# Recurring bookings

`ExpandRecurringBookingUseCase.Execute`: the series is saved through the pool, and for each occurrence a booking is
saved on the request's executor, unless the overlap check finds its window taken. An occurrence that cannot be saved is
skipped, and so is one whose check fails.
-/

namespace BookingSystem.Service

open Base
open Model (Uuid Instant BookingStatus)

structure Occurrence where
  start : Instant
  finish : Instant
  deriving DecidableEq, Repr

/-- An `ExpandRecurringBookingRequest`; each of the two times comes with its own zone. -/
structure SeriesRequest where
  tenantId : Uuid
  resourceId : Uuid
  userId : Uuid
  pattern : Pattern
  firstStart : Instant
  firstEnd : Instant
  startZone : TimeZone
  endZone : TimeZone
  count : ℤ
  dayOfWeek : List ℤ := []
  dayOfMonth : ℤ := 0
  meetingUrl : String := ""
  rrule : String := ""
  exDates : List Instant := []

/-! ### Occurrences -/

/-- `AddDate(0, 0, n)` and `AddDate(0, 1, 0)` as the pattern has it; none for an unknown pattern. -/
def Pattern.advance (p : Pattern) (z : TimeZone) (t : Instant) : Option Instant :=
  match p with
  | .daily => some (z.setDate t (z.getDate t + 1))
  | .weekly => some (z.setDate t (z.getDate t + 7))
  | .biWeekly => some (z.setDate t (z.getDate t + 14))
  | .monthly => some (z.setMonth t (z.getMonth t + 1) (z.getDate t))
  | .other _ => none

def occurrencesFrom (req : SeriesRequest) : ℕ → Occurrence → List Occurrence
  | 0, _ => []
  | left + 1, prev =>
    match req.pattern.advance req.startZone prev.start, req.pattern.advance req.endZone prev.finish with
    | some start, some finish => ⟨start, finish⟩ :: occurrencesFrom req left ⟨start, finish⟩
    | _, _ => []

def generateOccurrences (req : SeriesRequest) : List Occurrence :=
  ⟨req.firstStart, req.firstEnd⟩ :: occurrencesFrom req (req.count - 1).toNat ⟨req.firstStart, req.firstEnd⟩

/-- The occurrences of a request: a recurrence rule comes before the pattern, and what it stands for is an argument. -/
def occurrencesOf (expandRRule : String → List Instant → Instant → Instant → Except String (List Occurrence))
    (req : SeriesRequest) : Except CallError (List Occurrence) := do
  require (decide (req.firstStart < req.firstEnd)) (.rejected "end must be after start")
  if req.rrule = "" then do
    require (decide (1 ≤ req.count ∧ req.count ≤ 100)) (.rejected "count must be between 1 and 100")
    pure (generateOccurrences req)
  else
    match expandRRule req.rrule req.exDates req.firstStart req.firstEnd with
    | .error e => .error (.rejected e)
    | .ok [] => .error (.rejected "rrule produced no occurrences")
    | .ok (o :: rest) => pure (o :: rest)

/-! ### The bookings of a series -/

variable (c : CreateSetup) (broken : ℕ → Bool)

/-- The row of the series. -/
def seriesRow (seriesId : Uuid) (req : SeriesRequest) (occurrences : List Occurrence) : RecurringSeries where
  id := seriesId
  tenantId := req.tenantId
  resourceId := req.resourceId
  userId := req.userId
  pattern := req.pattern
  startDate := req.firstStart
  endDate := (occurrences.getLast?.map Occurrence.finish).getD 0
  timeStart := req.firstStart
  timeEnd := req.firstEnd
  dayOfWeek := req.dayOfWeek
  dayOfMonth := req.dayOfMonth
  createdAt := c.now

/-- The booking of an occurrence: confirmed, and of no mode. -/
def occurrenceBooking (seriesId : Uuid) (req : SeriesRequest) (id : Uuid) (occ : Occurrence) : Booking where
  id := id
  tenantId := req.tenantId
  resourceId := req.resourceId
  userId := req.userId
  startTime := occ.start
  endTime := occ.finish
  status := .confirmed
  isRecurring := true
  recurrenceId := seriesId
  meetingUrl := req.meetingUrl
  version := 1
  createdAt := c.now

/-- One turn of the loop, and whether the occurrence was booked. -/
def bookOccurrence (seriesId : Uuid) (req : SeriesRequest) (id : Uuid) (occ : Occurrence) : Req Bool := do
  let conflict ← Prog.attempt (query broken fun own =>
    hasConflict c.resources own.bookings req.resourceId occ.start occ.finish)
  if conflict.toOption.getD false then pure false
  else do
    let saved ← Prog.attempt (saveBooking broken c.admits (occurrenceBooking c seriesId req id occ))
    pure saved.toBool

structure ExpansionResult where
  recurrenceId : Uuid
  bookingIds : List Uuid := []
  skipped : List Instant := []
  deriving DecidableEq, Repr

/-- The loop over the occurrences from number `k` on; `newId` draws their ids. -/
def bookAll (seriesId : Uuid) (req : SeriesRequest) (newId : ℕ → Uuid) : ℕ → List Occurrence → Req ExpansionResult
  | _, [] => pure { recurrenceId := seriesId }
  | k, occ :: rest => do
    let booked ← bookOccurrence c broken seriesId req (newId k) occ
    let result ← bookAll seriesId req newId (k + 1) rest
    pure (if booked then { result with bookingIds := newId k :: result.bookingIds }
      else { result with skipped := occ.start :: result.skipped })

def expandRecurring (expandRRule : String → List Instant → Instant → Instant → Except String (List Occurrence))
    (admitsSeries : RecurringSeries → Bool) (req : SeriesRequest) (seriesId : Uuid) (newId : ℕ → Uuid) :
    Req ExpansionResult := do
  let occurrences ← Prog.lift (occurrencesOf expandRRule req)
  saveSeries broken admitsSeries (seriesRow c seriesId req occurrences)
  bookAll c broken seriesId req newId 0 occurrences

def createSeries (expandRRule : String → List Instant → Instant → Instant → Except String (List Occurrence))
    (admitsSeries : RecurringSeries → Bool) (req : SeriesRequest) (seriesId : Uuid) (newId : ℕ → Uuid) (s : Session) :
    Bool × Session :=
  (true, ((expandRecurring c broken expandRRule admitsSeries req seriesId newId).on s).2)

end BookingSystem.Service
