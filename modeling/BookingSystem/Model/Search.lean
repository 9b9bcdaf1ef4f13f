import BookingSystem.Model.Bookings
import BookingSystem.Model.Resources

/-!
# `ResourcesService`: the search for a free room

The rooms of a tenant that no booking of the window takes, as the search sees it, less the restricted ones that the
viewer could not book. The search follows the parent links of the rooms themselves, `create` follows them only as far
as `compositeMode` says.
-/

namespace BookingSystem.Model.ResourcesService

open Base BookingsService

structure SearchCriteria where
  tenantId : Uuid
  location : Option String := none
  assetType : Option String := none
  capacity : Option ℤ := none
  start : Instant
  finish : Instant
  userId : Option Uuid := none
  isAdmin : Bool := false

def inWindow (c : SearchCriteria) (b : Booking) : Bool :=
  b.tenantId == c.tenantId && !b.status.released && rangesOverlap b.startTime b.endTime c.start c.finish

/-- The subquery: the rooms that are booked, the parents of booked rooms, and the rooms whose parent is booked. The
joins go over the rooms of every tenant. -/
def busyIds (resources : Table Resource) (bookings : Table Booking) (c : SearchCriteria) : List Uuid :=
  let booked := (bookings.rows.filter (inWindow c)).map (·.resourceId)
  booked ++
    (booked.flatMap fun id => ((resources.rows.filter fun res => res.id == id).filterMap (·.parentResourceId))) ++
    (booked.flatMap fun id => ((resources.rows.filter fun res => res.parentResourceId == some id).map (·.id)))

def asks (wanted : Option String) (value : Option String) : Bool :=
  match wanted with
  | none => true
  | some w => w == "" || value == some w

def matchesCriteria (c : SearchCriteria) (r : Resource) : Bool :=
  asks c.location r.location && asks c.assetType (some r.assetType) &&
    match c.capacity with
    | none => true
    | some n => n ≤ 0 || n ≤ r.capacity

/-- Hides the restricted rooms that the viewer could not book. -/
def filterRestricted (env : Env) (rooms : List Resource) (c : SearchCriteria) : List Resource :=
  if c.isAdmin then rooms
  else if !rooms.any (·.isRestricted) then rooms
  else
    let myDepts := (c.userId.bind (env.user c.tenantId)).elim [] (·.departments)
    rooms.filter fun r => !r.isRestricted || r.departmentId.elim false myDepts.contains

def findAvailable (env : Env) (bookings : Table Booking) (c : SearchCriteria) : List Resource :=
  let busy := busyIds env.resources bookings c
  let rooms := (env.resources.rows.filter fun r =>
    r.tenantId == c.tenantId && r.isActive && !busy.contains r.id && matchesCriteria c r).insertionSort
      fun r r' => r.name ≤ r'.name
  filterRestricted env rooms c

/-! ### The filter by opening hours -/

/-- Whether the hours of a room let a slot through, as the search reads them. -/
def openForSlot (oh : Option OperatingHours) (s e : WallClock) (isAllDay : Bool) : Bool :=
  match oh with
  | none => true
  | some oh =>
    match windowForWeekday oh s.weekday with
    | none => false
    | some win =>
      match hhmmToMin win.openAt, hhmmToMin win.closeAt with
      | some openMin, some closeMin =>
        if closeMin ≤ openMin then true -- misconfigured: the source does not hide the room
        else if isAllDay then true
        else if e.dateStr ≠ s.dateStr then false
        else openMin ≤ s.minutes && e.minutes ≤ closeMin
      | _, _ => true

/-- The search form: a day and two times, in minutes since midnight. -/
structure SearchQuery where
  date : Day
  startTime : ℕ
  endTime : ℕ
  location : Option String := none
  assetType : Option String := none
  capacity : Option ℤ := none

/-- The test of `search` for a whole day. -/
def isAllDay (s e : WallClock) : Bool :=
  s.minutes == 0 && (23 * 60 + 59 ≤ e.minutes || (e.dateStr != s.dateStr && e.minutes == 0))

/-- `ResourcesPublicController.search`. -/
def search (env : Env) (bookings : Table Booking) (u : AuthUser) (q : SearchQuery) : List Resource :=
  let tz := env.timezone u.tenantId
  let start := zonedTimeToUtc tz q.date q.startTime
  let finish := zonedTimeToUtc tz q.date q.endTime
  let rooms := findAvailable env bookings
    { tenantId := u.tenantId
      location := q.location
      assetType := q.assetType
      capacity := q.capacity
      start := start
      finish := finish
      userId := some u.id
      isAdmin := isAdmin u.role }
  let s := utcToZonedWallClock tz start
  let e := utcToZonedWallClock tz finish
  rooms.filter fun r => openForSlot r.operatingHours s e (isAllDay s e)

end BookingSystem.Model.ResourcesService
