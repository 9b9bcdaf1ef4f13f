import BookingSystem.Model.Entities
import Mathlib.Data.List.Sort

/-!
# What a viewer sees of a booking

The calendar of a tenant (`BookingsService.listAllForRange`) sends the rows themselves; `projectForViewer` overwrites
the fields of a private booking that its viewers may not see. The contract it mirrors is `ProjectBooking` of the first
stack, which builds a new booking from the fields that a viewer may see.
-/

namespace BookingSystem.Model

open Base

namespace BookingsService

inductive SyncStatus
  | pending | synced | failed
  deriving DecidableEq, Repr

/-- A row with all its columns. -/
structure BookingRecord extends Booking where
  redirectUrl : String := ""
  syncStatus : SyncStatus := .pending
  createdAt : Instant
  updatedAt : Instant
  deriving DecidableEq, Repr

/-- A row as it is sent. -/
structure SentBooking extends BookingRecord where
  resourceName : String
  subjectHidden : Option Bool := none
  deriving DecidableEq, Repr

/-- The name of a room of the tenant, the empty one for a room that is not found. -/
def resourceName (resources : Table Resource) (tenantId id : Uuid) : String :=
  match resources.rows.find? fun r => r.tenantId == tenantId && r.id == id with
  | some r => r.name
  | none => ""

def withResourceNames (resources : Table Resource) (tenantId : Uuid) (rows : List BookingRecord) : List SentBooking :=
  rows.map fun b => { b with resourceName := resourceName resources tenantId b.resourceId }

/-- One booking as the viewer gets it. -/
def redact (viewerId : Uuid) (viewerRole : String) (b : SentBooking) : SentBooking :=
  if !b.isPrivate || b.userId == viewerId || viewerRole == Roles.systemAdmin then b
  else
    { b with
      userId := ""
      title := "Reserved"
      meetingUrl := ""
      redirectUrl := ""
      exceptionNotes := ""
      checkinToken := none
      subjectHidden := some true }

def projectForViewer (viewerId : Uuid) (viewerRole : String) (rows : List SentBooking) : List SentBooking :=
  rows.map (redact viewerId viewerRole)

/-- The bookings of a tenant that start in a range, by their start. -/
def listAllForRange (resources : Table Resource) (tenantId : Uuid) (start finish : Instant) (viewerId : Uuid)
    (viewerRole : String) (bookings : List BookingRecord) : List SentBooking :=
  let rows := (bookings.filter fun b => b.tenantId == tenantId && start ≤ b.startTime && b.startTime < finish)
    |>.insertionSort fun b b' => b.startTime ≤ b'.startTime
  projectForViewer viewerId viewerRole (withResourceNames resources tenantId rows)

end BookingsService

/-! ### The contract -/

namespace Visibility

/-- A booking of the first stack. -/
structure Booking where
  id : String := ""
  tenantId : String := ""
  resourceId : String := ""
  resourceName : String := ""
  userId : String := ""
  startTime : Instant := 0
  endTime : Instant := 0
  status : String := ""
  isRecurring : Bool := false
  recurrenceId : String := ""
  exceptionNotes : String := ""
  meetingUrl : String := ""
  redirectUrl : String := ""
  checkedInAt : Option Instant := none
  version : ℤ := 0
  createdAt : Instant := 0
  bookingMode : String := ""
  title : String := ""
  isPrivate : Bool := false
  deriving DecidableEq, Repr

structure ResourceProjection where
  name : String := ""
  detailsVisibleToRole : List String := []

structure Caller where
  userId : String
  role : String

def isSystemAdmin (c : Caller) : Bool := c.role == Roles.systemAdmin

def canSeeDetails (c : Caller) (b : Booking) (r : ResourceProjection) : Bool :=
  if isSystemAdmin c then true
  else if c.userId != "" && b.userId == c.userId then true
  else if b.status == "" then false
  else if b.isPrivate then false
  else if r.detailsVisibleToRole.contains c.role then true
  else [Roles.securityAdmin, Roles.roomAdmin, Roles.secretary].contains c.role

def projectBooking (c : Caller) (b : Booking) (r : ResourceProjection) : Booking :=
  let b := { b with resourceName := r.name }
  if canSeeDetails c b r then b
  else
    { id := b.id
      tenantId := b.tenantId
      resourceId := b.resourceId
      resourceName := b.resourceName
      startTime := b.startTime
      endTime := b.endTime
      status := b.status
      isRecurring := b.isRecurring
      recurrenceId := b.recurrenceId
      version := b.version
      createdAt := b.createdAt
      bookingMode := b.bookingMode
      isPrivate := b.isPrivate }

/-- The resource of a booking; one that the map does not know has no name and no list of roles. -/
def resourceOf (resourcesById : String → Option ResourceProjection) (b : Booking) : ResourceProjection :=
  (resourcesById b.resourceId).getD {}

def projectMany (c : Caller) (bs : List Booking) (resourcesById : String → Option ResourceProjection) :
    List Booking :=
  bs.map fun b => projectBooking c b (resourceOf resourcesById b)

end Visibility

end BookingSystem.Model
