import BookingSystem.Service.Bookings
import Mathlib.Data.List.Infix

/-!
# Inbound changes of Outlook events

`ReconcileGraphEventUseCase.HandleNotification` is told by Graph that an event of a room mailbox has changed, fetches
the event and mirrors it in the bookings. The statements go through the pool, one after another. What the provider
holds is part of the state: a fetch finds it as it is at that moment.
-/

namespace BookingSystem.Service

open Base
open Model (Uuid Instant)

/-- The library functions that the use case depends on: `strings.EqualFold`, `time.Parse` with a layout, and `uuid.New`,
which does not draw the id of a row. -/
structure GraphRuntime where
  equalFold : String → String → Bool
  timeParse : String → String → Option Instant
  uuidNew : Table Booking → Uuid
  uuidNew_fresh : ∀ t : Table Booking, t.find? (uuidNew t) = none

/-- The projection of a Graph event that is read back. -/
structure EventDetails where
  iCalUId : String := ""
  subject : String := ""
  isCancelled : Bool := false
  start : String
  finish : String
  singleValueExtendedProperties : List (String × String) := []
  deriving DecidableEq, Repr

/-- A row of `room_mailbox_map`. -/
structure RoomMailbox where
  resourceId : Uuid
  mailboxUpn : String
  isActive : Bool := true
  deriving DecidableEq, Repr

/-- A row of `booking_outlook_events`. -/
structure OutlookSyncRecord where
  bookingId : Uuid
  tenantId : Uuid
  mailboxUpn : String
  graphId : String
  iCalUid : String
  deriving DecidableEq, Repr

instance : Keyed OutlookSyncRecord Uuid := ⟨OutlookSyncRecord.bookingId⟩

/-- The subscription's tenant and mailbox, the tenant's mailboxes, and the rows that the database admits. -/
structure GraphSetup where
  runtime : GraphRuntime
  tenantId : Uuid
  mailboxUpn : String
  mailboxes : List RoomMailbox
  admits : Booking → Bool

structure GraphState where
  bookings : Table Booking
  syncMap : Table OutlookSyncRecord
  provider : String → Option EventDetails

/-- A notification, and whether the credentials are found, a token is obtained and the fetch gets an answer. -/
structure Notification where
  changeType : String
  eventId : String
  credentials : Bool := true
  token : Bool := true
  answered : Bool := true
  now : Instant := 0

variable (g : GraphSetup)

/-! ### Times -/

def zeroTime : Instant := -62135596800000

def parseGraphDT (dateTime : String) : Instant :=
  if dateTime = "" then zeroTime
  else (((g.runtime.timeParse "2006-01-02T15:04:05Z07:00" dateTime).or
    (g.runtime.timeParse "2006-01-02T15:04:05.0000000" dateTime)).or
    (g.runtime.timeParse "2006-01-02T15:04:05" dateTime)).getD zeroTime

/-! ### The use case -/

def resourceForMailbox : Except CallError Uuid :=
  found ((g.mailboxes.find? fun m => g.runtime.equalFold m.mailboxUpn g.mailboxUpn && m.isActive).map
    RoomMailbox.resourceId) (.rejected "mailbox not mapped to any resource")

def lookupByGraphID (_ : GraphState) (_ : String) : Option OutlookSyncRecord := none

def cancelByGraphID (s : GraphState) (eventId : String) : Except CallError GraphState :=
  match lookupByGraphID s eventId with
  | none => pure s
  | some rec => do
    let bookings ← cancel g.admits s.bookings rec.bookingId "Cancelled in Outlook"
    pure { s with bookings := bookings, syncMap := s.syncMap.delete rec.bookingId }

def isOurEvent (ev : EventDetails) : Bool :=
  ev.singleValueExtendedProperties.any fun p => decide ("FSDBookingId".toList <:+: p.1.toList) && p.2 != ""

/-- The booking of an external event that is not known yet, for a synthetic user. -/
def externalBooking (s : GraphState) (resourceId : Uuid) (ev : EventDetails) (now : Instant) : Booking where
  id := g.runtime.uuidNew s.bookings
  tenantId := g.tenantId
  resourceId := resourceId
  userId := "00000000-0000-0000-0000-000000000fff"
  startTime := parseGraphDT g ev.start
  endTime := parseGraphDT g ev.finish
  status := .confirmed
  exceptionNotes := "Outlook: " ++ ev.subject
  createdAt := now

def saveRecord (t : Table OutlookSyncRecord) (rec : OutlookSyncRecord) : Table OutlookSyncRecord :=
  match t.find? rec.bookingId with
  | some _ => t.save rec
  | none => (t.insert? rec).getD t

/-- Inserts the booking of a new event and ties it to the event. -/
def insertExternal (s : GraphState) (resourceId : Uuid) (eventId : String) (ev : EventDetails) (now : Instant) :
    Except CallError GraphState := do
  let bk := externalBooking g s resourceId ev now
  let bookings ← save g.admits s.bookings bk
  pure { s with
    bookings := bookings
    syncMap := saveRecord s.syncMap ⟨bk.id, g.tenantId, g.mailboxUpn, eventId, ev.iCalUId⟩ }

/-- A live event that the service has not written itself. -/
def mirrorEvent (s : GraphState) (resourceId : Uuid) (eventId : String) (ev : EventDetails) (now : Instant) :
    Except CallError GraphState :=
  match (lookupByGraphID s eventId).bind fun rec => s.bookings.find? rec.bookingId with
  | some bk => do
    let bookings ← save g.admits s.bookings { bk with
      startTime := parseGraphDT g ev.start
      endTime := parseGraphDT g ev.finish
      exceptionNotes := if ev.subject = "" then bk.exceptionNotes else "Outlook: " ++ ev.subject }
    pure { s with bookings := bookings }
  | none => insertExternal g s resourceId eventId ev now

/-- `HandleNotification`. -/
def handleNotification (s : GraphState) (n : Notification) : Except CallError GraphState := do
  require n.credentials .noRows
  require n.token (.rejected "token")
  let resourceId ← resourceForMailbox g
  if g.runtime.equalFold n.changeType "deleted" then cancelByGraphID g s n.eventId
  else do
    require n.answered (.rejected "fetch event")
    match s.provider n.eventId with
    | none => cancelByGraphID g s n.eventId
    | some ev =>
      if ev.isCancelled then cancelByGraphID g s n.eventId
      else if isOurEvent ev then pure s
      else if parseGraphDT g ev.start = zeroTime ∨ parseGraphDT g ev.finish = zeroTime then pure s
      else mirrorEvent g s resourceId n.eventId ev n.now

end BookingSystem.Service
