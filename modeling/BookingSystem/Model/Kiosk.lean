import BookingSystem.Model.Bookings

/-!
# `KioskService`

The tablet at the door of a room. A walk-up books the room from now on, for a user that the deployment names; the tablet
shows the token of the tenant that owns the room.
-/

namespace BookingSystem.Model.KioskService

open Base BookingsService

/-- The settings of the deployment: `KIOSK_TOKENS`, `KIOSK_TOKEN`, `KIOSK_BOOKING_USER_ID` and whether insecure local
access is on. -/
structure Config where
  kioskTokens : String := ""
  kioskToken : String := ""
  bookingUserId : String := ""
  allowInsecureLocal : Bool := false

/-- One `tenantId:token` of `KIOSK_TOKENS`. -/
def tokenPair (pair : List Char) : Option (Uuid × String) :=
  match (trim (String.ofList pair)).toList.span (· != ':') with
  | (tenantId, ':' :: token) =>
    if tenantId.isEmpty then none else some (trim (String.ofList tenantId), trim (String.ofList token))
  | _ => none

/-- `tenantTokens().get(tenantId)`; of two tokens for one tenant the later one counts. -/
def tenantToken (cfg : Config) (tenantId : Uuid) : String :=
  match ((cfg.kioskTokens.toList.splitOn ',').filterMap tokenPair).reverse.find? fun p => p.1 == tenantId with
  | some p => p.2
  | none => ""

def assertToken (cfg : Config) (token : Option String) (tenantId : Uuid) : Except HttpError Unit :=
  let perTenant := tenantToken cfg tenantId
  let expected := if perTenant = "" then cfg.kioskToken else perTenant
  if expected = "" then
    require cfg.allowInsecureLocal (.unauthorized "kiosk access is not configured for this tenant")
  else require (token == some expected) (.unauthorized "bad kiosk token")

def conflicts (bookings : Table Booking) (resourceId : Uuid) (start finish : Instant) : List Booking :=
  bookings.rows.filter fun b =>
    b.resourceId == resourceId && !b.status.released && rangesOverlap b.startTime b.endTime start finish

/-- The row of a walk-up. -/
def walkIn (cfg : Config) (newId : Uuid) (r : Resource) (start finish : Instant) (title : String) : Booking :=
  { id := newId
    tenantId := r.tenantId
    resourceId := r.id
    userId := cfg.bookingUserId
    startTime := start
    endTime := finish
    status := .confirmed
    title := title
    costCenterCode := r.costCenterCode }

/-- Books the room from now on. A window that ends before it starts is no range. -/
def quickBook (env : Env) (cfg : Config) (now : Instant) (newId resourceId : Uuid) (durationMinutes : ℤ)
    (title : String) (token : Option String) (bookings : Table Booking) :
    Except HttpError (Table Booking × Booking) := do
  let r ← found (env.resources.find? resourceId) (.notFound "resource not found")
  assertToken cfg token r.tenantId
  require (cfg.bookingUserId != "") (.badRequest "quick-book not configured (KIOSK_BOOKING_USER_ID)")
  let finish := now + durationMinutes * msPerMinute
  require (now ≤ finish) (.internal "range lower bound must be less than or equal to range upper bound")
  require (conflicts bookings resourceId now finish).isEmpty (.badRequest "time slot occupied")
  let saved := walkIn cfg newId r now finish title
  let bookings ← found (bookings.insert? saved) (.internal "duplicate key value violates unique constraint")
  pure (bookings, saved)

end BookingSystem.Model.KioskService
