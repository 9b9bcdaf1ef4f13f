import BookingSystem.Model.Bookings

/-!
# `CheckinService` and `AutoReleaseService`

Check-in by the owner and at the kiosk, the two admin marks, and the sweep that releases the bookings nobody has
checked into.
-/

namespace BookingSystem.Model

open Base

namespace CheckinService

def defaultTokenTtlMs : ℤ := 24 * 60 * 60 * 1000

/-- A fresh token for the kiosk, for the owner or an admin. -/
def issueToken (now : Instant) (token : String) (tenantId userId : Uuid) (isAdmin : Bool) (bookingId : Uuid)
    (st : Store) : Except HttpError (Store × String) := do
  let b ← found (findBooking st.bookings tenantId bookingId) (.notFound "booking not found")
  require (b.userId == userId || isAdmin) (.forbidden "Forbidden")
  let saved := { b with
    checkinToken := some token
    checkinTokenExpiresAt := some (now + defaultTokenTtlMs) }
  pure ({ st with bookings := st.bookings.save saved }, token)

/-- The row after a check-in; a booking that is checked in already is left as it is. -/
def applyCheckin (now : Instant) (b : Booking) : Except HttpError Booking := do
  require (!b.status.released) (.badRequest ("cannot check in: booking is " ++ b.status.label))
  if b.status == .checkedIn then pure b
  else pure { b with status := .checkedIn, checkedInAt := some now }

def checkinByBooking (now : Instant) (tenantId userId : Uuid) (isAdmin : Bool) (bookingId : Uuid) (st : Store) :
    Except HttpError (Store × Booking) := do
  let b ← found (findBooking st.bookings tenantId bookingId) (.notFound "booking not found")
  require (b.userId == userId || isAdmin) (.forbidden "Forbidden")
  let saved ← applyCheckin now b
  pure ({ st with bookings := st.bookings.save saved }, saved)

def claims (now : Instant) (token : String) (b : Booking) : Bool :=
  b.checkinToken == some token && b.checkinTokenExpiresAt.all (now < ·) && !b.status.released

def burn (b : Booking) : Booking := { b with checkinToken := none, checkinTokenExpiresAt := none }

theorem key_burn (b : Booking) : (key (burn b) : Uuid) = key b := rfl

/-- The kiosk: burns the token and checks its booking in, in one transaction. -/
def redeemToken (now : Instant) (token : String) (st : Store) :
    Except HttpError (Store × (Uuid × Option Instant)) := do
  require (token != "") (.badRequest "missing token")
  let claim ← found (st.bookings.rows.find? (claims now token))
    (.badRequest "token invalid, already used, or expired")
  let bookings := st.bookings.update (claims now token) burn key_burn
  let b ← found (bookings.find? claim.id) (.notFound "booking not found")
  let saved ← applyCheckin now b
  pure ({ st with bookings := bookings.save saved }, (saved.id, saved.checkedInAt))

def firstText (a b c : String) : String := if a = "" then (if b = "" then c else b) else a

def markNoShow (tenantId bookingId : Uuid) (reason : Option String) (st : Store) :
    Except HttpError (Store × Booking) := do
  let b ← found (findBooking st.bookings tenantId bookingId) (.notFound "booking not found")
  if b.status.released then pure (st, b)
  else
    let saved := { b with
      status := .noShow
      exceptionNotes := firstText (trim (reason.getD "")) b.exceptionNotes "admin marked no-show" }
    pure ({ st with bookings := st.bookings.save saved }, saved)

def markAttended (tenantId bookingId : Uuid) (st : Store) : Except HttpError (Store × Booking) := do
  let b ← found (findBooking st.bookings tenantId bookingId) (.notFound "booking not found")
  if b.status == .attended then pure (st, b)
  else
    require (!b.status.released) (.badRequest ("cannot mark attended: booking is " ++ b.status.label))
    let saved := { b with status := .attended }
    pure ({ st with bookings := st.bookings.save saved }, saved)

end CheckinService

namespace AutoReleaseService

def minGraceMinutes : ℤ := 1

def positiveInt (v : Option Rat) : Option ℤ := (v.filter fun n => 0 < n).map Rat.floor

/-- The time a booking has for its check-in: of its room, else of the tenant, else of the process. -/
def graceMinutes (env : Env) (b : Booking) : ℤ :=
  (positiveInt ((env.resource b.tenantId b.resourceId).bind fun r => r.ruleOverrides.bind (·.graceMinutes))).getD
    ((positiveInt (env.customization b.tenantId).autoReleaseGraceMinutes).getD (max 1 env.envGraceMinutes))

/-- The bookings one tick looks at. -/
def candidates (now : Instant) (bookings : Table Booking) : List Booking :=
  ((bookings.rows.filter fun b => b.status == .confirmed && b.checkedInAt.isNone &&
      b.startTime < now - minGraceMinutes * 60000).insertionSort
    fun b b' => b.startTime ≤ b'.startTime).take 1000

/-- Whether the sweep runs for the tenant and the time of the booking is up. -/
def overdue (env : Env) (now : Instant) (b : Booking) : Bool :=
  (env.customization b.tenantId).autoReleaseEnabled.getD env.envEnabled &&
    b.startTime + graceMinutes env b * 60000 ≤ now

/-- The conditional `UPDATE` of one candidate: the row is flipped only while it is confirmed and not checked in. -/
def release (bookings : Table Booking) (b : Booking) : Table Booking :=
  bookings.update (fun r => r.id == b.id && r.status == .confirmed && r.checkedInAt.isNone)
    (fun r => { r with
      status := .noShow
      exceptionNotes :=
        if b.exceptionNotes = "" then "auto-released: no check-in within grace period" else b.exceptionNotes })

def tick (env : Env) (now : Instant) (st : Store) : Store :=
  { st with
    bookings := (candidates now st.bookings).foldl
      (fun bookings b => if overdue env now b then release bookings b else bookings) st.bookings }

end AutoReleaseService

end BookingSystem.Model
