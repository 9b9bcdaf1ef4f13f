import BookingSystem.Service.Chains

/-!
# The calls that change a booking

`UpdateBookingUseCase`, `ApprovalUseCase`, `CheckinUseCase`, `ManageBookingStatusUseCase` and `AutoReleaseUseCase`. Each
reads the booking and then writes it: what it decides on the booking that it has read is a function of its own, for the
write may come later and meet another row.
-/

namespace BookingSystem.Service

open Base
open Model (Uuid Instant BookingStatus)

/-! ### What is decided on the booking that was read -/

/-- An `UpdateRequest`; a zero time or a nil pointer is `none`. -/
structure UpdateRequest where
  bookingId : Uuid
  newStart : Option Instant := none
  newEnd : Option Instant := none
  meetingUrl : Option String := none
  title : Option String := none
  deriving DecidableEq, Repr

def UpdateRequest.newWindow (req : UpdateRequest) (b : Booking) : Option (Instant × Instant) :=
  match req.newStart, req.newEnd with
  | some start, some finish => if start = b.startTime ∧ finish = b.endTime then none else some (start, finish)
  | _, _ => none

/-- The input of the validator for a booking that moves. -/
def moveInput (b : Booking) (window : Instant × Instant) : ValidationInput where
  tenantId := b.tenantId
  userId := b.userId
  resourceId := b.resourceId
  start := window.1
  finish := window.2
  excludeBookingId := b.id

def Booking.move (b : Booking) (window : Instant × Instant) (requiresApproval : Bool) : Booking :=
  { b with
    status := if requiresApproval && b.status == .confirmed then .pendingApproval else b.status
    startTime := window.1
    endTime := window.2 }

def Booking.retitle (b : Booking) (req : UpdateRequest) : Booking :=
  { b with meetingUrl := req.meetingUrl.getD b.meetingUrl, title := req.title.getD b.title }

/-- `UpdateBookingUseCase.Execute` up to the `Save`; `check` is the validator. -/
def updated (check : ValidationInput → Except CallError ValidationResult) (req : UpdateRequest) (b : Booking) :
    Except CallError Booking := do
  require (b.status != .cancelled && b.status != .noShow) (.rejected "cannot update a cancelled or expired booking")
  match req.newWindow b with
  | none => pure (b.retitle req)
  | some window => do
    require (window.1 < window.2) (.rejected "end must be after start")
    let vres ← check (moveInput b window)
    pure ((b.move window vres.requiresApproval).retitle req)

/-- What `Approve` does with the booking: it confirms one that is pending, and only records the decision when it is
confirmed already. -/
def approveNeeded (b : Booking) : Except CallError Bool :=
  match b.status with
  | .pendingApproval => .ok true
  | .confirmed => .ok false
  | _ => .error (.rejected "booking is not pending approval")

def rejectable (b : Booking) : Except CallError Unit :=
  require (b.status == .pendingApproval || b.status == .confirmed)
    (.rejected "booking cannot be rejected from its current status")

def Booking.checkIn (b : Booking) (now : Instant) : Booking := { b with status := .checkedIn, checkedInAt := some now }

def Booking.miss (b : Booking) : Booking := { b with status := .noShow }

def releasable (b : Booking) : Bool := b.status == .confirmed && b.checkedInAt.isNone

/-- The booking that `MarkAsException` saves. -/
def excepted (reason : String) (b : Booking) : Except CallError Booking := do
  require (b.status != .checkedIn) (.rejected "cannot mark a checked-in booking as an exception")
  pure { b with status := .exception, exceptionNotes := reason }

/-! ### Check-in tokens -/

/-- A row of `checkin_tokens`. -/
structure CheckinToken where
  token : String
  tenantId : Uuid
  bookingId : Uuid
  expiresAt : Instant
  consumedAt : Option Instant := none
  deriving DecidableEq, Repr

instance : Keyed CheckinToken String := ⟨CheckinToken.token⟩

@[simp] theorem key_checkinToken (c : CheckinToken) : (key c : String) = c.token := rfl

/-- The checks of `Redeem` on its token. -/
def usable (tokens : Table CheckinToken) (token : String) (now : Instant) : Except CallError CheckinToken := do
  require (token != "") (.rejected "missing token")
  let c ← found (tokens.find? token) (.rejected "token not found")
  require c.consumedAt.isNone (.rejected "token already used")
  require (now ≤ c.expiresAt) (.rejected "token expired")
  pure c

def ofToken (t : Table Booking) (c : CheckinToken) : Except CallError Booking := do
  let b ← findById t c.bookingId
  require (b.tenantId == "" || b.tenantId == c.tenantId) (.rejected "token tenant mismatch")
  pure b

def consume (tokens : Table CheckinToken) (token : String) (now : Instant) : Table CheckinToken :=
  tokens.update (fun c => decide (c.token = token) && c.consumedAt.isNone) fun c => { c with consumedAt := some now }

/-! ### The calls, one at a time -/

variable (admits : Booking → Bool) (t : Table Booking)

/-- `UpdateBookingUseCase.Execute`. -/
def execute (p : Policy) (resources : Table Resource) (req : UpdateRequest) : Except CallError (Table Booking) := do
  let b ← findById t req.bookingId
  let b' ← updated (validate p resources t) req b
  save admits t b'

/-- `UpdateBookingUseCase.Cancel`: a cancelled booking is left alone. -/
def cancelBooking (bookingId : Uuid) (reason : String) : Except CallError (Table Booking) := do
  let b ← findById t bookingId
  if b.status = .cancelled then pure t else cancel admits t bookingId reason

/-- `ApprovalUseCase.Approve`. -/
def approve (bookingId : Uuid) : Except CallError (Table Booking) := do
  let b ← findById t bookingId
  let needed ← approveNeeded b
  if needed then updateStatus admits t bookingId .confirmed "" else pure t

/-- `ApprovalUseCase.Reject`. -/
def reject (bookingId : Uuid) (reason : String) : Except CallError (Table Booking) := do
  require (reason != "") (.rejected "rejection reason is required")
  let b ← findById t bookingId
  rejectable b
  updateStatus admits t bookingId .cancelled ("Rejected: " ++ reason)

/-- `CheckinUseCase.IssueToken`; without a time limit the token is good for a day. -/
def issueToken (tokens : Table CheckinToken) (tenantId bookingId : Uuid) (validUntil : Option Instant) (now : Instant)
    (random : String) : Except CallError (Table CheckinToken) :=
  found (tokens.insert? ⟨random, tenantId, bookingId, validUntil.getD (now + 24 * 3600 * 1000), none⟩) .database

/-- `CheckinUseCase.Redeem`. -/
def redeem (tokens : Table CheckinToken) (token : String) (now : Instant) :
    Except CallError (Table Booking × Table CheckinToken) := do
  let c ← usable tokens token now
  let b ← ofToken t c
  let bookings ← save admits t (b.checkIn now)
  pure (bookings, consume tokens token now)

/-- `ManageBookingStatusUseCase.UpdateCheckInStatus`. -/
def updateCheckInStatus (bookingId : Uuid) (isCheckIn : Bool) (now : Instant) : Except CallError (Table Booking) := do
  let b ← findById t bookingId
  save admits t (if isCheckIn then b.checkIn now else b.miss)

/-- `ManageBookingStatusUseCase.MarkAsException`. -/
def markAsException (bookingId : Uuid) (reason : String) : Except CallError (Table Booking) := do
  let b ← findById t bookingId
  let b' ← excepted reason b
  save admits t b'

/-- One candidate of `Tick`; a `Save` that fails is passed over. -/
def release (t : Table Booking) (b : Booking) : Table Booking :=
  if releasable b then (save admits t b.miss).toOption.getD t else t

def tick (candidates : List Booking) : Table Booking := candidates.foldl (release admits) t

/-! ### Calls one after another

The calls of the service that change an existing booking, as steps of one store. A call that ends with an error leaves
the bookings as they were; the decision on a step is kept even then, for it goes through the pool. -/

structure Store where
  bookings : Table Booking
  resources : Table Resource
  steps : Table Step
  rules : List Rule
  tokens : Table CheckinToken

/-- What the calls depend on: the rows that the database admits, the functions on texts, and the query for confirmed
bookings that started before an instant and have not been checked in, which lists rows as they are. -/
structure Setup where
  admits : Booking → Bool
  strings : Strings
  listUncheckedConfirmed : Table Booking → Instant → List Booking
  current : ∀ (t : Table Booking) (before : Instant), ∀ b ∈ listUncheckedConfirmed t before, t.find? b.id = some b

inductive Call
  | execute (p : Policy) (req : UpdateRequest)
  | cancel (bookingId : Uuid) (reason : String)
  | approve (bookingId : Uuid)
  | reject (bookingId : Uuid) (reason : String)
  | decide (bookingId : Uuid) (decider : User) (d : Decision) (reason : String) (now : Instant)
  | issueToken (tenantId bookingId : Uuid) (validUntil : Option Instant) (now : Instant) (random : String)
  | redeem (token : String) (now : Instant)
  | updateCheckInStatus (bookingId : Uuid) (isCheckIn : Bool) (now : Instant)
  | markAsException (bookingId : Uuid) (reason : String)
  | tick (gracePeriod now : Instant)

variable (c : Setup)

def Store.settleBookings (s : Store) (r : Except CallError (Table Booking)) : Store :=
  { s with bookings := r.toOption.getD s.bookings }

/-- `ApprovalChainUseCase.Decide`. -/
def decideStep (s : Store) (bookingId : Uuid) (decider : User) (d : Decision) (reason : String) (now : Instant) :
    Store :=
  let steps := listByBooking s.steps bookingId
  match pick c.strings s.rules steps decider with
  | .error _ => s
  | .ok picked =>
    let s' := { s with steps := updateDecision s.steps picked.id d decider.id reason now }
    s'.settleBookings (afterDecision c.admits s.bookings bookingId steps picked d reason)

def step (s : Store) : Call → Store
  | .execute p req => s.settleBookings (execute c.admits s.bookings p s.resources req)
  | .cancel bookingId reason => s.settleBookings (cancelBooking c.admits s.bookings bookingId reason)
  | .approve bookingId => s.settleBookings (approve c.admits s.bookings bookingId)
  | .reject bookingId reason => s.settleBookings (reject c.admits s.bookings bookingId reason)
  | .decide bookingId decider d reason now => decideStep c s bookingId decider d reason now
  | .issueToken tenantId bookingId validUntil now random =>
    { s with tokens := (issueToken s.tokens tenantId bookingId validUntil now random).toOption.getD s.tokens }
  | .redeem token now =>
    match redeem c.admits s.bookings s.tokens token now with
    | .ok r => { s with bookings := r.1, tokens := r.2 }
    | .error _ => s
  | .updateCheckInStatus bookingId isCheckIn now =>
    s.settleBookings (updateCheckInStatus c.admits s.bookings bookingId isCheckIn now)
  | .markAsException bookingId reason => s.settleBookings (markAsException c.admits s.bookings bookingId reason)
  | .tick gracePeriod now =>
    { s with bookings := tick c.admits s.bookings (c.listUncheckedConfirmed s.bookings (now - gracePeriod)) }

end BookingSystem.Service
