import BookingSystem.Service.Session
import Mathlib.Data.List.Infix

/-!
# Creating a booking

`CreateBookingUseCase.ExecuteRequest` and the handler that calls it, statement by statement on the connections of the
request. Every error after the first row is wrapped as an internal one, which the handler answers with 500.
-/

namespace BookingSystem.Service

open Base
open Model (Uuid Instant BookingStatus BookingMode)

structure ServiceRequest where
  serviceId : Uuid
  quantity : ℤ
  notes : String := ""
  deriving DecidableEq, Repr

/-- The request of a booking. -/
structure CreateRequest where
  tenantId : Uuid
  resourceId : Uuid
  userId : Uuid
  start : Instant
  finish : Instant
  meetingUrl : String := ""
  title : String := ""
  isPrivate : Bool := false
  services : List ServiceRequest := []
  deriving DecidableEq, Repr

/-- The result of a creation. -/
structure CreateResult where
  bookingId : Uuid
  status : BookingStatus
  requiresApproval : Bool
  redirectUrl : String
  deriving DecidableEq, Repr

/-- What a creation depends on: what the database admits, the rules for windows, the resources, the approval rules of a
tenant by priority, a limit if one is wired, and the clock. -/
structure CreateSetup where
  admits : Booking → Bool
  admitsLine : ServiceLine → Bool
  admitsStep : Step → Bool
  policy : Policy
  resources : Table Resource
  rules : Uuid → List Rule
  withinLimit : Option (Uuid → Uuid → Except String (Bool × ℤ)) := none
  zoomMaskBase : String := ""
  now : Instant

def asInternal (what : String) : CallError → CallError
  | .database => .internal what
  | e => e

def wrapInternal (what : String) (_ : CallError) : CallError := .internal what

variable (c : CreateSetup) (broken : ℕ → Bool)

/-! ### The rules on the request -/

def checkQuantities (services : List ServiceRequest) : Except CallError Unit :=
  match services.find? fun s => decide (s.quantity ≤ 0) with
  | some s => .error (.rejected ("booking rejected: service " ++ s.serviceId ++ " quantity must be positive"))
  | none => pure ()

/-- The limit of active bookings, if a checker is wired. -/
def checkLimit (tenantId userId : Uuid) : Except CallError Unit :=
  match c.withinLimit with
  | none => pure ()
  | some within =>
    if tenantId = "" then pure ()
    else match within tenantId userId with
      | .error e => .error (.internal ("could not verify booking limit: " ++ e))
      | .ok (ok, limit) => require ok
          (.rejected ("booking rejected: user has reached the active-booking limit (" ++ toString limit ++ ")"))

def checkRequest (req : CreateRequest) : Except CallError Unit := do
  require (decide (req.start < req.finish)) (.rejected "booking end must be after start")
  require (decide (c.now - 60000 ≤ req.start)) (.rejected "booking start must be in the future")
  checkQuantities req.services

def CreateRequest.input (req : CreateRequest) : ValidationInput where
  tenantId := req.tenantId
  userId := req.userId
  resourceId := req.resourceId
  start := req.start
  finish := req.finish

/-! ### The validator on the connections of the request -/

/-- The third rule: a shared resource is locked before its bookings are counted, and the overlap check is one query. -/
def checkSlotOn (resource : Option Resource) (input : ValidationInput) : Req Unit := do
  if resource.any Resource.isShared then
    Prog.mapError (asInternal "capacity check failed") (query broken fun _ => ())
    let t ← Prog.mapError (asInternal "capacity check failed") (query broken Pinned.bookings)
    Prog.lift (checkSlot c.resources t resource input)
  else if input.excludeBookingId = "" then
    let t ← Prog.mapError (asInternal "conflict check failed") (query broken Pinned.bookings)
    Prog.lift (checkSlot c.resources t resource input)

def privilegeOn (resource : Option Resource) (input : ValidationInput) : Req Privilege := do
  let user ← Prog.attempt (query broken fun _ => ())
  let groups ← Prog.attempt (poolQuery broken (.ok ()))
  pure (if user.toBool && groups.toBool then privilegeFor c.policy resource input else {})

/-- `Validate`. -/
def validateOn (input : ValidationInput) : Req ValidationResult := do
  Prog.mapError (asInternal "system error verifying calendar dates")
    (poolQuery broken (checkHoliday c.policy input.start))
  let looked ← Prog.attempt (poolQuery broken (.ok (c.policy.resource c.resources input.resourceId)))
  let resource := looked.toOption.join
  Prog.lift (checkActive resource)
  checkSlotOn c broken resource input
  let privilege ← privilegeOn c broken resource input
  Prog.lift (require (!privilege.deny) (.rejected ("booking rejected: " ++ privilege.reason)))
  pure ⟨resource, resource.any Resource.requiresApproval || privilege.forceApproval⟩

/-! ### Writing the booking -/

/-- `MaskMeetingURL`, unless a base for masked links is configured. -/
def maskedUrl (req : CreateRequest) : String :=
  if req.meetingUrl = "" then ""
  else if c.zoomMaskBase = "" then "https://ess.hkfsd.hksarg/redirect?target=" ++ req.meetingUrl
  else c.zoomMaskBase ++ "?target=" ++ req.meetingUrl

/-- The booking that is persisted. -/
def newBooking (id : Uuid) (req : CreateRequest) (vres : ValidationResult) : Booking where
  id := id
  tenantId := req.tenantId
  resourceId := req.resourceId
  userId := req.userId
  startTime := req.start
  endTime := req.finish
  status := if vres.requiresApproval then .pendingApproval else .confirmed
  meetingUrl := req.meetingUrl
  redirectUrl := maskedUrl c req
  version := 1
  createdAt := c.now
  bookingMode := some (if vres.resource.any Resource.isShared then .shared else .exclusive)
  title := req.title
  isPrivate := req.isPrivate

def ServiceRequest.line (bookingId : Uuid) (s : ServiceRequest) : ServiceLine where
  bookingId := bookingId
  serviceId := s.serviceId
  quantity := s.quantity
  notes := s.notes

/-- `Materialize`: the number of the levels of the rule that applies. -/
def materialize (b : Booking) (res : Resource) (stepId : ℕ → Uuid) : Req ℕ := do
  let rules ← poolQuery broken (.ok (c.rules b.tenantId))
  match matchRule rules res with
  | none => pure 0
  | some rule => do
    (stepsFor b.tenantId b.id rule c.now stepId).forM (saveStep broken c.admitsStep)
    pure rule.levels.length

/-- The chain of a booking whose resource is known, and whether the booking waits for it. -/
def processChain (b : Booking) (resource : Option Resource) (stepId : ℕ → Uuid) : Req Bool :=
  match resource with
  | none => pure false
  | some res => do
    let levels ← Prog.mapError (wrapInternal "could not process approval chain") (materialize c broken b res stepId)
    if 0 < levels ∧ b.status ≠ .pendingApproval then do
      Prog.mapError (wrapInternal "could not set approval status")
        (updateBookingStatus broken c.admits b.id .pendingApproval "")
      pure true
    else pure false

def persistError : CallError → CallError
  | .concurrencyConflict => .concurrencyConflict
  | _ => .internal "failed to persist booking"

/-- What is written once the validator has accepted the booking. -/
def persist (b : Booking) (vres : ValidationResult) (services : List ServiceRequest) (stepId : ℕ → Uuid) :
    Req CreateResult := do
  Prog.mapError persistError (saveBooking broken c.admits b)
  services.forM fun s => Prog.mapError (wrapInternal ("could not attach service " ++ s.serviceId))
    (addServiceToBooking broken c.admitsLine (s.line b.id))
  let waits ← processChain c broken b vres.resource stepId
  pure ⟨b.id, if waits then .pendingApproval else b.status, vres.requiresApproval || waits, b.redirectUrl⟩

def executeRequest (req : CreateRequest) (id : Uuid) (stepId : ℕ → Uuid) : Req CreateResult := do
  Prog.lift (checkRequest c req)
  Prog.lift (checkLimit c req.tenantId req.userId)
  let vres ← validateOn c broken req.input
  persist c broken (newBooking c id req vres) vres req.services stepId

/-! ### The handler -/

def containsText (s part : String) : Bool := decide (part.toList <:+: s.toList)

/-- The status that `CreateBooking` answers an error with. -/
def CallError.httpStatus : CallError → ℕ
  | .internal _ => 500
  | .concurrencyConflict => 409
  | .rejected message =>
    if containsText message "rejected: a scheduling conflict" || containsText message "already at capacity" ||
      containsText message "optimistic locking" then 409
    else if containsText message "must be" || containsText message "is inactive" ||
      containsText message "designated public holiday" || containsText message "active-booking limit" then 422
    else if containsText message "check failed" then 503
    else 400
  | .noRows | .database => 400

/-- `CreateBooking` for a single booking, and whether the request may be committed: the audit entry may spoil the
transaction, and what comes after it may fail the request. -/
def createBooking (req : CreateRequest) (id : Uuid) (stepId : ℕ → Uuid) (auditSpoils laterFails : Bool)
    (s : Session) : Bool × Session :=
  let r := (executeRequest c broken req id stepId).on s
  let status := match r.1 with
    | .ok _ => 201
    | .error e => e.httpStatus
  (decide (status < 500) && !laterFails, { r.2 with aborted := r.2.aborted || auditSpoils })

end BookingSystem.Service
