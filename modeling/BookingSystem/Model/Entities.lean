import BookingSystem.Base.Table
import Mathlib.Data.Int.Basic

/-!
# The rows of the booking store

The entities of the TypeScript backend with the columns its booking, check-in and approval services read or
write, the settings those services consult (`Env`), and the store they write to (`Store`). Ids are the uuid
texts of the source, instants are milliseconds since the epoch, and a calendar date `YYYY-MM-DD` is the number
of its day (day `0` is 1 January 1970).
-/

namespace BookingSystem.Model

open Base

abbrev Uuid := String
abbrev Instant := ℤ
abbrev Day := ℤ

/-- The exceptions a request can end with; `internal` is an error of the database itself. -/
inductive HttpError
  | badRequest (message : String)
  | unauthorized (message : String)
  | conflict (message : String)
  | forbidden (message : String)
  | notFound (message : String)
  | internal (message : String)
  deriving DecidableEq, Repr

/-! ### Bookings -/

inductive BookingStatus
  | confirmed | pendingApproval | cancelled | checkedIn | noShow | attended | exception
  deriving DecidableEq, Repr

/-- The text stored in the status column. -/
def BookingStatus.label : BookingStatus → String
  | .confirmed => "Confirmed"
  | .pendingApproval => "Pending Approval"
  | .cancelled => "Cancelled"
  | .checkedIn => "Checked In"
  | .noShow => "No Show"
  | .attended => "Attended"
  | .exception => "Exception"

/-- `'Cancelled'` and `'No Show'`: the conflict checks look past such a booking. -/
def BookingStatus.released : BookingStatus → Bool
  | .cancelled | .noShow => true
  | _ => false

inductive BookingMode
  | exclusive | shared
  deriving DecidableEq, Repr

/-- An answer to a custom booking-form question. -/
inductive FieldValue
  | null
  | text (s : String)
  | number (n : ℤ)
  | flag (b : Bool)
  | items (l : List String)
  deriving DecidableEq, Repr

/-- A JSON object with such answers, keys in insertion order. -/
abbrev FieldValues := List (String × FieldValue)

/-- The names that every plain object of the runtime has without holding them itself. -/
def inheritedNames : List String :=
  ["constructor", "__defineGetter__", "__defineSetter__", "hasOwnProperty", "__lookupGetter__", "__lookupSetter__",
    "isPrototypeOf", "propertyIsEnumerable", "toString", "valueOf", "__proto__", "toLocaleString"]

structure Booking where
  id : Uuid
  tenantId : Uuid
  resourceId : Uuid
  userId : Uuid
  startTime : Instant
  endTime : Instant
  status : BookingStatus
  title : String := ""
  meetingUrl : String := ""
  exceptionNotes : String := ""
  bookingMode : BookingMode := .exclusive
  customFieldValues : Option FieldValues := none
  services : Option (List String) := none
  attendees : Option (List String) := none
  costCenterCode : Option String := none
  delegatedTo : Option Uuid := none
  isPrivate : Bool := false
  isRecurring : Bool := false
  recurrenceId : Option Uuid := none
  checkedInAt : Option Instant := none
  checkinToken : Option String := none
  checkinTokenExpiresAt : Option Instant := none
  version : ℤ := 0
  deriving DecidableEq, Repr

instance : Keyed Booking Uuid := ⟨Booking.id⟩

@[simp] theorem key_booking (b : Booking) : (key b : Uuid) = b.id := rfl

/-! ### Resources -/

inductive CompositeMode
  | standalone | parent | child
  deriving DecidableEq, Repr

structure DayWindow where
  openAt : String
  closeAt : String
  deriving DecidableEq, Repr

/-- Opening hours: a window or `none` (closed) for each weekday, `0` = Sunday, or the legacy single window. -/
structure OperatingHours where
  days : Option (ℕ → Option DayWindow) := none
  openAt : Option String := none
  closeAt : Option String := none

structure CustomField where
  fieldKey : String
  label : Option String := none
  required : Bool := false
  deriving DecidableEq, Repr

structure RuleOverrides where
  minDurationMinutes : Option ℤ := none
  maxDurationMinutes : Option ℤ := none
  bookingHorizonDays : Option ℤ := none
  graceMinutes : Option Rat := none
  requiresApproval : Option Bool := none
  deriving DecidableEq, Repr

structure Resource where
  id : Uuid
  tenantId : Uuid
  name : String := ""
  location : Option String := none
  region : Option String := none
  assetType : String := "Meeting Room"
  capacity : ℤ := 0
  isActive : Bool := true
  isRestricted : Bool := false
  requiresApproval : Bool := false
  parentResourceId : Option Uuid := none
  compositeMode : CompositeMode := .standalone
  departmentId : Option Uuid := none
  bookingMode : BookingMode := .exclusive
  sharedCapacity : ℤ := 1
  operatingHours : Option OperatingHours := none
  customFields : List CustomField := []
  ruleOverrides : Option RuleOverrides := none
  costCenterCode : Option String := none

instance : Keyed Resource Uuid := ⟨Resource.id⟩

@[simp] theorem key_resource (r : Resource) : (key r : Uuid) = r.id := rfl

/-! ### People -/

structure User where
  id : Uuid
  tenantId : Uuid
  username : String := ""
  role : String
  grade : Option String := none
  isActive : Bool := true
  managerId : Option Uuid := none
  departments : List Uuid := []
  deriving DecidableEq, Repr

instance : Keyed User Uuid := ⟨User.id⟩

/-- The user a request runs for, as the session token names it. -/
structure AuthUser where
  id : Uuid
  tenantId : Uuid
  role : String
  grade : Option String := none
  deriving DecidableEq, Repr

structure Department where
  id : Uuid
  tenantId : Uuid
  headUserId : Option Uuid := none
  deriving DecidableEq, Repr

instance : Keyed Department Uuid := ⟨Department.id⟩

namespace Roles

def systemAdmin : String := "System Admin"
def securityAdmin : String := "Security Admin"
def roomAdmin : String := "Room Admin"
def secretary : String := "Secretary"

end Roles

/-- Any admin-tier role. -/
def adminRoles : List String := [Roles.systemAdmin, Roles.securityAdmin, Roles.roomAdmin, Roles.secretary]

def isAdmin (role : String) : Bool := adminRoles.contains role

/-! ### Approval rules and chains -/

inductive ApprovalScopeType
  | assetType | resource | department | tenant
  deriving DecidableEq, Repr

inductive ApproverType
  | user | role | manager | departmentHead
  deriving DecidableEq, Repr

structure ApprovalLevel where
  name : String
  approverType : Option ApproverType := none
  approverUserIds : List Uuid := []
  approverRole : String := ""
  minGrade : String := ""
  autoAfterHours : ℤ := 0
  dependencies : List ℤ := []
  requireAll : Bool := false
  deriving DecidableEq, Repr

structure ApprovalRule where
  id : Uuid
  tenantId : Uuid
  name : String := ""
  scopeType : ApprovalScopeType
  scopeValue : String := ""
  priority : ℤ := 100
  levels : List ApprovalLevel
  isActive : Bool := true
  deriving DecidableEq, Repr

instance : Keyed ApprovalRule Uuid := ⟨ApprovalRule.id⟩

inductive ApprovalStepStatus
  | pending | approved | rejected | skipped
  deriving DecidableEq, Repr

/-- One level of a rule on one booking. -/
structure ApprovalStep where
  id : Uuid
  tenantId : Uuid
  bookingId : Uuid
  ruleId : Option Uuid
  stepIndex : ℕ
  levelName : String
  approverIds : List Uuid := []
  approverRole : String := ""
  minGrade : String := ""
  status : ApprovalStepStatus := .pending
  decidedBy : Option Uuid := none
  decisionAt : Option Instant := none
  reason : String := ""
  dueAt : Option Instant := none
  requireAll : Bool := false
  approvedBy : List Uuid := []
  delegatedTo : Option Uuid := none
  delegatedBy : Option Uuid := none
  delegatedAt : Option Instant := none
  createdAt : Instant
  deriving DecidableEq, Repr

instance : Keyed ApprovalStep Uuid := ⟨ApprovalStep.id⟩

@[simp] theorem key_step (s : ApprovalStep) : (key s : Uuid) = s.id := rfl

/-- What an approver decides. -/
inductive ApprovalDecision
  | approved | rejected
  deriving DecidableEq, Repr

/-- The step status a decision leads to. -/
def ApprovalDecision.stepStatus : ApprovalDecision → ApprovalStepStatus
  | .approved => .approved
  | .rejected => .rejected

/-- A decision on record; the approver is absent for a decision of the system. -/
structure Approval where
  tenantId : Uuid
  bookingId : Uuid
  approverId : Option Uuid
  decision : ApprovalDecision
  reason : String
  decidedAt : Instant
  deriving DecidableEq, Repr

/-! ### Settings and store -/

/-- The offset of a time zone from UTC, in milliseconds, at every instant. -/
abbrev Zone := Instant → ℤ

structure Customization where
  timezone : Option String := none
  minDurationMinutes : Option ℤ := none
  maxDurationMinutes : Option ℤ := none
  bookingHorizonDays : Option ℤ := none
  blackoutDates : List Day := []
  costCenters : List String := []
  autoReleaseEnabled : Option Bool := none
  autoReleaseGraceMinutes : Option Rat := some 15

structure Holiday where
  tenantId : Uuid
  holidayDate : Day
  name : String := ""
  region : String := ""
  isBlocker : Bool := true
  deriving DecidableEq, Repr

structure RolePermission where
  tenantId : Uuid
  role : String
  permissions : List String
  deriving DecidableEq, Repr

/-- Everything the services read and none of the modelled operations writes. `zones` are the time zones the
runtime knows, `toLowerCase` is the runtime's case mapping, and the last two fields are the process settings
`AUTO_RELEASE_ENABLED` and `AUTO_RELEASE_GRACE_MINUTES`. -/
structure Env where
  resources : Table Resource
  users : Table User
  departments : Table Department
  rules : Table ApprovalRule
  customization : Uuid → Customization
  holidays : List Holiday
  rolePermissions : List RolePermission
  zones : String → Option Zone
  toLowerCase : String → String
  envEnabled : Bool
  envGraceMinutes : ℤ

namespace Env

variable (env : Env)

/-- `resources.findOne({ where: { id, tenantId } })`. -/
def resource (tenantId id : Uuid) : Option Resource :=
  (env.resources.find? id).filter fun r => r.tenantId == tenantId

/-- `users.findOne({ where: { id, tenantId } })`. -/
def user (tenantId id : Uuid) : Option User :=
  (env.users.find? id).filter fun u => u.tenantId == tenantId

/-- `departments.findOne({ where: { id, tenantId } })`. -/
def department (tenantId id : Uuid) : Option Department :=
  (env.departments.find? id).filter fun d => d.tenantId == tenantId

variable {env}

theorem resource_eq_some {tenantId id : Uuid} {r : Resource} :
    env.resource tenantId id = some r ↔ r ∈ env.resources.rows ∧ r.id = id ∧ r.tenantId = tenantId := by
  simp [resource, Option.filter_eq_some_iff, Table.find?_eq_some_iff, and_assoc]

end Env

/-- The tables the operations write. -/
structure Store where
  bookings : Table Booking
  steps : Table ApprovalStep
  approvals : List Approval

/-- A store without bookings. -/
def Store.empty : Store := ⟨.empty, .empty, []⟩

/-- `bookings.findOne({ where: { id, tenantId } })`. -/
def findBooking (bookings : Table Booking) (tenantId id : Uuid) : Option Booking :=
  (bookings.find? id).filter fun b => b.tenantId == tenantId

theorem findBooking_eq_some {bookings : Table Booking} {tenantId id : Uuid} {b : Booking} :
    findBooking bookings tenantId id = some b ↔ bookings.find? id = some b ∧ b.tenantId = tenantId := by
  simp [findBooking, Option.filter_eq_some_iff]

/-- The characters `String.prototype.trim` removes, by code point. -/
def isSpace (c : Char) : Bool :=
  [9, 10, 11, 12, 13, 32, 160, 5760, 8232, 8233, 8239, 8287, 12288, 65279].contains c.toNat ||
    (8192 ≤ c.toNat && c.toNat ≤ 8202)

/-- `String.prototype.trim`. -/
def trim (s : String) : String :=
  String.ofList ((s.toList.dropWhile isSpace).reverse.dropWhile isSpace).reverse

end BookingSystem.Model
