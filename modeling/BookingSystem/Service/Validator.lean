import BookingSystem.Service.Bookings

/-!
# `BookingValidator` and the privilege matrix

The rules for the window of a booking: holidays, the resource and whether it is active, conflicts or the shared
capacity, and the role's row in the privilege matrix. What the rules consult is the `Policy` of a call.
-/

namespace BookingSystem.Service

open Base
open Model (Uuid Instant)

/-- The functions of package `strings` on which texts are compared. -/
structure Strings where
  equalFold : String → String → Bool
  toUpper : String → String
  trimSpace : String → String

structure User where
  id : Uuid
  role : String
  grade : String := ""
  deriving DecidableEq, Repr

/-- A row of the privilege matrix, with its locations decoded. -/
structure LocationGroup where
  name : String
  locations : List String
  filterBy : String
  deriving DecidableEq, Repr

/-- What a call consults besides bookings and resources. A user or the groups may be unavailable, the calendar may fail,
and so may the lookup of a resource. -/
structure Policy where
  strings : Strings
  user : Uuid → Option User
  groups : Uuid → Option (List LocationGroup)
  isDateHoliday : Instant → Except String Bool
  answersLookup : Bool := true

/-- `GetByID` of the resource repository, whose error is ignored. -/
def Policy.resource (p : Policy) (resources : Table Resource) (id : Uuid) : Option Resource :=
  if p.answersLookup then resources.find? id else none

/-! ### The privilege matrix -/

/-- The verdict of `Evaluate`. -/
structure Privilege where
  forceApproval : Bool := false
  deny : Bool := false
  reason : String := ""
  deriving DecidableEq, Repr

def containsFold (s : Strings) (list : List String) (v : String) : Bool :=
  list.any fun x => s.equalFold (s.trimSpace x) (s.trimSpace v)

/-- `Evaluate`: nothing is restricted for a user, a role or a matrix that is not known. -/
def evaluate (p : Policy) (tenantId userId : Uuid) (resourceLocation : String) : Privilege :=
  match p.user userId with
  | none => {}
  | some u =>
    if u.role = "" then {}
    else match ((p.groups tenantId).getD []).find? fun g => g.name == "role:" ++ u.role with
      | none => {}
      | some row =>
        if row.locations ≠ [] ∧ containsFold p.strings row.locations "All Floors / Locations" = false ∧
            resourceLocation ≠ "" ∧ containsFold p.strings row.locations resourceLocation = false then
          { deny := true
            reason := "role \"" ++ u.role ++ "\" is not assigned to location \"" ++ resourceLocation ++ "\"" }
        else { forceApproval := row.filterBy == "One-Layer Supervisor Review" ||
                row.filterBy == "VIP Restricted Authentication" }

/-! ### The rules -/

structure ValidationInput where
  tenantId : Uuid
  userId : Uuid
  resourceId : Uuid
  start : Instant
  finish : Instant
  excludeBookingId : Uuid := ""
  deriving DecidableEq, Repr

structure ValidationResult where
  resource : Option Resource
  requiresApproval : Bool
  deriving DecidableEq, Repr

def Resource.cap (r : Resource) : ℤ :=
  if 0 < r.sharedCapacity then r.sharedCapacity else if 0 < r.capacity then r.capacity else 1

def checkHoliday (p : Policy) (start : Instant) : Except CallError Unit :=
  match p.isDateHoliday start with
  | .error e => .error (.internal ("system error verifying calendar dates: " ++ e))
  | .ok isHoliday => require (!isHoliday)
      (.rejected "booking rejected: the selected date is a designated public holiday")

def checkActive (resource : Option Resource) : Except CallError Unit :=
  require (resource.all Resource.isActive) (.rejected "booking rejected: resource is inactive")

/-- The third rule: the capacity of a shared resource, else the overlap check, which is made for new bookings only. -/
def checkSlot (resources : Table Resource) (t : Table Booking) (resource : Option Resource) (input : ValidationInput) :
    Except CallError Unit :=
  match resource.filter Resource.isShared with
  | some r =>
    let count := countConcurrent t input.resourceId input.start input.finish input.excludeBookingId
    require (decide ((count : ℤ) < r.cap)) (.rejected ("booking rejected: this slot is already at capacity (" ++
      toString count ++ " / " ++ toString r.cap ++ ")"))
  | none => require (input.excludeBookingId != "" || !hasConflict resources t input.resourceId input.start input.finish)
      (.rejected "booking rejected: a scheduling conflict was detected")

def privilegeFor (p : Policy) (resource : Option Resource) (input : ValidationInput) : Privilege :=
  if input.tenantId = "" then {}
  else evaluate p input.tenantId input.userId ((resource.map Resource.location).getD "")

/-- `Validate`. -/
def validate (p : Policy) (resources : Table Resource) (t : Table Booking) (input : ValidationInput) :
    Except CallError ValidationResult := do
  checkHoliday p input.start
  let resource := p.resource resources input.resourceId
  checkActive resource
  checkSlot resources t resource input
  let privilege := privilegeFor p resource input
  require (!privilege.deny) (.rejected ("booking rejected: " ++ privilege.reason))
  pure ⟨resource, resource.any Resource.requiresApproval || privilege.forceApproval⟩

end BookingSystem.Service
