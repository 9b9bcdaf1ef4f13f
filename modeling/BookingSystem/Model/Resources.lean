import BookingSystem.Model.Calendar
import Mathlib.Algebra.Ring.Int.Defs

/-!
# `ResourcesService`: the editor of rooms

Rooms are created and edited one row at a time. The request may list the parts of a split room, and the service then
brings the rows under it into line: it edits the parts of the same names, creates the ones that are new and deactivates
the rest. A request runs in one transaction, so a request that is rejected leaves nothing behind.
-/

namespace BookingSystem.Model.ResourcesService

open Base

/-! ### Objects of the runtime -/

/-- What a property of an object holds. -/
inductive Slot (α : Type)
  | undefined
  | null
  | value (a : α)

section Slots

variable {α : Type}

def Slot.get? : Slot α → Option α
  | value a => some a
  | _ => none

def Slot.ofOption : Option α → Slot α
  | some a => value a
  | none => null

/-- `x ?? …`. A property is `none` when its object has no such key. -/
def given (p : Option (Slot α)) : Option α := p.bind Slot.get?

/-- What a column that takes no null holds after a row was saved: a property that is undefined is not written. -/
def column (p : Option (Slot α)) (old : α) : Except HttpError α :=
  match p with
  | some (.value a) => .ok a
  | some .null => .error (.internal "null value violates not-null constraint")
  | _ => .ok old

/-- The same for a column that takes null. -/
def nullable (p : Option (Slot α)) (old : Option α) : Option α :=
  match p with
  | some (.value a) => some a
  | some .null => none
  | _ => old

/-- What the object that was saved holds in the property, where the column holds `stored`. -/
def held (p : Option (Slot α)) (stored : Option α) : Option α :=
  match p with
  | some .undefined => none
  | _ => stored

end Slots

/-! ### Rows and requests -/

structure ResourceRow extends Resource where
  equipment : Option (List String) := none

instance : Keyed ResourceRow Uuid := ⟨fun r => r.id⟩

@[simp] theorem key_resourceRow (r : ResourceRow) : (key r : Uuid) = r.id := rfl

/-- A part of a split room in a request; a property that is null or undefined is `none`. -/
structure SubResourceWrite where
  name : String
  capacity : Option ℤ := none
  equipment : Option (List String) := none
  requiresApproval : Option Bool := none

structure ResourceWriteDto where
  name : Option (Slot String) := none
  location : Option (Slot String) := none
  region : Option (Slot String) := none
  assetType : Option (Slot String) := none
  capacity : Option (Slot ℤ) := none
  isActive : Option (Slot Bool) := none
  isRestricted : Option (Slot Bool) := none
  requiresApproval : Option (Slot Bool) := none
  parentResourceId : Option (Slot Uuid) := none
  compositeMode : Option (Slot CompositeMode) := none
  departmentId : Option (Slot Uuid) := none
  bookingMode : Option (Slot BookingMode) := none
  sharedCapacity : Option (Slot ℤ) := none
  operatingHours : Option (Slot OperatingHours) := none
  equipment : Option (Slot (List String)) := none
  customFields : Option (Slot (List CustomField)) := none
  ruleOverrides : Option (Slot RuleOverrides) := none
  costCenterCode : Option (Slot String) := none
  subResources : Option (List SubResourceWrite) := none

/-- What the service gets from the runtime and the database during a request. `newId` are the ids of the rows that are
inserted, `order` is the order in which a query without one returns its rows, and `fillsNull` says whether the mapper
has put nulls in the undefined properties of the object that it saved. -/
structure Runtime where
  toLowerCase : String → String
  now : Instant
  newId : ℕ → Uuid
  order : List ResourceRow → List ResourceRow
  order_perm : ∀ rows, (order rows).Perm rows
  fillsNull : Bool := false

/-! ### Opening hours -/

/-- `HH:mm` as minutes since midnight. -/
def hhmmToMin (v : String) : Option ℕ :=
  match v.toList with
  | [a, b, ':', c, d] => do
    let h := 10 * (← digit? a) + (← digit? b)
    let m := 10 * (← digit? c) + (← digit? d)
    if h ≤ 23 && m ≤ 59 then some (h * 60 + m) else none
  | _ => none

def validateWindow (w : DayWindow) (label : String) : Except HttpError DayWindow := do
  let openAt ← found (hhmmToMin w.openAt) (.badRequest (label ++ ": open must be HH:mm"))
  let closeAt ← found (hhmmToMin w.closeAt) (.badRequest (label ++ ": close must be HH:mm"))
  require (openAt < closeAt) (.badRequest (label ++ ": close must be after open"))
  pure w

/-- The window of each weekday that a schedule asks for, `none` when it asks for nothing. -/
def scheduleSource (input : OperatingHours) : Except HttpError (Option (ℕ → Option DayWindow)) :=
  match input.days with
  | some days => .ok (some days)
  | none =>
    if input.openAt.getD "" != "" || input.closeAt.getD "" != "" then do
      let win ← validateWindow ⟨input.openAt.getD "", input.closeAt.getD ""⟩ "operating hours"
      pure (some fun _ => some win)
    else .ok none

def normalizeOperatingHours (raw : Option OperatingHours) : Except HttpError (Option OperatingHours) :=
  match raw with
  | none => .ok none
  | some input => do
    match ← scheduleSource input with
    | none => pure none
    | some source =>
      let days ← (List.range 7).mapM fun wd =>
        match source wd with
        | none => pure none
        | some entry => do pure (some (← validateWindow entry (weekdayName wd)))
      pure (some { days := some fun wd => (days[wd]?).join })

/-- The request with its opening hours made regular. -/
def normalized (dto : ResourceWriteDto) : Except HttpError ResourceWriteDto :=
  match dto.operatingHours with
  | none => .ok dto
  | some slot => do
    let hours ← normalizeOperatingHours slot.get?
    pure { dto with operatingHours := some (.ofOption hours) }

/-! ### Writing a row -/

/-- The fields of the request; a room whose parts are listed is a parent. -/
def fieldsOf (dto : ResourceWriteDto) : ResourceWriteDto :=
  match dto.subResources with
  | some (_ :: _) => { dto with compositeMode := some (.value .parent) }
  | _ => dto

/-- The row `r` with the fields of the request. -/
def assign (fields : ResourceWriteDto) (r : ResourceRow) : Except HttpError ResourceRow := do
  let name ← column fields.name r.name
  let assetType ← column fields.assetType r.assetType
  let capacity ← column fields.capacity r.capacity
  let isActive ← column fields.isActive r.isActive
  let isRestricted ← column fields.isRestricted r.isRestricted
  let requiresApproval ← column fields.requiresApproval r.requiresApproval
  let compositeMode ← column fields.compositeMode r.compositeMode
  let bookingMode ← column fields.bookingMode r.bookingMode
  let sharedCapacity ← column fields.sharedCapacity r.sharedCapacity
  pure
    { id := r.id, tenantId := r.tenantId, name, assetType, capacity, isActive, isRestricted, requiresApproval,
      compositeMode, bookingMode, sharedCapacity
      location := nullable fields.location r.location
      region := nullable fields.region r.region
      parentResourceId := nullable fields.parentResourceId r.parentResourceId
      departmentId := nullable fields.departmentId r.departmentId
      operatingHours := nullable fields.operatingHours r.operatingHours
      equipment := nullable fields.equipment r.equipment
      customFields := (nullable fields.customFields (some r.customFields)).getD []
      ruleOverrides := nullable fields.ruleOverrides r.ruleOverrides
      costCenterCode := nullable fields.costCenterCode r.costCenterCode }

def fitsInteger (n : ℤ) : Bool := -2147483648 ≤ n && n ≤ 2147483647

def checkRow (r : ResourceRow) : Except HttpError Unit :=
  require (fitsInteger r.capacity && fitsInteger r.sharedCapacity) (.internal "value out of range for type integer")

def saveRow (table : Table ResourceRow) (r : ResourceRow) : Except HttpError (Table ResourceRow) := do
  checkRow r
  pure (table.save r)

def insertRow (table : Table ResourceRow) (r : ResourceRow) : Except HttpError (Table ResourceRow) := do
  checkRow r
  found (table.insert? r) (.internal "duplicate key value violates unique constraint")

/-! ### The parts of a split room -/

/-- The saved object as far as its parts inherit from it. -/
structure ParentObject where
  id : Uuid
  capacity : Option ℤ
  region : Option String
  location : Option String
  assetType : Option String
  equipment : Slot (List String)
  requiresApproval : Option Bool
  departmentId : Option Uuid

/-- The object after `fields` were assigned to it and `row` was saved. -/
def savedObject (rt : Runtime) (fields : ResourceWriteDto) (row : ResourceRow) : ParentObject where
  id := row.id
  capacity := held fields.capacity (some row.capacity)
  region := held fields.region row.region
  location := held fields.location row.location
  assetType := held fields.assetType (some row.assetType)
  equipment :=
    match fields.equipment with
    | some .undefined => if rt.fillsNull then .null else .undefined
    | _ => .ofOption row.equipment
  requiresApproval := held fields.requiresApproval (some row.requiresApproval)
  departmentId := held fields.departmentId row.departmentId

/-- The object after an insert, which reads the defaults back. -/
def insertedObject (row : ResourceRow) : ParentObject where
  id := row.id
  capacity := some row.capacity
  region := row.region
  location := row.location
  assetType := some row.assetType
  equipment := .ofOption row.equipment
  requiresApproval := some row.requiresApproval
  departmentId := row.departmentId

/-- `sub.equipment ?? parent.equipment`. -/
def inheritedEquipment (parent : ParentObject) (sub : SubResourceWrite) : Slot (List String) :=
  sub.equipment.elim parent.equipment .value

/-- The part that is there already, as the request wants it. -/
def patch (parent : ParentObject) (sub : SubResourceWrite) (c : ResourceRow) : ResourceRow :=
  { c with
    capacity := sub.capacity.getD c.capacity
    equipment := nullable (some (inheritedEquipment parent sub)) c.equipment
    requiresApproval := (sub.requiresApproval.or parent.requiresApproval).getD c.requiresApproval
    isActive := true }

/-- A part that is new. -/
def newChild (tenantId : Uuid) (parent : ParentObject) (id : Uuid) (sub : SubResourceWrite) : ResourceRow where
  id := id
  tenantId := tenantId
  name := trim sub.name
  capacity := sub.capacity.getD (parent.capacity.getD 1)
  region := parent.region
  location := parent.location
  assetType := parent.assetType.getD "Meeting Room"
  equipment := nullable (some (inheritedEquipment parent sub)) none
  requiresApproval := (sub.requiresApproval.or parent.requiresApproval).getD false
  departmentId := parent.departmentId
  parentResourceId := some parent.id
  compositeMode := .child
  isActive := true

/-- The loop over the parts of a request: the table, the parts that were there as they are now, and the ids to keep. -/
structure Sync where
  table : Table ResourceRow
  existing : List ResourceRow
  keepIds : List Uuid

/-- `byName.get(name.toLowerCase())`: of two parts with one name, the map has the later one. -/
def byName (rt : Runtime) (existing : List ResourceRow) (name : String) : Option ResourceRow :=
  existing.reverse.find? fun c => rt.toLowerCase (trim c.name) == rt.toLowerCase name

def syncSub (rt : Runtime) (tenantId : Uuid) (parent : ParentObject) (i : ℕ) (sub : SubResourceWrite) (st : Sync) :
    Except HttpError Sync :=
  if trim sub.name = "" then .ok st
  else
    match byName rt st.existing (trim sub.name) with
    | some m => do
      let table ← saveRow st.table (patch parent sub m)
      pure ⟨table, st.existing.map fun c => if c.id = m.id then patch parent sub m else c, st.keepIds ++ [m.id]⟩
    | none => do
      let table ← insertRow st.table (newChild tenantId parent (rt.newId i) sub)
      pure { st with table, keepIds := st.keepIds ++ [rt.newId i] }

def syncSubs (rt : Runtime) (tenantId : Uuid) (parent : ParentObject) :
    ℕ → List SubResourceWrite → Sync → Except HttpError Sync
  | _, [], st => .ok st
  | i, sub :: subs, st => do syncSubs rt tenantId parent (i + 1) subs (← syncSub rt tenantId parent i sub st)

def futureBookingCount (bookings : Table Booking) (now : Instant) (tenantId resourceId : Uuid) : ℕ :=
  bookings.rows.countP fun b =>
    b.tenantId == tenantId && b.resourceId == resourceId && !b.status.released && decide (now < b.startTime)

def isUnder (tenantId parentResourceId : Uuid) (c : ResourceRow) : Bool :=
  c.tenantId == tenantId && c.parentResourceId == some parentResourceId

def assertNoBookings (rt : Runtime) (bookings : Table Booking) (tenantId : Uuid) :
    List ResourceRow → Except HttpError Unit
  | [] => .ok ()
  | c :: cs => do
    let future := futureBookingCount bookings rt.now tenantId c.id
    require (future == 0) (.badRequest ("Cannot remove \"" ++ c.name ++ "\": it has " ++ toString future ++
      " future booking(s). Reassign or cancel them first."))
    assertNoBookings rt bookings tenantId cs

def deactivate (table : Table ResourceRow) (removed : List ResourceRow) : Table ResourceRow :=
  removed.foldl (fun table c => table.save { c with isActive := false }) table

def syncSubResources (rt : Runtime) (bookings : Table Booking) (tenantId : Uuid) (parent : ParentObject)
    (subs : List SubResourceWrite) (table : Table ResourceRow) : Except HttpError (Table ResourceRow) := do
  let existing := rt.order (table.rows.filter (isUnder tenantId parent.id))
  let st ← syncSubs rt tenantId parent 1 subs ⟨table, existing, []⟩
  let removed := st.existing.filter fun c => !st.keepIds.contains c.id && c.isActive
  assertNoBookings rt bookings tenantId removed
  pure (deactivate st.table removed)

/-! ### The operations -/

def activeChildrenCapacitySum (rows : List ResourceRow) (tenantId parentResourceId : Uuid) : ℤ :=
  ((rows.filter fun c => isUnder tenantId parentResourceId c && c.isActive).map (·.capacity)).sum

def create (rt : Runtime) (bookings : Table Booking) (tenantId : Uuid) (dto : ResourceWriteDto)
    (table : Table ResourceRow) : Except HttpError (Table ResourceRow) := do
  require ((given dto.region).elim false fun region => trim region != "") (.badRequest "region is required")
  let fields := fieldsOf (← normalized dto)
  require (given fields.name).isSome (.internal "null value violates not-null constraint")
  let row ← assign fields { id := rt.newId 0, tenantId }
  let table ← insertRow table row
  match dto.subResources with
  | some (sub :: subs) => syncSubResources rt bookings tenantId (insertedObject row) (sub :: subs) table
  | _ => pure table

/-- The check that a parent is not smaller than its parts. -/
def assertCovers (table : Table ResourceRow) (tenantId : Uuid) (dto fields : ResourceWriteDto) (r : ResourceRow) :
    Except HttpError Unit :=
  if (given fields.compositeMode).getD r.compositeMode = .parent then
    let newCapacity := (given fields.capacity).getD r.capacity
    let childSum :=
      match dto.subResources with
      | some subs => (subs.map fun s => s.capacity.getD 0).sum
      | none => activeChildrenCapacitySum table.rows tenantId r.id
    require (!(decide (0 < newCapacity) && decide (newCapacity < childSum)))
      (.badRequest ("Parent capacity (" ++ toString newCapacity ++
        ") cannot be less than the sum of its sub-rooms (" ++ toString childSum ++ ")."))
  else .ok ()

def update (rt : Runtime) (bookings : Table Booking) (tenantId id : Uuid) (dto : ResourceWriteDto)
    (table : Table ResourceRow) : Except HttpError (Table ResourceRow) := do
  let fields := fieldsOf (← normalized dto)
  let r ← found ((table.find? id).filter fun r => r.tenantId == tenantId) (.notFound "resource not found")
  assertCovers table tenantId dto fields r
  let row ← assign fields r
  let table ← saveRow table row
  match dto.subResources with
  | some subs => syncSubResources rt bookings tenantId (savedObject rt fields row) subs table
  | none => pure table

/-! ### Requests -/

inductive Request
  | create (tenantId : Uuid) (dto : ResourceWriteDto)
  | update (tenantId id : Uuid) (dto : ResourceWriteDto)

/-- The request with the runtime and the bookings it meets. -/
structure Call where
  rt : Runtime
  bookings : Table Booking
  request : Request

def Call.exec (call : Call) (table : Table ResourceRow) : Except HttpError (Table ResourceRow) :=
  match call.request with
  | .create tenantId dto => ResourcesService.create call.rt call.bookings tenantId dto table
  | .update tenantId id dto => ResourcesService.update call.rt call.bookings tenantId id dto table

def serve (table : Table ResourceRow) (call : Call) : Table ResourceRow :=
  match call.exec table with
  | .ok table => table
  | .error _ => table

end BookingSystem.Model.ResourcesService
