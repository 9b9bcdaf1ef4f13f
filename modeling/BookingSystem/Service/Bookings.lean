import BookingSystem.Model.Bookings

/-!
# The bookings of the Go service

The rows of `bookings` and `resources` as `BookingRepo` reads and writes them. `save` is the versioned upsert,
`updateStatus` the plain update of one column; both are refused by `bookings_no_overlap`, which knows exclusive rows of
the same resource only. What else the database may refuse (foreign keys, row security) is a test on the written row.
-/

namespace BookingSystem.Service

open Base
open Model (Uuid Instant BookingStatus BookingMode)
open Model.BookingsService (rangesOverlap)

/-- A booking; a `bookingMode` of `none` is the empty text. -/
structure Booking where
  id : Uuid
  tenantId : Uuid
  resourceId : Uuid
  userId : Uuid
  startTime : Instant
  endTime : Instant
  status : BookingStatus
  isRecurring : Bool := false
  recurrenceId : String := ""
  exceptionNotes : String := ""
  meetingUrl : String := ""
  redirectUrl : String := ""
  checkedInAt : Option Instant := none
  version : ℕ := 1
  createdAt : Instant := 0
  bookingMode : Option BookingMode := none
  title : String := ""
  isPrivate : Bool := false
  deriving DecidableEq, Repr

instance : Keyed Booking Uuid := ⟨Booking.id⟩

@[simp] theorem key_booking (b : Booking) : (key b : Uuid) = b.id := rfl

/-- The columns of a resource that decide about bookings. -/
structure Resource where
  id : Uuid
  tenantId : Uuid
  assetType : String := ""
  location : String := ""
  departmentId : String := ""
  capacity : ℤ := 0
  requiresApproval : Bool := false
  isActive : Bool := true
  parentResourceId : Option Uuid := none
  bookingMode : BookingMode := .exclusive
  sharedCapacity : ℤ := 1
  deriving DecidableEq, Repr

instance : Keyed Resource Uuid := ⟨Resource.id⟩

@[simp] theorem key_resource (r : Resource) : (key r : Uuid) = r.id := rfl

def Resource.isShared (r : Resource) : Bool := r.bookingMode == .shared

/-- What a call of the service can end with: no row, a concurrency conflict, another error of the database, or a text of
its own; the errors that wrap `ErrInternal` are kept apart. -/
inductive CallError
  | noRows
  | concurrencyConflict
  | database
  | rejected (message : String)
  | internal (message : String)
  deriving DecidableEq, Repr

/-! ### Which bookings hold a slot -/

/-- `status IN ('Confirmed', 'Pending Approval', 'Checked In')`. -/
def Booking.active (b : Booking) : Bool :=
  b.status == .confirmed || b.status == .pendingApproval || b.status == .checkedIn

def Booking.exclusive (b : Booking) : Bool := b.active && b.bookingMode == some .exclusive

def Booking.excludes (a b : Booking) : Bool :=
  decide (a.resourceId = b.resourceId) && a.exclusive && b.exclusive &&
    rangesOverlap a.startTime a.endTime b.startTime b.endTime

def noOverlap (t : Table Booking) (b : Booking) : Bool := t.rows.all fun r => decide (r.id = b.id) || !r.excludes b

def Booking.meets (b : Booking) (start finish : Instant) : Bool :=
  decide (b.startTime < finish) && decide (start < b.endTime)

def targets (resources : Table Resource) (resourceId : Uuid) : List Uuid :=
  resourceId :: (resources.rows.filter fun r => r.parentResourceId == some resourceId).map Resource.id ++
    ((resources.find? resourceId).bind Resource.parentResourceId).toList

def hasConflict (resources : Table Resource) (t : Table Booking) (resourceId : Uuid) (start finish : Instant) : Bool :=
  t.rows.any fun b => decide (b.resourceId ∈ targets resources resourceId) && b.active && b.meets start finish

/-- `CountConcurrent`; no row has the empty id. -/
def countConcurrent (t : Table Booking) (resourceId : Uuid) (start finish : Instant) (excludeBookingId : Uuid) : ℕ :=
  t.rows.countP fun b => decide (b.resourceId = resourceId) && b.active && b.meets start finish &&
    (excludeBookingId == "" || b.id != excludeBookingId)

/-! ### The statements that write -/

/-- The columns of `DO UPDATE SET`. -/
def Booking.overwrite (r b : Booking) : Booking :=
  { r with
    status := b.status
    isRecurring := b.isRecurring
    recurrenceId := b.recurrenceId
    exceptionNotes := b.exceptionNotes
    meetingUrl := b.meetingUrl
    redirectUrl := b.redirectUrl
    checkedInAt := b.checkedInAt
    startTime := b.startTime
    endTime := b.endTime
    title := b.title
    isPrivate := b.isPrivate
    version := r.version + 1 }

def Booking.inserted (b : Booking) : Booking :=
  { b with version := 1, bookingMode := some (b.bookingMode.getD .exclusive) }

variable (admits : Booking → Bool)

/-- `Save`: inserts the booking, or writes it over the row of its id if that still has its version. A range that ends
before it starts cannot be stored. -/
def save (t : Table Booking) (b : Booking) : Except CallError (Table Booking) := do
  require (b.startTime ≤ b.endTime) .database
  match t.find? b.id with
  | some r =>
    require (r.version = b.version) .concurrencyConflict
    require (admits (r.overwrite b)) .database
    require (noOverlap t (r.overwrite b)) .concurrencyConflict
    pure (t.save (r.overwrite b))
  | none =>
    require (admits b.inserted) .database
    require (noOverlap t b.inserted) .concurrencyConflict
    found (t.insert? b.inserted) .database

/-- The row after `UpdateStatus`; empty notes leave the old ones. -/
def Booking.withStatus (r : Booking) (status : BookingStatus) (notes : String) : Booking :=
  { r with status := status, exceptionNotes := if notes = "" then r.exceptionNotes else notes }

/-- `UpdateStatus`: one column, whatever the version is, which stays. -/
def updateStatus (t : Table Booking) (id : Uuid) (status : BookingStatus) (notes : String) :
    Except CallError (Table Booking) :=
  match t.find? id with
  | some r => do
    require (admits (r.withStatus status notes)) .database
    require (noOverlap t (r.withStatus status notes)) .database
    pure (t.save (r.withStatus status notes))
  | none => pure t

def cancel (t : Table Booking) (id : Uuid) (reason : String) : Except CallError (Table Booking) :=
  updateStatus admits t id .cancelled reason

def findById (t : Table Booking) (id : Uuid) : Except CallError Booking := found (t.find? id) .noRows

/-! ### What the statements do -/

variable {admits} {t t' : Table Booking} {b : Booking}

@[simp] theorem id_overwrite (r b : Booking) : (r.overwrite b).id = r.id := rfl
@[simp] theorem id_inserted (b : Booking) : b.inserted.id = b.id := rfl
theorem find?_self {id : Uuid} (h : t.find? id = some b) : t.find? b.id = some b :=
  Table.find?_of_mem (Table.mem_of_find? h)

/-- A `Save` that went through. -/
theorem save_cases (h : save admits t b = .ok t') :
    b.startTime ≤ b.endTime ∧
      ((∃ r, t.find? b.id = some r ∧ r.version = b.version ∧ noOverlap t (r.overwrite b) = true ∧
          t' = t.save (r.overwrite b)) ∨
        (t.find? b.id = none ∧ admits b.inserted = true ∧ noOverlap t b.inserted = true ∧
          t.insert? b.inserted = some t')) := by
  simp only [save, bind_eq_ok, require_eq_ok, decide_eq_true_eq] at h
  obtain ⟨-, hrange, h⟩ := h
  refine ⟨hrange, ?_⟩
  split at h
  · rename_i r hr
    simp only [bind_eq_ok, require_eq_ok, pure_eq_ok, decide_eq_true_eq] at h
    obtain ⟨-, hversion, -, -, -, hover, rfl⟩ := h
    exact .inl ⟨r, hr, hversion, hover, rfl⟩
  · rename_i hnone
    simp only [bind_eq_ok, require_eq_ok, found_eq_ok] at h
    obtain ⟨-, hadmits, -, hover, hinsert⟩ := h
    exact .inr ⟨hnone, hadmits, hover, hinsert⟩

theorem save_new (hnew : t.find? b.id = none) :
    save admits t b = .ok t' ↔ b.startTime ≤ b.endTime ∧ admits b.inserted = true ∧ noOverlap t b.inserted = true ∧
      t'.rows = t.rows ++ [b.inserted] := by
  have hinsert : ∀ t', t.insert? b.inserted = some t' ↔ t'.rows = t.rows ++ [b.inserted] := fun t' => by
    rw [Table.insert?_eq_some_iff]
    exact and_iff_right hnew
  constructor
  · intro h
    obtain ⟨hrange, ⟨r, hr, -⟩ | ⟨-, hadmits, hover, hins⟩⟩ := save_cases h
    · rw [hnew] at hr
      cases hr
    · exact ⟨hrange, hadmits, hover, (hinsert t').1 hins⟩
  · rintro ⟨hrange, hadmits, hover, hrows⟩
    simp only [save, hnew, require, hrange, hadmits, hover, decide_true, if_true, (hinsert t').2 hrows, found]
    rfl

theorem save_stored {r : Booking} (hr : t.find? b.id = some r) (hversion : r.version = b.version) :
    save admits t b = .ok t' ↔ b.startTime ≤ b.endTime ∧ admits (r.overwrite b) = true ∧
      noOverlap t (r.overwrite b) = true ∧ t' = t.save (r.overwrite b) := by
  simp only [save, hr, bind_eq_ok, require_eq_ok, pure_eq_ok, decide_eq_true_eq, hversion, exists_const, true_and]
  rw [eq_comm (a := t')]

theorem updateStatus_cases {id : Uuid} {status : BookingStatus} {notes : String}
    (h : updateStatus admits t id status notes = .ok t') :
    (∃ r, t.find? id = some r ∧ admits (r.withStatus status notes) = true ∧
        noOverlap t (r.withStatus status notes) = true ∧ t' = t.save (r.withStatus status notes)) ∨
      t.find? id = none ∧ t' = t := by
  unfold updateStatus at h
  split at h
  · rename_i r hr
    simp only [bind_eq_ok, require_eq_ok, pure_eq_ok] at h
    obtain ⟨-, hadmits, -, hover, rfl⟩ := h
    exact .inl ⟨r, hr, hadmits, hover, rfl⟩
  · rename_i hnone
    exact .inr ⟨hnone, (pure_eq_ok.1 h).symm⟩

/-! ### The busy resources of a search

The subquery of `FindAvailable`: which resources it takes out of the result. The window is a pair of instants, after
the digits have been read in the zone of the tenant. -/

section

variable (resources : Table Resource) (t : Table Booking) (start finish : Instant)

def overlapping : List Booking := t.rows.filter fun b => b.active && b.meets start finish

/-- `overlap_counts`: a row for each resource with an overlapping booking. -/
def overlapCounts : List (Uuid × ℕ) :=
  ((overlapping t start finish).map Booking.resourceId).dedup.map fun rid =>
    (rid, (overlapping t start finish).countP fun b => decide (b.resourceId = rid))

/-- `busy_excl`: exclusive resources with an overlapping booking. -/
def busyExcl : List Uuid :=
  ((overlapCounts t start finish).filter fun oc => (resources.find? oc.1).any fun r => !r.isShared).map Prod.fst

/-- `busy_shared`: shared resources whose capacity is used up. -/
def busyShared : List Uuid :=
  ((overlapCounts t start finish).filter fun oc => (resources.find? oc.1).any fun r =>
    r.isShared && decide (max r.sharedCapacity 1 ≤ (oc.2 : ℤ))).map Prod.fst

/-- What is not offered: the busy resources, and parents and children of the exclusive ones. -/
def busySet : List Uuid :=
  (resources.rows.filter fun r => decide (r.id ∈ busyExcl resources t start finish) ||
    r.parentResourceId.any (fun p => decide (p ∈ busyExcl resources t start finish)) ||
    (resources.rows.filter fun q => decide (q.id ∈ busyExcl resources t start finish)).any
      (fun q => q.parentResourceId == some r.id) ||
    decide (r.id ∈ busyShared resources t start finish)).map Resource.id

end

end BookingSystem.Service
