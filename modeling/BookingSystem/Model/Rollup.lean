import BookingSystem.Base.LocalTime
import BookingSystem.Base.Outcome
import BookingSystem.Model.Entities

/-!
# `InvoicesService`

`runRollup` draws up one draft for each department: it replaces the drafts of its period and leaves other invoices
alone. `setStatus` marks an invoice. Each call runs in the transaction of its request, so an error keeps nothing.
-/

namespace BookingSystem.Model.Rollup

open Base

/-! ### Rows -/

inductive InvoiceStatus
  | draft | issued | paid | cancelled
  deriving DecidableEq, Repr

/-- A rendered line. The JSON does not name the row of `booking_services` that it is made of; `source` is that row. -/
structure InvoiceLine where
  source : Uuid
  bookingId : Uuid
  description : String
  quantity : ℤ
  unitCents : ℤ
  lineCents : ℤ
  deriving DecidableEq

/-- A row of `invoices`. -/
structure Invoice where
  id : Uuid
  tenantId : Uuid
  departmentId : Option Uuid
  period : String
  lines : List InvoiceLine
  subtotalCents : ℤ
  taxCents : ℤ
  totalCents : ℤ
  status : InvoiceStatus
  issuedAt : Option Instant := none
  paidAt : Option Instant := none
  deriving DecidableEq

instance : Keyed Invoice Uuid := ⟨Invoice.id⟩

@[simp] theorem key_invoice (i : Invoice) : (key i : Uuid) = i.id := rfl

/-- The rows of `booking_services` that an invoice charges for. -/
def Invoice.sources (i : Invoice) : List Uuid := i.lines.map InvoiceLine.source

/-- A row of `booking_services`. -/
structure BookingService where
  id : Uuid
  tenantId : Uuid
  bookingId : Uuid
  quantity : ℤ := 1
  unitPriceCents : ℤ := 0
  deriving DecidableEq

/-- The columns of a booking that the rollup reads. -/
structure ChargedBooking where
  id : Uuid
  tenantId : Uuid
  userId : Uuid
  title : String
  startTime : Instant
  status : BookingStatus
  deriving DecidableEq

/-- A row of `user_departments`. -/
structure UserDepartment where
  userId : Uuid
  departmentId : Uuid
  deriving DecidableEq

instance : Keyed BookingService Uuid := ⟨BookingService.id⟩
instance : Keyed ChargedBooking Uuid := ⟨ChargedBooking.id⟩
instance : Keyed UserDepartment (Uuid × Uuid) := ⟨fun ud => (ud.userId, ud.departmentId)⟩

/-- What is charged for. -/
structure Activity where
  bookingServices : Table BookingService
  bookings : Table ChargedBooking
  userDepartments : Table UserDepartment

structure Store where
  activity : Activity
  invoices : Table Invoice

/-! ### The period -/

def parseInt (cs : List Char) : ℕ := cs.foldl (fun n c => 10 * n + (c.toNat - '0'.toNat)) 0

/-- `/^\d{4}-\d{2}$/`, and the two numbers. -/
def parsePeriod (period : String) : Option (ℕ × ℕ) :=
  match period.toList with
  | [a, b, c, d, '-', e, f] =>
    if [a, b, c, d, e, f].all Char.isDigit then some (parseInt [a, b, c, d], parseInt [e, f]) else none
  | _ => none

/-- `Date.UTC(y, m, 1)`; months run on over the ends of the year. -/
def dateUTC (y m : ℤ) : Instant := firstOfMonth (if 0 ≤ y ∧ y ≤ 99 then 1900 + y else y) m * dayMs

/-! ### The rollup -/

/-- A row of the join. -/
structure JoinedRow where
  id : Uuid
  bookingId : Uuid
  quantity : ℤ
  unitPriceCents : ℤ
  departmentId : Option Uuid
  title : String
  deriving DecidableEq

/-- The departments of a user, or one `NULL`. -/
def Activity.departmentsOf (a : Activity) (userId : Uuid) : List (Option Uuid) :=
  match a.userDepartments.rows.filter fun ud => decide (ud.userId = userId) with
  | [] => [none]
  | uds => uds.map fun ud => some ud.departmentId

/-- The confirmed and checked-in bookings of a service row that begin in the window. -/
def Activity.bookingsOf (a : Activity) (tenantId : Uuid) (start stop : Instant) (bs : BookingService) :
    List ChargedBooking :=
  a.bookings.rows.filter fun b => decide (b.id = bs.bookingId) && decide (b.tenantId = tenantId) &&
    decide (start ≤ b.startTime) && decide (b.startTime < stop) && (b.status == .confirmed || b.status == .checkedIn)

def Activity.joined (a : Activity) (tenantId : Uuid) (start stop : Instant) : List JoinedRow :=
  (a.bookingServices.rows.filter fun bs => decide (bs.tenantId = tenantId)).flatMap fun bs =>
    (a.bookingsOf tenantId start stop bs).flatMap fun b =>
      (a.departmentsOf b.userId).map fun d => ⟨bs.id, bs.bookingId, bs.quantity, bs.unitPriceCents, d, b.title⟩

/-- An order in which a query may give its rows. -/
structure Scan where
  order : List JoinedRow → List JoinedRow
  perm : ∀ rows, (order rows).Perm rows

abbrev Buckets := List (String × List JoinedRow)

/-- `buckets.get(k).push(r)`. -/
def Buckets.push (buckets : Buckets) (k : String) (r : JoinedRow) : Buckets :=
  if buckets.any fun b => decide (b.1 = k) then buckets.map fun b => if b.1 = k then (b.1, b.2 ++ [r]) else b
  else buckets ++ [(k, [r])]

def bucketRow (st : Buckets × List Uuid) (r : JoinedRow) : Buckets × List Uuid :=
  if r.id ∈ st.2 then st else (st.1.push (r.departmentId.getD "__none__") r, r.id :: st.2)

def bucketed (rows : List JoinedRow) : Buckets := (rows.foldl bucketRow ([], [])).1

def renderLine (l : JoinedRow) : InvoiceLine :=
  ⟨l.id, l.bookingId, l.title, l.quantity, l.unitPriceCents, l.quantity * l.unitPriceCents⟩

/-- A call of the rollup: `taxOf` rounds the product with the tax rate, `scan` orders the rows, and `newId` draws the
identifiers. -/
structure RollupRequest where
  tenantId : Uuid
  period : String
  taxOf : ℤ → ℤ := fun _ => 0
  scan : Scan := ⟨id, fun rows => .refl rows⟩
  newId : ℕ → Uuid

/-- The draft of a department. -/
def draftOf (req : RollupRequest) (n : ℕ) (bucket : String × List JoinedRow) : Invoice :=
  let lines := bucket.2.map renderLine
  let subtotal := (lines.map InvoiceLine.lineCents).sum
  { id := req.newId n
    tenantId := req.tenantId
    departmentId := if bucket.1 = "__none__" then none else some bucket.1
    period := req.period
    lines := lines
    subtotalCents := subtotal
    taxCents := req.taxOf subtotal
    totalCents := subtotal + req.taxOf subtotal
    status := .draft }

def isInt4 (c : ℤ) : Bool := decide (-2 ^ 31 ≤ c ∧ c < 2 ^ 31)

def fits (i : Invoice) : Bool := isInt4 i.subtotalCents && isInt4 i.taxCents && isInt4 i.totalCents

def isDraftOf (tenantId : Uuid) (period : String) (i : Invoice) : Bool :=
  decide (i.tenantId = tenantId) && decide (i.period = period) && i.status == .draft

def collected (a : Activity) (req : RollupRequest) : List JoinedRow :=
  match parsePeriod req.period with
  | some (y, m) => req.scan.order (a.joined req.tenantId (dateUTC y (m - 1)) (dateUTC y m))
  | none => []

def runRollup (s : Store) (req : RollupRequest) : Except HttpError (Store × List Invoice) := do
  let _ ← found (parsePeriod req.period) (.badRequest "period must be YYYY-MM")
  let buckets := bucketed (collected s.activity req)
  let kept := s.invoices.deleteWhere (isDraftOf req.tenantId req.period)
  let out := buckets.zipIdx.map fun b => draftOf req b.2 b.1
  require (out.all fits) (.internal "integer out of range")
  let invoices ← found (kept.insertAll? out) (.internal "duplicate key value violates unique constraint")
  pure ({ s with invoices := invoices }, out)

/-! ### Marking and removing -/

/-- A call of `setStatus`. -/
structure StatusRequest where
  tenantId : Uuid
  id : Uuid
  status : InvoiceStatus
  now : Instant := 0

def get (s : Store) (tenantId id : Uuid) : Except HttpError Invoice :=
  found ((s.invoices.find? id).filter fun i => decide (i.tenantId = tenantId)) (.notFound "invoice not found")

def marked (req : StatusRequest) (i : Invoice) : Invoice :=
  { i with
    status := req.status
    issuedAt := if req.status = .issued then some req.now else i.issuedAt
    paidAt := if req.status = .paid then some req.now else i.paidAt }

def setStatus (s : Store) (req : StatusRequest) : Except HttpError (Store × Invoice) := do
  let inv ← get s req.tenantId req.id
  pure ({ s with invoices := s.invoices.save (marked req inv) }, marked req inv)

def remove (s : Store) (tenantId id : Uuid) : Except HttpError (Store × Unit) := do
  let _ ← get s tenantId id
  pure ({ s with invoices := s.invoices.deleteWhere fun i => decide (i.id = id) && decide (i.tenantId = tenantId) }, ())

/-! ### Runs -/

/-- What happens: the calls, and any change of bookings, their services and the departments. -/
inductive Event
  | rollup (req : RollupRequest)
  | setStatus (req : StatusRequest)
  | remove (tenantId id : Uuid)
  | change (activity : Activity)

def step (s : Store) : Event → Store
  | .rollup req => settle (runRollup s req) s
  | .setStatus req => settle (Rollup.setStatus s req) s
  | .remove tenantId id => settle (Rollup.remove s tenantId id) s
  | .change activity => { s with activity := activity }

end BookingSystem.Model.Rollup
