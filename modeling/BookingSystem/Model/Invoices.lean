import BookingSystem.Base.LocalTime
import BookingSystem.Base.Outcome
import BookingSystem.Model.AuditChain
import BookingSystem.Model.Entities
import Mathlib.Data.Rat.Floor

/-!
# The invoices of the Go service

`runRollup` sums up the services of a month's bookings for each cost centre, writes the sums over the invoices of the
month with one statement, and with a second one puts tax and total on those that are drafts. `setStatus` marks one
invoice as issued or paid. Each call runs in the transaction of its request: an error answers 500 and nothing is kept.
Amounts are cents, the value of a `NUMERIC(12, 2)` times a hundred.
-/

namespace BookingSystem.Model.Invoices

open Base
open Model.AuditChain (PgUuid)

/-! ### Rows -/

/-- The texts that are written to `invoices.status`. -/
inductive InvoiceStatus
  | draft | issued | paid
  deriving DecidableEq, Repr

/-- A `NUMERIC(12, 2)`: cents, or `NaN`, which is equal to itself. -/
inductive Numeric
  | cents (c : ℤ)
  | nan
  deriving DecidableEq, Repr

def Numeric.add : Numeric → Numeric → Numeric
  | .cents a, .cents b => .cents (a + b)
  | _, _ => .nan

instance : Add Numeric := ⟨Numeric.add⟩

/-- A row of `invoices`. -/
structure Invoice where
  id : PgUuid
  tenantId : PgUuid
  costCentre : String
  periodStart : Day
  periodEnd : Day
  subtotal : ℤ
  tax : Numeric
  total : Numeric
  lineCount : ℕ
  status : InvoiceStatus
  issuedAt : Option Instant
  paidAt : Option Instant
  deriving DecidableEq

abbrev InvoiceKey := PgUuid × String × Day

instance : Keyed Invoice InvoiceKey := ⟨fun i => (i.tenantId, i.costCentre, i.periodStart)⟩

@[simp] theorem key_invoice (i : Invoice) : (key i : InvoiceKey) = (i.tenantId, i.costCentre, i.periodStart) := rfl

/-- The columns of a booking that the rollup reads; the cost centre may be `NULL`. -/
structure ChargedBooking where
  id : PgUuid
  tenantId : PgUuid
  costCentre : Option String
  endTime : Instant
  status : BookingStatus
  deriving DecidableEq

/-- A row of `booking_services`. -/
structure BookingService where
  bookingId : PgUuid
  serviceId : PgUuid
  quantity : ℤ
  deriving DecidableEq

/-- A row of `services`, with its price in cents or `NULL`. -/
structure PricedService where
  id : PgUuid
  price : Option ℤ
  deriving DecidableEq

instance : Keyed ChargedBooking PgUuid := ⟨ChargedBooking.id⟩
instance : Keyed BookingService (PgUuid × PgUuid) := ⟨fun bs => (bs.bookingId, bs.serviceId)⟩
instance : Keyed PricedService PgUuid := ⟨PricedService.id⟩

/-- What is charged for. -/
structure Activity where
  bookings : Table ChargedBooking
  bookingServices : Table BookingService
  services : Table PricedService

structure Store where
  activity : Activity
  invoices : Table Invoice

/-! ### The rollup -/

/-- A month of the calendar, `1` for January. -/
structure Month where
  year : ℕ
  month : ℕ
  deriving DecidableEq, Repr

def digits? (cs : List Char) : Option ℕ :=
  if cs.all Char.isDigit then some (cs.foldl (fun n c => 10 * n + (c.toNat - '0'.toNat)) 0) else none

/-- `time.Parse("2006-01", …)`. -/
def parseMonth (s : String) : Option Month :=
  match s.toList with
  | [a, b, c, d, '-', e, f] => do
    let year ← digits? [a, b, c, d]
    let month ← digits? [e, f]
    if 1 ≤ month ∧ month ≤ 12 then pure ⟨year, month⟩ else none
  | _ => none

def Month.start (m : Month) : Day := firstOfMonth m.year (m.month - 1)
def Month.stop (m : Month) : Day := firstOfMonth m.year m.month

/-- `COALESCE(NULLIF(b.cost_centre, ''), 'UNASSIGNED')`. -/
def ChargedBooking.centre (b : ChargedBooking) : String :=
  match b.costCentre with
  | none | some "" => "UNASSIGNED"
  | some c => c

namespace Activity

variable (a : Activity)

def charged (tenantId : PgUuid) (m : Month) : List ChargedBooking :=
  a.bookings.rows.filter fun b => decide (b.tenantId = tenantId) &&
    decide (m.start * dayMs ≤ b.endTime) && decide (b.endTime < m.stop * dayMs) &&
    (b.status == .confirmed || b.status == .checkedIn)

def lines (tenantId : PgUuid) (m : Month) (centre : String) : List BookingService :=
  ((a.charged tenantId m).filter fun b => b.centre == centre).flatMap fun b =>
    a.bookingServices.rows.filter fun bs => decide (bs.bookingId = b.id)

/-- `s.price * bs.quantity`; the sum looks past a missing price. -/
def lineAmount (bs : BookingService) : ℤ :=
  (((a.services.find? bs.serviceId).bind PricedService.price).map (· * bs.quantity)).getD 0

def subtotal (tenantId : PgUuid) (m : Month) (centre : String) : ℤ :=
  ((a.lines tenantId m centre).map a.lineAmount).sum

def lineCount (tenantId : PgUuid) (m : Month) (centre : String) : ℕ := (a.lines tenantId m centre).length

def centres (tenantId : PgUuid) (m : Month) : List String := ((a.charged tenantId m).map ChargedBooking.centre).dedup

end Activity

/-- A `NUMERIC(12, 2)` has ten digits before the point. -/
def fits (cents : ℤ) : Bool := decide (|cents| < 10 ^ 12)

/-- A reply of `http.Error`. -/
structure Refused where
  code : ℕ
  message : String
  deriving DecidableEq, Repr

/-- One row of the first statement: inserted as a draft, or its sums written over the invoice of its cost centre. -/
def upsert (a : Activity) (tenantId : PgUuid) (m : Month) (newId : String → PgUuid) (t : Table Invoice)
    (centre : String) : Option (Table Invoice) :=
  if fits (a.subtotal tenantId m centre) && decide (a.lineCount tenantId m centre < 2 ^ 31) then
    match t.find? (tenantId, centre, m.start) with
    | some i => some (t.save { i with
        subtotal := a.subtotal tenantId m centre
        lineCount := a.lineCount tenantId m centre
        periodEnd := m.stop })
    | none => t.insert? {
        id := newId centre
        tenantId := tenantId
        costCentre := centre
        periodStart := m.start
        periodEnd := m.stop
        subtotal := a.subtotal tenantId m centre
        tax := .cents 0
        total := .cents 0
        lineCount := a.lineCount tenantId m centre
        status := .draft
        issuedAt := none
        paidAt := none }
  else none

/-- What `strconv.ParseFloat` can give. -/
inductive Float64
  | finite (q : ℚ)
  | infinite (negative : Bool)
  | nan
  deriving DecidableEq

/-- A tax rate: a number, or infinity. -/
inductive Rate
  | finite (q : ℚ)
  | infinite
  deriving DecidableEq

/-- `taxRate`: what `TENANT_TAX_RATE` is parsed to, if that is not negative. -/
def taxRate : Option Float64 → Rate
  | some (.finite q) => .finite (if 0 ≤ q then q else 0)
  | some (.infinite false) => .infinite
  | _ => .finite 0

def roundHalfAway (q : ℚ) : ℤ := if 0 ≤ q then ⌊q + 1 / 2⌋ else -⌊-q + 1 / 2⌋

/-- `ROUND(subtotal * rate, 2)`, if the column can hold it. -/
def taxOn (subtotal : ℤ) : Rate → Option Numeric
  | .finite q =>
    let tax := roundHalfAway (subtotal * q)
    if fits tax then some (.cents tax) else none
  | .infinite => if subtotal = 0 then some .nan else none

/-- `subtotal + tax`, if the column can hold it. -/
def totalOf (subtotal : ℤ) (tax : Numeric) : Option Numeric :=
  match Numeric.cents subtotal + tax with
  | .cents c => if fits c then some (.cents c) else none
  | .nan => some .nan

def taxed (rate : Rate) (i : Invoice) : Option Invoice := do
  let tax ← taxOn i.subtotal rate
  let total ← totalOf i.subtotal tax
  pure { i with tax := tax, total := total }

theorem key_taxed (rate : Rate) (i : Invoice) : (key ((taxed rate i).getD i) : InvoiceKey) = key i := by
  cases h : taxed rate i with
  | none => rfl
  | some j =>
    simp only [taxed, Option.bind_eq_bind, Option.bind_eq_some_iff, Option.pure_def, Option.some.injEq] at h
    obtain ⟨tax, -, total, -, rfl⟩ := h
    rfl

def isDraftOf (tenantId : PgUuid) (m : Month) (i : Invoice) : Bool :=
  decide (i.tenantId = tenantId) && decide (i.periodStart = m.start) && i.status == .draft

def applyTax (rate : Rate) (tenantId : PgUuid) (m : Month) (t : Table Invoice) : Option (Table Invoice) :=
  if t.rows.all fun i => !isDraftOf tenantId m i || (taxed rate i).isSome then
    some (t.update (isDraftOf tenantId m) (fun i => (taxed rate i).getD i) (key_taxed rate))
  else none

/-- A call of the rollup: the caller's tenant, the `month` parameter, `time.Now()` as `2006-01`, what the environment
holds, and the identifiers that the database draws. -/
structure RollupRequest where
  tenantId : Option PgUuid
  month : String := ""
  thisMonth : String := "2026-01"
  envRate : Option Float64 := none
  newId : String → PgUuid

structure RollupReply where
  period : String
  upserted : ℕ
  taxRate : Rate

/-- What `err.Error()` says when a value is out of the range of its column. -/
def outOfRange : Refused := ⟨500, "numeric field overflow"⟩

/-- `runRollup`. There is no year 0 in the database. -/
def runRollup (s : Store) (req : RollupRequest) : Except Refused (Store × RollupReply) := do
  let tid ← found req.tenantId ⟨401, "auth context missing"⟩
  let month := if req.month = "" then req.thisMonth else req.month
  let m ← found (parseMonth month) ⟨400, "month must be YYYY-MM"⟩
  require (m.year ≠ 0) ⟨500, "date/time field value out of range"⟩
  let centres := s.activity.centres tid m
  let upserted ← found (centres.foldlM (upsert s.activity tid m req.newId) s.invoices) outOfRange
  let rate := taxRate req.envRate
  let invoices ← found (applyTax rate tid m upserted) outOfRange
  pure ({ s with invoices := invoices }, ⟨month, centres.length, rate⟩)

/-! ### Issuing -/

/-- The suffixes of the two routes. -/
inductive Marking
  | issue | markPaid
  deriving DecidableEq, Repr

def Marking.status : Marking → InvoiceStatus
  | .issue => .issued
  | .markPaid => .paid

def Marking.mark (k : Marking) (now : Instant) (i : Invoice) : Invoice :=
  match k with
  | .issue => { i with status := .issued, issuedAt := some now }
  | .markPaid => { i with status := .paid, paidAt := some now }

theorem Marking.key_mark (k : Marking) (now : Instant) (i : Invoice) : (key (k.mark now i) : InvoiceKey) = key i := by
  cases k <;> rfl

/-- A call of `setStatus`: the method, the caller's tenant, the invoice as the path names it. -/
structure StatusRequest where
  method : String := "POST"
  tenantId : Option PgUuid
  id : List Char
  marking : Marking
  now : Instant := 0

/-- `setStatus`: whatever the status was; no row need match. -/
def setStatus (s : Store) (req : StatusRequest) : Except Refused (Store × Unit) := do
  require (req.method = "POST") ⟨405, "method not allowed"⟩
  let tid ← found req.tenantId ⟨401, "auth context missing"⟩
  let id ← found (PgUuid.uuidIn req.id) ⟨500, "invalid input syntax for type uuid"⟩
  pure ({ s with
    invoices := s.invoices.update (fun i => decide (i.id = id) && decide (i.tenantId = tid)) (req.marking.mark req.now)
      (req.marking.key_mark req.now) }, ())

/-! ### Runs -/

/-- What happens: the two calls, and any change of bookings, services and prices. -/
inductive Event
  | rollup (req : RollupRequest)
  | setStatus (req : StatusRequest)
  | change (activity : Activity)

def step (s : Store) : Event → Store
  | .rollup req => settle (runRollup s req) s
  | .setStatus req => settle (Invoices.setStatus s req) s
  | .change activity => { s with activity := activity }

end BookingSystem.Model.Invoices
