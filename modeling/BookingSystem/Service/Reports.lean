import BookingSystem.Base.FirstOf
import BookingSystem.Base.Grouping
import BookingSystem.Base.LocalTime
import BookingSystem.Model.Entities
import Mathlib.Algebra.Order.Round
import Mathlib.Data.Rat.Floor

/-!
# Reports

The class `ReportsService`: the panels of the dashboard, and the tables of the reports on bookings. The queries take
the bookings of a tenant whose start has a date within the period, by the date that the snippet `dateInTZ` gives it, and
the cells show what the other snippets make of the start. Times of bookings are instants in microseconds, and a period
goes from one day to another, both included.
-/

namespace BookingSystem.Service.Reports

open Base (Answer Keyed SqlTime Table SqlZone grouped)
open Model (BookingStatus Day Uuid)

/-! ### Times in the report zone -/

/-- What the queries depend on besides the rows: the environment, the session, and the order of rows that no
`ORDER BY` tells apart. -/
structure Settings where
  reportTimezone : Option String
  zones : String → SqlZone
  session : SqlZone
  sort : {α : Type} → (α → α → Bool) → List α → List α
  answer : ∀ {α : Type} (le : α → α → Bool) (rows : List α), (∀ a b c, le a b = true → le b c = true → le a c = true) →
    (∀ a b, (le a b || le b a) = true) → Answer le rows (sort le rows)
  /-- `TO_CHAR(…, 'FM999990.0')` of a number of hours. -/
  hoursText : ℚ → String

def reportTZ (reportTimezone : Option String) : String :=
  let tz := Model.trim (reportTimezone.getD "")
  if tz = "" then "Asia/Hong_Kong" else tz

namespace Settings

variable (c : Settings) (col : SqlTime)

def reportZone : SqlZone := c.zones (reportTZ c.reportTimezone)

/-- `col AT TIME ZONE 'UTC' AT TIME ZONE '<tz>'`, as the session shows it. -/
def localised : ℤ := ((col.atTimeZone .utc).atTimeZone c.reportZone).reading c.session

def fmtDate : String := String.ofList (SqlTime.dateText (SqlTime.dateOf (c.localised col)))
def fmtTime : String := String.ofList (SqlTime.timeText (SqlTime.minuteOf (c.localised col)))
def fmtDateTime : String := c.fmtDate col ++ " " ++ c.fmtTime col
def dateInTZ : Day := SqlTime.dateOf (c.localised col)

end Settings

/-! ### Rows -/

/-- The columns of a booking that the queries read. -/
structure Booking where
  id : Uuid
  tenantId : Uuid
  resourceId : Uuid
  userId : Uuid
  startTime : ℤ
  endTime : ℤ
  status : BookingStatus
  title : String := ""
  checkedInAt : Option ℤ := none
  deriving DecidableEq

structure Resource where
  id : Uuid
  name : String
  location : Option String := none
  region : Option String := none
  departmentId : Option Uuid := none
  deriving DecidableEq

structure Department where
  id : Uuid
  name : String

structure User where
  id : Uuid
  username : String
  deriving DecidableEq

instance : Keyed Booking Uuid := ⟨Booking.id⟩
instance : Keyed Resource Uuid := ⟨Resource.id⟩
instance : Keyed Department Uuid := ⟨Department.id⟩
instance : Keyed User Uuid := ⟨User.id⟩

structure Store where
  bookings : Table Booking
  resources : Table Resource
  departments : Table Department
  users : Table User

/-- `COALESCE(NULLIF(name, ''), other)` of a column that may be `NULL`. -/
def nameOr (other : String) (name : Option String) : String :=
  match name with
  | none => other
  | some name => if name = "" then other else name

/-- `LEFT JOIN departments d ON d.id = r.department_id`. -/
def Store.departmentName (s : Store) (r : Resource) : Option String :=
  (r.departmentId.bind s.departments.find?).map Department.name

/-- `INNER JOIN resources r ON r.id = b.resource_id`. -/
def Store.withResource (s : Store) (b : Booking) : Option (Booking × Resource) :=
  (s.resources.find? b.resourceId).map fun r => (b, r)

/-- `INNER JOIN users u ON u.id = b.user_id`. -/
def Store.withUser (s : Store) (b : Booking) : Option (Booking × User) :=
  (s.users.find? b.userId).map fun u => (b, u)

/-! ### The dashboard -/

inductive DashboardScope where
  | all
  | region
  | mine
  deriving DecidableEq

structure DashboardFilter where
  scope : DashboardScope
  userId : Option String := none
  regions : Option (List String) := none

/-- A call of `dashboard`: `start` and `finish` are the days the two texts stand for. -/
structure DashboardRequest where
  tenantId : Uuid
  start : Day
  finish : Day
  filter : DashboardFilter
  region : Option String := none
  location : Option String := none

def Settings.inPeriod (c : Settings) (start finish : Day) (b : Booking) : Bool :=
  decide (start ≤ c.dateInTZ (.timestamptz b.startTime)) && decide (c.dateInTZ (.timestamptz b.startTime) ≤ finish)

/-- The scope of the caller's role, and the two drop-downs. -/
def inScope (req : DashboardRequest) (b : Booking) (r : Resource) : Bool :=
  let reg := Model.trim (req.region.getD "")
  let loc := Model.trim (req.location.getD "")
  (if req.filter.scope = .mine ∧ req.filter.userId.getD "" ≠ "" then req.filter.userId == some b.userId
    else if req.filter.scope = .region ∧ req.filter.regions.getD [] ≠ [] then
      r.region.any fun region => (req.filter.regions.getD []).contains region
    else true) &&
    (decide (reg = "") || r.region == some reg) && (decide (loc = "") || r.location == some loc)

/-- `Math.round(n / total * 100)`. -/
def percent (n total : ℕ) : ℤ := round ((n : ℚ) / total * 100)

structure Shares where
  checkInPct : ℤ
  cancelPct : ℤ
  noShowPct : ℤ
  activePct : ℤ
  deriving DecidableEq

/-- The shares of all bookings of the period. -/
def shares (total checkedIn cancelled noShow : ℕ) : Shares :=
  let checkInPct := if total ≠ 0 then percent checkedIn total else 0
  let cancelPct := if total ≠ 0 then percent cancelled total else 0
  let noShowPct := if total ≠ 0 then percent noShow total else 0
  { checkInPct, cancelPct, noShowPct
    activePct := if total ≠ 0 then max 0 (100 - checkInPct - cancelPct - noShowPct) else 0 }

structure Stats extends Shares where
  total : ℕ
  avgMin : ℤ
  checkedIn : ℕ
  cancelled : ℕ
  noShow : ℕ
  active : ℕ

/-- A row of the panel of recent no-shows. -/
structure NoShowRow where
  name : String
  dept : String
  room : String
  when : String

structure Dashboard where
  scope : DashboardScope
  roomUtilisation : List (String × ℕ)
  byDepartment : List (String × ℕ)
  stats : Stats
  noShow : List NoShowRow

/-- `ROUND` of a numeric: halves away from zero. -/
def sqlRound (x : ℚ) : ℤ := if 0 ≤ x then round x else -round (-x)

/-- `COALESCE(ROUND(AVG(EXTRACT(EPOCH FROM (b.end_time - b.start_time))/60)),0)`. -/
def avgMin (bs : List Booking) : ℤ :=
  if bs = [] then 0
  else sqlRound ((bs.map fun b => ((b.endTime - b.startTime : ℤ) : ℚ) / SqlTime.minuteUs).sum / bs.length)

/-- The shares and counts over the bookings of the period. -/
def statsOf (bs : List Booking) : Stats :=
  let total := bs.length
  let checkedIn := bs.countP fun b => b.status == .checkedIn || b.checkedInAt.isSome
  let cancelled := bs.countP fun b => b.status == .cancelled
  let noShow := bs.countP fun b => b.status == .noShow
  { shares total checkedIn cancelled noShow with
    total, avgMin := avgMin bs, checkedIn, cancelled, noShow
    active := total - checkedIn - cancelled - noShow }

namespace Settings

variable (c : Settings) (s : Store)

/-- The rows that every panel is made of. -/
def dashboardRows (req : DashboardRequest) : List (Booking × Resource) :=
  (s.bookings.rows.filterMap s.withResource).filter fun p =>
    decide (p.1.tenantId = req.tenantId) && c.inPeriod req.start req.finish p.1 && inScope req p.1 p.2

/-- `GROUP BY`, with the number of rows of each group. -/
def countBy (name : Booking × Resource → String) (rows : List (Booking × Resource)) : List (String × ℕ) :=
  c.sort (fun g g' => decide (g'.2 ≤ g.2)) ((grouped name rows).map fun g => (g.1, g.2.length))

def latestFirst {ρ : Type} (booking : ρ → Booking) (r r' : ρ) : Bool :=
  decide ((booking r').startTime ≤ (booking r).startTime)

def noShowRows (rows : List (Booking × Resource)) : List NoShowRow :=
  let joined := rows.filterMap fun p => (s.users.find? p.1.userId).map fun u => (p, u)
  ((c.sort (latestFirst fun p => p.1.1) (joined.filter fun p => p.1.1.status == .noShow)).take 12).map fun p =>
    { name := p.2.username
      dept := nameOr "-" (s.departmentName p.1.2)
      room := p.1.2.name
      when := c.fmtDateTime (.timestamptz p.1.1.startTime) }

def dashboard (req : DashboardRequest) : Dashboard :=
  let rows := c.dashboardRows s req
  { scope := req.filter.scope
    roomUtilisation := c.countBy (fun p => p.2.name) rows
    byDepartment := c.countBy (fun p => nameOr "Unassigned" (s.departmentName p.2)) rows
    stats := statsOf (rows.map Prod.fst)
    noShow := c.noShowRows s rows }

end Settings

/-! ### The tables -/

/-- The types of reports on bookings; `medical` is a booking summary. -/
inductive ReportType where
  | summary
  | noshow
  | staff
  | usage
  | medical
  | addl
  deriving DecidableEq

structure TableRequest where
  tenantId : Uuid
  type : ReportType
  start : Day
  finish : Day

structure ReportTable where
  headers : List String
  rows : List (List String)

/-- The condition on the status. -/
def ReportType.takes : ReportType → BookingStatus → Bool
  | .staff, status | .usage, status => status != .cancelled
  | .noshow, status => status == .noShow
  | .summary, _ | .medical, _ | .addl, _ => true

def hours (bs : List Booking) : ℚ := (bs.map fun b => ((b.endTime - b.startTime : ℤ) : ℚ) / SqlTime.minuteUs / 60).sum

namespace Settings

variable (c : Settings) (s : Store) (req : TableRequest)

/-- The bookings that the conditions of the query let through. -/
def tableBookings : List Booking :=
  s.bookings.rows.filter fun b =>
    decide (b.tenantId = req.tenantId) && req.type.takes b.status && c.inPeriod req.start req.finish b

/-- The rows of a report that joins rooms and users. -/
def detailRows : List ((Booking × Resource) × User) :=
  ((c.tableBookings s req).filterMap s.withResource).filterMap fun p =>
    (s.users.find? p.1.userId).map fun u => (p, u)

/-- A table with a line for each row, the latest start first. -/
def detailTable (headers : List String) (line : (Booking × Resource) × User → List String) : ReportTable :=
  ⟨headers, ((c.sort (latestFirst fun p => p.1.1) (c.detailRows s req)).take 1000).map line⟩

/-- A table with a line for each group, the largest first. -/
def groupTable {ρ κ : Type} [DecidableEq κ] (headers : List String) (key : ρ → κ) (booking : ρ → Booking)
    (cells : κ → List String) (rows : List ρ) : ReportTable :=
  ⟨headers, ((c.sort (fun g g' => decide (g'.2.length ≤ g.2.length)) (grouped key rows)).take 1000).map fun g =>
    cells g.1 ++ [toString g.2.length, c.hoursText (hours (g.2.map booking))]⟩

def table : ReportTable :=
  match req.type with
  | .staff => c.groupTable ["Booked By", "Bookings", "Total Hours"] (fun p => p.2.username) Prod.fst
      (fun username => [username]) ((c.tableBookings s req).filterMap s.withUser)
  | .usage => c.groupTable ["Room", "Location", "Bookings", "Total Hours"] (fun p => (p.2.name, p.2.location)) Prod.fst
      (fun g => [g.1, g.2.getD ""]) ((c.tableBookings s req).filterMap s.withResource)
  | .addl => c.detailTable s req ["Booking Date", "Room", "Booked By", "Status"] fun p =>
      [c.fmtDate (.timestamptz p.1.1.startTime), p.1.2.name, p.2.username, p.1.1.status.label]
  | .noshow => c.detailTable s req ["Booking Date", "Time", "Location", "Room", "Booked By"] fun p =>
      [c.fmtDate (.timestamptz p.1.1.startTime), c.fmtTime (.timestamptz p.1.1.startTime), p.1.2.location.getD "",
        p.1.2.name, p.2.username]
  | .summary | .medical =>
    c.detailTable s req ["Booking Date", "Time", "Location", "Room", "Title", "Booked By", "Status"] fun p =>
      [c.fmtDate (.timestamptz p.1.1.startTime), c.fmtTime (.timestamptz p.1.1.startTime), p.1.2.location.getD "",
        p.1.2.name, nameOr "—" (some p.1.1.title), p.2.username, p.1.1.status.label]

end Settings

end BookingSystem.Service.Reports
