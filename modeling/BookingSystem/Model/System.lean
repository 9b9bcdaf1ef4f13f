import BookingSystem.Model.Checkin
import BookingSystem.Base.Run

/-!
# The booking system as a machine

The operations of the four services that write bookings and approval chains, one request at a time. A request
that is refused leaves the store as it was. One that would break the constraint `booking_no_overlap` is rolled back
whole, and is no request of a run.
-/

namespace BookingSystem.Model

open Base BookingsService

/-- A call of one of the services, with its arguments and the ids and tokens it is handed. -/
inductive Op
  | create (tenantId userId : Uuid) (dto : CreateBookingDto) (fresh : Fresh)
  | createSeries (tenantId userId : Uuid) (dto : CreateBookingDto) (recurrenceId : Uuid)
      (occurrences : List (Instant × Instant)) (fresh : ℕ → Fresh)
  | update (tenantId userId : Uuid) (role : String) (id : Uuid) (dto : UpdateBookingDto)
  | updateSeries (tenantId userId : Uuid) (role : String) (id : Uuid) (dto : UpdateBookingDto)
  | cancel (tenantId userId : Uuid) (role : String) (id : Uuid) (reason : String)
  | issueToken (tenantId userId : Uuid) (isAdmin : Bool) (bookingId : Uuid) (token : String)
  | checkinByBooking (tenantId userId : Uuid) (isAdmin : Bool) (bookingId : Uuid)
  | redeemToken (token : String)
  | markNoShow (tenantId bookingId : Uuid) (reason : Option String)
  | markAttended (tenantId bookingId : Uuid)
  | tick
  | materialize (booking : Booking) (newId : ℕ → Uuid)
  | decide (user : AuthUser) (bookingId : Uuid) (input : ApprovalsService.DecideInput)
  | delegate (user : AuthUser) (bookingId toUserId : Uuid) (reason : String)
  | runDueAutoApprovals
  | sweepStaleApprovals

/-- A call, the settings it runs under and the time of the clock. -/
structure Event where
  env : Env
  now : Instant
  op : Op

/-- The store after a call. -/
def step (st : Store) (e : Event) : Store :=
  match e.op with
  | .create tenantId userId dto fresh => settle (create e.env e.now fresh tenantId userId dto st) st
  | .createSeries tenantId userId dto recurrenceId occurrences fresh =>
    settle (createSeries e.env e.now fresh tenantId userId dto recurrenceId occurrences st) st
  | .update tenantId userId role id dto => settle (update e.env e.now tenantId userId role id dto st) st
  | .updateSeries tenantId userId role id dto => settle (updateSeries e.env e.now tenantId userId role id dto st) st
  | .cancel tenantId userId role id reason => settle (cancel tenantId userId role id reason st) st
  | .issueToken tenantId userId isAdmin bookingId token =>
    settle (CheckinService.issueToken e.now token tenantId userId isAdmin bookingId st) st
  | .checkinByBooking tenantId userId isAdmin bookingId =>
    settle (CheckinService.checkinByBooking e.now tenantId userId isAdmin bookingId st) st
  | .redeemToken token => settle (CheckinService.redeemToken e.now token st) st
  | .markNoShow tenantId bookingId reason => settle (CheckinService.markNoShow tenantId bookingId reason st) st
  | .markAttended tenantId bookingId => settle (CheckinService.markAttended tenantId bookingId st) st
  | .tick => AutoReleaseService.tick e.env e.now st
  | .materialize booking newId => settle (ApprovalsService.materialize e.env e.now newId booking st) st
  | .decide user bookingId input => settle (ApprovalsService.decide e.env e.now user bookingId input st) st
  | .delegate user bookingId toUserId reason =>
    settle (ApprovalsService.delegate e.env e.now user bookingId toUserId reason st) st
  | .runDueAutoApprovals => ApprovalsService.runDueAutoApprovals e.now st
  | .sweepStaleApprovals => ApprovalsService.sweepStaleApprovals e.now st

abbrev run (st : Store) (es : List Event) : Store := Base.run step st es

theorem run_then (st : Store) (es fs : List Event) : run st (es ++ fs) = run (run st es) fs := run_append ..

/-! ### A small office -/

/-- The settings of an office with the given resources, users and rules and nothing else configured: no opening
hours, no holidays, UTC, and the sweep of unused bookings switched off. -/
def office (resources : Table Resource) (users : Table User) (rules : Table ApprovalRule) : Env where
  resources := resources
  users := users
  departments := .empty
  rules := rules
  customization _ := {}
  holidays := []
  rolePermissions := []
  zones _ := none
  toLowerCase := id
  envEnabled := false
  envGraceMinutes := 15

def approvalOffice : Env :=
  office ⟨[{ id := "r", tenantId := "t", requiresApproval := true }], by decide⟩ .empty
    (.single { id := "rule", tenantId := "t", scopeType := .tenant,
               levels := [{ name := "lead", approverUserIds := ["ann"] }] })

def requestRoom : Op :=
  .create "t" "u" { resourceId := "r", startTime := 3600000, endTime := 7200000 }
    ⟨"b", fun i => "s" ++ toString i, "token"⟩

end BookingSystem.Model
