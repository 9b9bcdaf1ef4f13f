import BookingSystem.Model.Requests
import BookingSystem.Model.System

/-!
# What the services announce

The machine of the services, with the cancellation of a series as one more call, and the rows of the outboxes that a
call starts to write. The bookings service writes to the sync outbox and to the one of the mails; the approvals service
has only `notifyDecision`, which writes to the one of the mails.
-/

namespace BookingSystem.Model

open Base BookingsService

namespace ApprovalsService

def notifyDecision (tenantId bookingId : Uuid) (event : BookingEvent) (st : Store) : List Row :=
  if (findBooking st.bookings tenantId bookingId).isSome then [.notification bookingId event] else []

/-- What an accepted decision is announced as: an approval that does not complete the chain is not. -/
def decisionEvent (env : Env) (now : Instant) (user : AuthUser) (bookingId : Uuid) (input : DecideInput) (st : Store) :
    Option BookingEvent :=
  let steps := lockChain st user.tenantId bookingId
  if steps.isEmpty then some (if input.status == .approved then .approved else .rejected)
  else do
    let i ← firstActionableIndex env steps (chainRule env steps) user
    let step ← steps[i]?
    let res := (commitStepDecision now user.tenantId bookingId steps step input (some user.id) st).2
    if res.rejected then some .rejected else if res.confirmed then some .approved else none

def decideRows (env : Env) (now : Instant) (user : AuthUser) (bookingId : Uuid) (input : DecideInput) (st : Store) :
    List Row :=
  match ApprovalsService.decide env now user bookingId input st with
  | .ok (st', _) =>
    (decisionEvent env now user bookingId input st).toList.flatMap fun event =>
      notifyDecision user.tenantId bookingId event st'
  | .error _ => []

/-- The rows of a sweep, with the store as it is by then. -/
def runDueTurn (now : Instant) (acc : Store × List Row) (s : ApprovalStep) : Store × List Row :=
  match autoApproveStep now s.tenantId s.bookingId s.id acc.1 with
  | some (st', res) =>
    (st', acc.2 ++ if res.confirmed then notifyDecision s.tenantId s.bookingId .approved st' else [])
  | none => acc

def runDueRows (now : Instant) (st : Store) : List Row := ((dueSteps now st).foldl (runDueTurn now) (st, [])).2

def sweepStaleTurn (now : Instant) (acc : Store × List Row) (b : Booking) : Store × List Row :=
  let st' := autoRejectStale now b.tenantId b.id acc.1
  let acted := (findBooking acc.1.bookings b.tenantId b.id).any (·.status == .pendingApproval)
  (st', acc.2 ++ if acted then notifyDecision b.tenantId b.id .rejected st' else [])

def sweepStaleRows (now : Instant) (st : Store) : List Row :=
  ((staleBookings now st).foldl (sweepStaleTurn now) (st, [])).2

end ApprovalsService

/-- A call of one of the services, or the cancellation of a series. -/
inductive ServiceCall
  | service (e : Event)
  | cancelSeries (tenantId userId : Uuid) (role : String) (series : Option Recurrence) (reason : String)

/-- The request that a call makes of the bookings service. -/
def Op.request : Op → Option Request
  | .create tenantId userId dto fresh => some (.create tenantId userId dto fresh)
  | .createSeries tenantId userId dto recurrenceId occurrences fresh =>
    some (.createSeries tenantId userId dto recurrenceId occurrences fresh)
  | .update tenantId userId role id dto => some (.update tenantId userId role id dto)
  | .updateSeries tenantId userId role id dto => some (.updateSeries tenantId userId role id dto)
  | .cancel tenantId userId role id reason => some (.cancel tenantId userId role id reason)
  | _ => none

namespace ServiceCall

def step (st : Store) : ServiceCall → Store
  | .service e => Model.step st e
  | .cancelSeries tenantId userId role series reason =>
    settle (Model.cancelSeries tenantId userId role series reason st) st

/-- The rows that are written without being waited for. -/
def launchedRows (ps : List Piece) : List Row :=
  ps.filterMap fun
    | .launch row => some row
    | _ => none

/-- The rows of the outboxes that a call starts to write, without the mails about bookings that nobody came to. -/
def enqueued (st : Store) : ServiceCall → List Row
  | .service e =>
    match e.op with
    | .decide user bookingId input => ApprovalsService.decideRows e.env e.now user bookingId input st
    | .runDueAutoApprovals => ApprovalsService.runDueRows e.now st
    | .sweepStaleApprovals => ApprovalsService.sweepStaleRows e.now st
    | op => op.request.toList.flatMap fun req => launchedRows (req.pieces e.env e.now st)
  | .cancelSeries tenantId userId role series reason =>
    launchedRows (cancelSeriesPieces tenantId userId role series reason st)

end ServiceCall

end BookingSystem.Model
