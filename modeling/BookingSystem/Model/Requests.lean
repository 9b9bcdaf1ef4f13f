import BookingSystem.Model.Recurrence
import BookingSystem.Model.Sync

/-!
# The requests that change bookings

What `create`, `createSeries`, `update`, `updateSeries`, `cancel` and `cancelSeries` do on the connection of their
request, in order: the inner transactions, the rows they write and wait for, and the rows of the outboxes, which they
start to write and do not wait for (`dispatchSync`). A request is a list of pieces; what the pieces say of a request
that ends well or badly is read off the services themselves.
-/

namespace BookingSystem.Model

open Base BookingsService

/-- A row that a request writes: a change of a booking, with the event it is to be announced by; a row of the sync
outbox; one of the notification outbox; the row of a series; the steps of an approval chain. -/
inductive Row
  | booking (id : Uuid) (event : BookingEvent)
  | syncOutbox (tenantId bookingId : Uuid) (event : BookingEvent)
  | notification (bookingId : Uuid) (event : BookingEvent)
  | recurrence (id : Uuid)
  | approvalSteps (bookingId : Uuid)
  deriving DecidableEq, Repr

/-- A piece of a request: an inner transaction that is committed or given up, a statement of the outer one, or a
statement that nobody waits for. -/
inductive Piece
  | transaction (committed : Bool) (rows : List Row)
  | write (row : Row)
  | launch (row : Row)
  deriving DecidableEq, Repr

def dispatchSync (event : BookingEvent) (tenantId bookingId : Uuid) : Piece :=
  .launch (.syncOutbox tenantId bookingId event)

def dispatchNotification (event : BookingEvent) (bookingId : Uuid) : Piece := .launch (.notification bookingId event)

/-! ### Creating -/

section Create

variable (env : Env) (now : Instant) (tenantId userId : Uuid)

def materializePieces (newId : ℕ → Uuid) (row : Booking) (st : Store) : List Piece :=
  if row.status == .pendingApproval then
    match ApprovalsService.materialize env now newId row st with
    | .ok (_, n) => if n = 0 then [] else [.write (.approvalSteps row.id)]
    | .error _ => []
  else []

def createPieces (fresh : Fresh) (suppressNotification : Bool) (dto : CreateBookingDto) (st : Store) : List Piece :=
  match createAdmit env now tenantId userId dto fresh.booking with
  | .error _ => []
  | .ok (slot, row) =>
    match createCommit st.bookings slot row with
    | .error _ => [.transaction false []]
    | .ok bookings =>
      [.transaction true [.booking row.id .created], dispatchSync .created tenantId row.id] ++
        (if suppressNotification then [] else [dispatchNotification .created row.id]) ++
        materializePieces env now fresh.step row { st with bookings }

/-- Where the loop over the occurrences of a new series stands. -/
structure SeriesRequest where
  st : Store
  ids : List Uuid
  pieces : List Piece

/-- One turn of the loop of `createSeries`. -/
def createSeriesTurn (fresh : ℕ → Fresh) (dto : CreateBookingDto) (recurrenceId : Uuid) (acc : SeriesRequest)
    (occ : (Instant × Instant) × ℕ) : SeriesRequest :=
  let dto := { dto with
    startTime := occ.1.1
    endTime := occ.1.2
    recurrenceId := some recurrenceId
    isRecurring := true }
  let pieces := acc.pieces ++ createPieces env now tenantId userId (fresh occ.2) true dto acc.st
  match create env now (fresh occ.2) tenantId userId dto acc.st with
  | .ok (st, b) => ⟨st, acc.ids ++ [b.id], pieces⟩
  | .error _ => { acc with pieces }

def createSeriesPieces (fresh : ℕ → Fresh) (dto : CreateBookingDto) (recurrenceId : Uuid)
    (occurrences : List (Instant × Instant)) (st : Store) : List Piece :=
  match env.resource tenantId dto.resourceId with
  | none => []
  | some resource =>
    if !resource.isActive || occurrences.isEmpty then []
    else
      let out := occurrences.zipIdx.foldl (createSeriesTurn env now tenantId userId fresh
        { dto with resourceId := resource.id } recurrenceId) ⟨st, [], [.write (.recurrence recurrenceId)]⟩
      match out.ids with
      | [] => out.pieces ++ [.write (.recurrence recurrenceId)]
      | first :: _ => out.pieces ++ [dispatchNotification .created first]

end Create

/-! ### Editing -/

section Edit

variable (env : Env) (now : Instant) (tenantId userId : Uuid) (role : String)

def editDispatch (saved : Booking) : List Piece :=
  [dispatchSync .updated tenantId saved.id, dispatchNotification .updated saved.id]

def updatePieces (id : Uuid) (dto : UpdateBookingDto) (st : Store) : List Piece :=
  match applyUpdate env now tenantId userId role id dto st.bookings with
  | .error _ => [.transaction false []]
  | .ok saved => .transaction true [.booking saved.id .updated] :: editDispatch tenantId saved

/-- One turn of the loop of `updateSeries`, with the rows that it has saved so far. -/
def updateSeriesTurn (patch : Booking → UpdateBookingDto) (acc : Table Booking × List Booking) (s : Booking) :
    Table Booking × List Booking :=
  if terminalStatuses.contains s.status || s.startTime < now then acc
  else
    match applyUpdate env now tenantId userId role s.id (patch s) acc.1 with
    | .ok saved => (acc.1.save saved, acc.2 ++ [saved])
    | .error _ => acc

def updateSeriesPieces (id : Uuid) (dto : UpdateBookingDto) (st : Store) : List Piece :=
  match findBooking st.bookings tenantId id with
  | none => []
  | some anchor =>
    if !(anchor.userId == userId || isAdmin role) then []
    else
      match anchor.recurrenceId with
      | none => updatePieces env now tenantId userId role id dto st
      | some rid =>
        let tz := env.timezone tenantId
        let startShift := dto.startTime.map (wallShift tz anchor.startTime)
        let endShift := dto.endTime.map (wallShift tz anchor.endTime)
        let siblings := (st.bookings.rows.filter fun b =>
          b.tenantId == tenantId && b.recurrenceId == some rid).insertionSort fun b b' => b.startTime ≤ b'.startTime
        let saved := (siblings.foldl (updateSeriesTurn env now tenantId userId role
          (seriesPatch tz dto startShift endShift)) (st.bookings, [])).2
        .transaction true (saved.map fun b => .booking b.id .updated) :: saved.flatMap (editDispatch tenantId)

end Edit

/-! ### Cancelling -/

section Cancel

variable (tenantId userId : Uuid) (role : String)

/-- A booking that is cancelled already is left alone. -/
def cancelPieces (id : Uuid) (reason : String) (st : Store) : List Piece :=
  match findBooking st.bookings tenantId id, cancel tenantId userId role id reason st with
  | some b, .ok (_, saved) =>
    if b.status == .cancelled then []
    else
      [.write (.booking saved.id .cancelled), dispatchSync .cancelled tenantId saved.id,
        dispatchNotification .cancelled saved.id]
  | _, _ => []

/-- The row of a series. -/
structure Recurrence where
  id : Uuid
  tenantId : Uuid
  createdBy : Uuid
  deriving DecidableEq, Repr

/-- The cancellations of `cancelSeries`, one occurrence after the other; one that is settled, or cannot be cancelled,
is skipped. -/
def cancelSeriesTurn (reason : String) (acc : Store × List Piece) (child : Booking) : Store × List Piece :=
  if terminalStatuses.contains child.status then acc
  else
    (settle (cancel tenantId userId role child.id reason acc.1) acc.1,
      acc.2 ++ cancelPieces tenantId userId role child.id reason acc.1)

/-- `cancelSeries`, of the series that was found, if one was. -/
def cancelSeries (series : Option Recurrence) (reason : String) (st : Store) :
    Except HttpError (Store × List Piece) := do
  let series ← found (series.filter fun r => r.tenantId == tenantId) (.notFound "series not found")
  require (series.createdBy == userId || isAdmin role) (.forbidden "not allowed to cancel this series")
  let children := st.bookings.rows.filter fun b => b.tenantId == tenantId && b.recurrenceId == some series.id
  pure (children.foldl (cancelSeriesTurn tenantId userId role (if reason = "" then "series cancelled" else reason))
    (st, [.write (.recurrence series.id)]))

def cancelSeriesPieces (series : Option Recurrence) (reason : String) (st : Store) : List Piece :=
  match cancelSeries tenantId userId role series reason st with
  | .ok (_, pieces) => pieces
  | .error _ => []

end Cancel

/-! ### Requests -/

/-- A request that changes bookings. -/
inductive Request
  | create (tenantId userId : Uuid) (dto : CreateBookingDto) (fresh : Fresh)
  | createSeries (tenantId userId : Uuid) (dto : CreateBookingDto) (recurrenceId : Uuid)
      (occurrences : List (Instant × Instant)) (fresh : ℕ → Fresh)
  | update (tenantId userId : Uuid) (role : String) (id : Uuid) (dto : UpdateBookingDto)
  | updateSeries (tenantId userId : Uuid) (role : String) (id : Uuid) (dto : UpdateBookingDto)
  | cancel (tenantId userId : Uuid) (role : String) (id : Uuid) (reason : String)
  | cancelSeries (tenantId userId : Uuid) (role : String) (series : Option Recurrence) (reason : String)

namespace Request

variable (env : Env) (now : Instant)

def tenantId : Request → Uuid
  | .create tenantId .. | .createSeries tenantId .. | .update tenantId .. | .updateSeries tenantId ..
  | .cancel tenantId .. | .cancelSeries tenantId .. => tenantId

/-- What the request does on its connection. -/
def pieces (st : Store) : Request → List Piece
  | .create tenantId userId dto fresh => createPieces env now tenantId userId fresh false dto st
  | .createSeries tenantId userId dto recurrenceId occurrences fresh =>
    createSeriesPieces env now tenantId userId fresh dto recurrenceId occurrences st
  | .update tenantId userId role id dto => updatePieces env now tenantId userId role id dto st
  | .updateSeries tenantId userId role id dto => updateSeriesPieces env now tenantId userId role id dto st
  | .cancel tenantId userId role id reason => cancelPieces tenantId userId role id reason st
  | .cancelSeries tenantId userId role series reason => cancelSeriesPieces tenantId userId role series reason st

/-- The request ends without an exception. -/
def succeeds (st : Store) : Request → Bool
  | .create tenantId userId dto fresh => (BookingsService.create env now fresh tenantId userId dto st).isOk
  | .createSeries tenantId userId dto recurrenceId occurrences fresh =>
    (BookingsService.createSeries env now fresh tenantId userId dto recurrenceId occurrences st).isOk
  | .update tenantId userId role id dto => (BookingsService.update env now tenantId userId role id dto st).isOk
  | .updateSeries tenantId userId role id dto =>
    (BookingsService.updateSeries env now tenantId userId role id dto st).isOk
  | .cancel tenantId userId role id reason => (BookingsService.cancel tenantId userId role id reason st).isOk
  | .cancelSeries tenantId userId role series reason =>
    (Model.cancelSeries tenantId userId role series reason st).isOk

end Request

end BookingSystem.Model
