import BookingSystem.Base.Run
import BookingSystem.Contracts.PlainCreation
import BookingSystem.Service.Series
import BookingSystem.Service.UseCases
import Mathlib.Logic.Function.Basic

/-!
# Transactions that book rooms

The requests that create, move and expand bookings side by side, under READ COMMITTED. A statement sees the rows that
are committed and those of its own transaction. The validator locks the row of a shared resource before it counts, and
holds the lock until its transaction ends; nothing else is locked before a `Save`. A `Save` waits for an open
transaction that has written the same booking, or a row that the constraint does not let stand beside its own.
-/

namespace BookingSystem.Concurrency.CompositeRooms

open Base Service
open Model (Uuid Instant BookingStatus)

/-! ### The requests -/

/-- What a transaction is about: `ExecuteRequest`, `Execute` with the booking that it has read, or a series. The
resources are the same for all of them, the rest of the setup is that of the call. -/
inductive Job
  | create (c : CreateSetup) (req : CreateRequest) (id : Uuid)
  | move (p : Policy) (req : UpdateRequest) (b : Booking)
  | series (c : CreateSetup) (req : SeriesRequest) (seriesId : Uuid)

variable (resources : Table Resource)

def lockOf (p : Policy) (resourceId : Uuid) : Option Uuid :=
  if (p.resource resources resourceId).any Resource.isShared then some resourceId else none

/-- A booking that keeps its window is not validated, and a series only asks `HasConflict`. -/
def Job.lock : Job → Option Uuid
  | .create c req _ => lockOf resources c.policy req.resourceId
  | .move p req b => if (req.newWindow b).isSome then lockOf resources p b.resourceId else none
  | .series .. => none

def Job.claims : Job → Bool
  | .create .. | .series .. => true
  | .move _ req b => (req.newWindow b).isSome

def Job.inserts : Job → Bool
  | .create .. | .series .. => true
  | .move .. => false

/-- The row that a creation or an update saves, when its rules are asked on these bookings. -/
def Job.plan (t : Table Booking) : Job → Except CallError Booking
  | .create c req id => do
    checkRequest c req
    checkLimit c req.tenantId req.userId
    let vres ← validate c.policy resources t req.input
    pure (newBooking c id req vres)
  | .move p req b => updated (validate p resources t) req b
  | .series .. => .error .noRows

/-! ### The transactions -/

/-- How far a transaction is. One that is about to save has made its check. -/
inductive Phase
  | idle
  | asked (job : Job)
  | saving (job : Job) (b : Booking)
  | closing (job : Job)
  | over

/-- The committed bookings, the locked resource rows, the phases, and the rows that are written and not committed. -/
structure State (ι : Type) where
  table : Table Booking
  locks : Uuid → Option ι := fun _ => none
  phase : ι → Phase := fun _ => .idle
  pending : List (ι × Booking) := []

/-- What happens: a request begins (an update by reading its booking), takes its lock, makes its check (a series one for
each occurrence, under a new id), its `Save` runs and the database admits the row or not, its transaction ends. -/
inductive Event (ι : Type)
  | create (i : ι) (c : CreateSetup) (req : CreateRequest) (id : Uuid)
  | read (i : ι) (p : Policy) (req : UpdateRequest)
  | expand (i : ι) (c : CreateSetup) (req : SeriesRequest) (seriesId : Uuid)
  | lock (i : ι)
  | check (i : ι)
  | occurrence (i : ι) (id : Uuid) (occ : Occurrence)
  | save (i : ι) (admitted : Bool)
  | commit (i : ι)
  | rollback (i : ι)

variable {ι : Type} [DecidableEq ι] (s : State ι) (i : ι)

def State.own : List Booking := (s.pending.filter fun p => decide (p.1 = i)).map Prod.snd

def State.view : Table Booking := (s.own i).foldl Table.put s.table

def State.goto (phase : Phase) : State ι := { s with phase := Function.update s.phase i phase }

def State.ready (job : Job) : Bool := (job.lock resources).all fun r => decide (s.locks r = some i)

/-- The row that a `Save` writes. -/
def written (t : Table Booking) (b : Booking) : Booking :=
  match t.find? b.id with
  | some r => r.overwrite b
  | none => b.inserted

/-- A `Save` waits for an open transaction; an id that is drawn for a new row is not one that is taken. -/
def State.waits (job : Job) (b : Booking) : Bool :=
  (s.pending.any fun p => decide (p.1 ≠ i) && (decide (p.2.id = b.id) || p.2.excludes (written (s.view i) b))) ||
    job.inserts && ((s.view i).find? b.id).isSome

/-- After a `Save` a series goes on, the other jobs are done. -/
def Job.afterSave : Job → Phase
  | .series c req seriesId => .asked (.series c req seriesId)
  | job => .closing job

/-- The `Save`; an error leaves nothing of the transaction. -/
def State.saved (job : Job) (b : Booking) (admitted : Bool) : State ι :=
  match save (fun _ => admitted) (s.view i) b with
  | .ok _ => { s.goto i job.afterSave with pending := s.pending ++ [(i, written (s.view i) b)] }
  | .error _ => { s.goto i (.closing job) with pending := s.pending.filter fun p => decide (p.1 ≠ i) }

def State.finish (commits : Bool) : State ι where
  table := if commits then s.view i else s.table
  locks := fun r => if s.locks r = some i then none else s.locks r
  phase := Function.update s.phase i .over
  pending := s.pending.filter fun p => decide (p.1 ≠ i)

/-- One step. -/
def step (s : State ι) : Event ι → State ι
  | .create i c req id =>
    match s.phase i with
    | .idle => s.goto i (.asked (.create c req id))
    | _ => s
  | .read i p req =>
    match s.phase i, s.table.find? req.bookingId with
    | .idle, some b => s.goto i (.asked (.move p req b))
    | _, _ => s
  | .expand i c req seriesId =>
    match s.phase i with
    | .idle => s.goto i (.asked (.series c req seriesId))
    | _ => s
  | .lock i =>
    match s.phase i with
    | .asked job =>
      match job.lock resources with
      | some r => if s.locks r = none then { s with locks := Function.update s.locks r (some i) } else s
      | none => s
    | _ => s
  | .check i =>
    match s.phase i with
    | .asked (.series ..) => s
    | .asked job =>
      if s.ready resources i job then
        match job.plan resources (s.view i) with
        | .ok b => s.goto i (.saving job b)
        | .error _ => s.goto i (.closing job)
      else s
    | _ => s
  | .occurrence i id occ =>
    match s.phase i with
    | .asked (.series c req seriesId) =>
      if hasConflict resources (s.view i) req.resourceId occ.start occ.finish then s
      else s.goto i (.saving (.series c req seriesId) (occurrenceBooking c seriesId req id occ))
    | _ => s
  | .save i admitted =>
    match s.phase i with
    | .saving job b => if s.waits i job b then s else s.saved i job b admitted
    | _ => s
  | .commit i =>
    match s.phase i with
    | .closing _ | .asked (.series ..) => s.finish i true
    | _ => s
  | .rollback i => s.finish i false

/-! ### The jobs are the calls -/

omit [DecidableEq ι] in
theorem plan_of_executeRequest {c : CreateSetup} {x x' : Session} (h : x.aborted = false) {req : CreateRequest}
    {id : Uuid} {stepId : ℕ → Uuid} {result : CreateResult} (hservices : req.services = [])
    (hnew : x.own.bookings.find? id = none) (hunknown : x.rows.bookings.find? id = none)
    (hrefer : Contracts.AtomicCreation.StepsRefer x.rows)
    (hon : (executeRequest c (fun _ => false) req id stepId).on x = (.ok result, x')) :
    ∃ b, (Job.create c req id).plan c.resources x.own.bookings = .ok b ∧
      x'.own.bookings.rows = x.own.bookings.rows ++ [written x.own.bookings b] := by
  obtain ⟨vres, t, result', n, ⟨hrequest, hlimit, hvalidate, -⟩, hsave, hon'⟩ | ⟨-, e, x'', herror⟩ :=
    Contracts.PlainCreation.executeRequest_run c h req stepId hservices hnew hunknown hrefer
  · obtain ⟨-, rfl⟩ := Prod.mk.inj (hon'.symm.trans hon)
    obtain ⟨-, -, -, hrows⟩ := (save_new (b := newBooking c id req vres) hnew).1 hsave
    refine ⟨newBooking c id req vres, ?_, ?_⟩
    · simp only [Job.plan, hrequest, hlimit, hvalidate]
      rfl
    · have hwritten : written x.own.bookings (newBooking c id req vres) = (newBooking c id req vres).inserted := by
        rw [written, show x.own.bookings.find? (newBooking c id req vres).id = none from hnew]
      rw [hwritten]
      exact hrows
  · rw [herror] at hon
    cases hon

theorem execute_eq (admits : Booking → Bool) (t : Table Booking) (p : Policy) (req : UpdateRequest) :
    execute admits t p resources req = (do
      let b ← findById t req.bookingId
      let b' ← (Job.move p req b).plan resources t
      save admits t b') := rfl

end BookingSystem.Concurrency.CompositeRooms
