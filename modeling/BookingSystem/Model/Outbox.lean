import BookingSystem.Model.Entities
import Mathlib.Data.List.Sort
import Mathlib.Algebra.Group.Int.Defs

/-!
# The outboxes

Webhooks, notifications and calendar pushes are rows of an outbox, which a cron job drains every minute. The three
services claim their rows in the same way, and differ in what they send and in how a row is settled afterwards.
-/

namespace BookingSystem.Model

open Base

inductive OutboxStatus
  | pending | processing | sent | failed
  deriving DecidableEq, Repr

/-- A row of an outbox, with what is to be sent. `sentAt` is `delivered_at` for a webhook. -/
structure OutboxRow (π : Type) where
  id : Uuid
  payload : π
  status : OutboxStatus := .pending
  attemptCount : ℕ := 0
  nextAttemptAt : Instant
  sentAt : Option Instant := none
  lastError : Option String := none
  updatedAt : Instant

instance {π : Type} : Keyed (OutboxRow π) Uuid := ⟨OutboxRow.id⟩

namespace Outbox

def maxAttempts : ℕ := 6
def drainBatch : ℕ := 50
def staleProcessingMs : ℤ := 10 * 60 * 1000

variable {π : Type}

/-! ### Claiming -/

/-- A row that a drain picks up: one that waits, or one that was left in processing for too long. -/
def due (now : Instant) (r : OutboxRow π) : Bool :=
  decide (r.nextAttemptAt ≤ now) &&
    (r.status == .pending || (r.status == .processing && decide (r.updatedAt ≤ now - staleProcessingMs)))

/-- The rows `claimDue` reads: those that are due, without the ones somebody else has locked. -/
def batch (now : Instant) (locked : List Uuid) (t : Table (OutboxRow π)) : List (OutboxRow π) :=
  ((t.rows.filter fun r => due now r && !locked.contains r.id).insertionSort
    fun r r' => r.nextAttemptAt ≤ r'.nextAttemptAt).take drainBatch

/-- `claimDue`: the rows of the batch are marked, and handed out as they were read. -/
def claimDue (now : Instant) (locked : List Uuid) (t : Table (OutboxRow π)) :
    Table (OutboxRow π) × List (OutboxRow π) :=
  let rows := batch now locked t
  (t.update (fun r => (rows.map (·.id)).contains r.id) (fun r => { r with status := .processing, updatedAt := now }),
    rows)

/-! ### Settling -/

def backoffMs (attempts : ℕ) : ℤ := 30 * 4 ^ (attempts - 1) * 1000

def slice (n : ℕ) (s : String) : String := String.ofList (s.toList.take n)

/-- A failed attempt: the row goes back into the queue, or has failed for good. -/
def retryLater (now : Instant) (r : OutboxRow π) : OutboxRow π :=
  if maxAttempts ≤ r.attemptCount then { r with status := .failed }
  else { r with status := .pending, nextAttemptAt := now + backoffMs r.attemptCount }

def recordFailure (now : Instant) (error : String) (r : OutboxRow π) : OutboxRow π :=
  retryLater now { r with attemptCount := r.attemptCount + 1, lastError := some (slice 1024 error) }

def recordSent (now : Instant) (r : OutboxRow π) : OutboxRow π := { r with status := .sent, sentAt := some now }

end Outbox

/-! ### The three services -/

namespace NotificationsService

open Outbox

/-- A mail to be sent. -/
structure Notification where
  event : String
  recipientEmail : String
  deriving DecidableEq, Repr

/-- `deliverOne` once the mail was sent or was not. -/
def deliverOne (now : Instant) (outcome : Except String Unit) (r : OutboxRow Notification) : OutboxRow Notification :=
  match outcome with
  | .ok _ => recordSent now r
  | .error e => recordFailure now e r

end NotificationsService

namespace WebhooksService

open Outbox

/-- The row of a webhook delivery, with the answer to its last attempt. -/
structure Delivery where
  subscriptionId : Uuid
  event : String
  lastStatus : Option ℕ := none
  deriving DecidableEq, Repr

/-- What an attempt to deliver meets: no subscription to deliver to, a target that fails the check of its address, or
an answer of the target; status `0` stands for no answer. -/
inductive Attempt
  | noSubscription
  | unsafeTarget (message : String)
  | answered (status : ℕ) (message : String)

def revalidationDelayMs : ℤ := 30 * 60000

def deliverOne (now : Instant) (attempt : Attempt) (r : OutboxRow Delivery) : OutboxRow Delivery :=
  match attempt with
  | .noSubscription => { r with status := .failed, lastError := some "subscription missing or inactive" }
  | .unsafeTarget message =>
    let r := { r with
      attemptCount := r.attemptCount + 1
      lastError := some ("target failed safety re-validation: " ++ slice 512 message) }
    if maxAttempts ≤ r.attemptCount then { r with status := .failed }
    else { r with status := .pending, nextAttemptAt := now + revalidationDelayMs }
  | .answered status message =>
    let r := { r with
      attemptCount := r.attemptCount + 1
      payload := { r.payload with lastStatus := if status = 0 then none else some status }
      lastError := some (slice 1024 message) }
    if 200 ≤ status ∧ status < 300 then recordSent now r else retryLater now r

end WebhooksService

namespace SyncOutboxService

open Outbox

/-- `deliverOne` once both calendars were tried: the errors that reached it. -/
def settleRow {π : Type} (now : Instant) (errors : List String) (r : OutboxRow π) : OutboxRow π :=
  if errors.isEmpty then recordSent now r else recordFailure now ("; ".intercalate errors) r

end SyncOutboxService

end BookingSystem.Model
