import Mathlib.Data.List.Sort
import BookingSystem.Model.Entities

/-!
# The deliveries of the webhook worker

A row of `webhook_deliveries` for each event and subscription. `attempt` posts it once; the row keeps how many attempts
were made, and when the next one is due. The retry loop scans for rows that are due and starts an attempt for each.
-/

namespace BookingSystem.Service

open Base
open Model (Uuid Instant)

/-- A subscription, as far as a delivery needs it. -/
structure Subscription where
  id : Uuid
  targetUrl : String
  secret : String
  deriving DecidableEq, Repr

instance : Keyed Subscription Uuid := ⟨Subscription.id⟩

structure Delivery where
  id : Uuid
  tenantId : Uuid
  subscriptionId : Uuid
  event : String
  payload : String
  attemptCount : ℕ := 0
  lastStatus : Option ℕ := none
  lastError : Option String := none
  nextAttemptAt : Instant
  deliveredAt : Option Instant := none
  deriving DecidableEq, Repr

instance : Keyed Delivery Uuid := ⟨Delivery.id⟩

@[simp] theorem key_delivery (d : Delivery) : (key d : Uuid) = d.id := rfl

/-- The arguments of a call of `attempt`. -/
structure Attempt where
  id : Uuid
  target : String
  secret : String
  event : String
  payload : String
  priorAttempts : ℕ
  deriving DecidableEq, Repr

/-- What a POST comes back with: an error of the transport, or a response with the first 2048 bytes of its body. -/
inductive Answer
  | failed (err : String)
  | response (status : ℕ) (body : String)
  deriving DecidableEq, Repr

def backoff : List ℤ := [30000, 120000, 480000, 1800000, 7200000]

/-! ### The statements -/

def enqueued (id tenantId : Uuid) (sub : Subscription) (event payload : String) (now : Instant) : Delivery :=
  { id, tenantId, subscriptionId := sub.id, event, payload, nextAttemptAt := now }

/-- The first attempt, which `enqueueAndAttempt` starts itself. -/
def firstAttempt (id : Uuid) (sub : Subscription) (event payload : String) : Attempt :=
  { id, target := sub.targetUrl, secret := sub.secret, event, payload, priorAttempts := 0 }

/-- `UPDATE webhook_deliveries SET … WHERE id = $1`. -/
def setDelivery (id : Uuid) (f : Delivery → Delivery) (hf : ∀ d, (f d).id = d.id) (rows : Table Delivery) :
    Table Delivery :=
  rows.update (fun d => decide (d.id = id)) f hf

/-- `scheduleRetry`: the row waits for its next attempt, or is parked. -/
def scheduleRetry (id : Uuid) (attempt status : ℕ) (errMsg : String) (now : Instant) (rows : Table Delivery) :
    Table Delivery :=
  if backoff.length ≤ attempt then
    setDelivery id (fun d => { d with attemptCount := attempt, lastStatus := some status, lastError := some errMsg })
      (fun _ => rfl) rows
  else
    setDelivery id (fun d =>
      { d with
        attemptCount := attempt
        lastStatus := some status
        lastError := some errMsg
        nextAttemptAt := now + backoff.getD (attempt - 1) 0 })
      (fun _ => rfl) rows

/-- The end of `attempt`: what was answered at `answeredAt` is written at `now`. -/
def recordAnswer (a : Attempt) (answer : Answer) (answeredAt now : Instant) (rows : Table Delivery) : Table Delivery :=
  match answer with
  | .failed err => scheduleRetry a.id (a.priorAttempts + 1) 0 err answeredAt rows
  | .response status body =>
    if 200 ≤ status ∧ status < 300 then
      setDelivery a.id (fun d =>
        { d with
          attemptCount := a.priorAttempts + 1
          lastStatus := some status
          lastError := some ""
          deliveredAt := some now })
        (fun _ => rfl) rows
    else
      scheduleRetry a.id (a.priorAttempts + 1) status ("HTTP " ++ toString status ++ ": " ++ body) answeredAt rows

/-! ### The retry loop -/

def Delivery.due (now : Instant) (d : Delivery) : Bool :=
  d.deliveredAt.isNone && decide (d.attemptCount < 5) && decide (d.nextAttemptAt ≤ now)

def retryAttempt (subs : Table Subscription) (d : Delivery) : Option Attempt :=
  (subs.find? d.subscriptionId).map fun s =>
    { id := d.id, target := s.targetUrl, secret := s.secret, event := d.event, payload := d.payload,
      priorAttempts := d.attemptCount }

def retryScan (subs : Table Subscription) (now : Instant) (rows : Table Delivery) : List Attempt :=
  (((rows.rows.filter (Delivery.due now)).insertionSort fun d d' => d.nextAttemptAt ≤ d'.nextAttemptAt).filterMap
    (retryAttempt subs)).take 100

/-! ### What the statements write -/

theorem find?_setDelivery (id : Uuid) (f : Delivery → Delivery) (hf : ∀ d, (f d).id = d.id) (rows : Table Delivery)
    (k : Uuid) : (setDelivery id f hf rows).find? k = if k = id then (rows.find? k).map f else rows.find? k := by
  rw [setDelivery, Table.find?_update]
  cases h : rows.find? k with
  | none => simp
  | some d =>
    have hd : d.id = k := Table.key_of_find? h
    simp only [Option.map_some, decide_eq_true_eq, hd]
    split <;> rfl

theorem find?_scheduleRetry (id : Uuid) (attempt status : ℕ) (errMsg : String) (now : Instant) (rows : Table Delivery)
    (k : Uuid) : ∃ next : Delivery → Instant,
      (scheduleRetry id attempt status errMsg now rows).find? k = if k = id then
        (rows.find? k).map fun d =>
          { d with
            attemptCount := attempt
            lastStatus := some status
            lastError := some errMsg
            nextAttemptAt := next d }
      else rows.find? k := by
  unfold scheduleRetry
  split
  · exact ⟨Delivery.nextAttemptAt, find?_setDelivery ..⟩
  · exact ⟨fun _ => now + backoff.getD (attempt - 1) 0, find?_setDelivery ..⟩

theorem find?_recordAnswer_of_ne {a : Attempt} {answer : Answer} {answeredAt now : Instant} {rows : Table Delivery}
    {k : Uuid} (h : k ≠ a.id) : (recordAnswer a answer answeredAt now rows).find? k = rows.find? k := by
  have hretry : ∀ status errMsg,
      (scheduleRetry a.id (a.priorAttempts + 1) status errMsg answeredAt rows).find? k = rows.find? k := by
    intro status errMsg
    obtain ⟨next, hfind⟩ := find?_scheduleRetry a.id (a.priorAttempts + 1) status errMsg answeredAt rows k
    rw [hfind, if_neg h]
  cases answer with
  | failed err => exact hretry 0 err
  | response status body =>
    unfold recordAnswer
    dsimp only
    split
    · rw [find?_setDelivery, if_neg h]
    · exact hretry _ _

/-- The row of an attempt that is recorded counts the attempt as the one after those that it had read. -/
theorem find?_recordAnswer {a : Attempt} {answer : Answer} {answeredAt now : Instant} {rows : Table Delivery}
    {d : Delivery} (h : rows.find? a.id = some d) :
    ∃ d', (recordAnswer a answer answeredAt now rows).find? a.id = some d' ∧
      d'.attemptCount = a.priorAttempts + 1 := by
  have hretry : ∀ status errMsg, ∃ d',
      (scheduleRetry a.id (a.priorAttempts + 1) status errMsg answeredAt rows).find? a.id = some d' ∧
        d'.attemptCount = a.priorAttempts + 1 := by
    intro status errMsg
    obtain ⟨next, hfind⟩ := find?_scheduleRetry a.id (a.priorAttempts + 1) status errMsg answeredAt rows a.id
    rw [hfind, if_pos rfl, h]
    exact ⟨_, rfl, rfl⟩
  cases answer with
  | failed err => exact hretry 0 err
  | response status body =>
    unfold recordAnswer
    dsimp only
    split
    · rw [find?_setDelivery, if_pos rfl, h]
      exact ⟨_, rfl, rfl⟩
    · exact hretry _ _

theorem row_of_retryScan {subs : Table Subscription} {now : Instant} {rows : Table Delivery} {a : Attempt}
    (h : a ∈ retryScan subs now rows) :
    ∃ d, rows.find? a.id = some d ∧ d.due now = true ∧ a.priorAttempts = d.attemptCount := by
  obtain ⟨d, hd, hjoin⟩ := List.mem_filterMap.1 (List.mem_of_mem_take h)
  rw [(List.perm_insertionSort _ _).mem_iff, List.mem_filter] at hd
  obtain ⟨s, -, rfl⟩ := Option.map_eq_some_iff.1 hjoin
  exact ⟨d, Table.find?_of_mem hd.1, hd.2, rfl⟩

theorem retryAttempt_sublist (subs : Table Subscription) (ds : List Delivery) :
    ((ds.filterMap (retryAttempt subs)).map Attempt.id).Sublist (ds.map Delivery.id) := by
  induction ds with
  | nil => exact List.Sublist.refl _
  | cons d ds ih =>
    cases h : retryAttempt subs d with
    | none =>
      rw [List.filterMap_cons_none h]
      exact ih.cons _
    | some a =>
      obtain ⟨s, -, rfl⟩ := Option.map_eq_some_iff.1 h
      rw [List.filterMap_cons_some h]
      exact ih.cons_cons _

theorem nodup_retryScan (subs : Table Subscription) (now : Instant) (rows : Table Delivery) :
    ((retryScan subs now rows).map Attempt.id).Nodup := by
  have hrows : ((rows.rows.filter (Delivery.due now)).map Delivery.id).Nodup :=
    rows.nodup.sublist (List.filter_sublist.map _)
  have hsorted : (((rows.rows.filter (Delivery.due now)).insertionSort
      fun d d' => d.nextAttemptAt ≤ d'.nextAttemptAt).map Delivery.id).Nodup :=
    ((List.perm_insertionSort _ _).map _).nodup_iff.2 hrows
  exact (hsorted.sublist (retryAttempt_sublist subs _)).sublist ((List.take_sublist 100 _).map _)

end BookingSystem.Service
