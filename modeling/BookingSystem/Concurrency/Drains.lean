import BookingSystem.Base.Run
import BookingSystem.Model.Sync
import Mathlib.Logic.Function.Basic

/-!
# Drains of an outbox

Any number of workers drain an outbox: a worker claims a batch, delivers its rows one after the other, and saves each
row when it is through with it. A claim is a lease: a row that has been in processing for ten minutes is handed to the
next worker, whether the first one is still at it or not. So no row is delivered twice at a time, and no sent row again,
as long as no drain claims while another worker has held its batch for ten minutes (`no_double_delivery`).
-/

namespace BookingSystem.Concurrency

open Function (update update_of_ne update_self)
open Base Model Model.Outbox Effects

/-- A worker: when it has claimed its batch, the row that it is delivering, and the rows of the batch that wait. -/
structure Worker (π : Type) where
  claimedAt : Instant := 0
  delivering : Option (OutboxRow π) := none
  queue : List (OutboxRow π) := []

def Worker.held {π : Type} (k : Worker π) : List (OutboxRow π) := k.delivering.toList ++ k.queue

/-- An outbox and its workers. -/
structure Drains (π : Type) where
  rows : Table (OutboxRow π)
  workers : ℕ → Worker π

/-- What happens: a row is enqueued, a worker claims a batch, takes the next row of its batch, or is through with a row
that it has delivered with the given outcome. -/
inductive DrainEvent (π ω : Type)
  | enqueue (id : Uuid) (payload : π) (now : Instant)
  | claim (w : ℕ) (now : Instant) (locked : List Uuid)
  | start (w : ℕ)
  | finish (w : ℕ) (now : Instant) (outcome : ω)

section Machine

variable {π ω : Type} (deliver : Instant → ω → OutboxRow π → OutboxRow π)

/-- The outbox after an event. A worker claims when it is through with its batch; a save writes the row as the worker
has it. -/
def drain (s : Drains π) (e : DrainEvent π ω) : Drains π :=
  match e with
  | .enqueue id payload now =>
    let row := { id := id, payload := payload, nextAttemptAt := now, updatedAt := now }
    { s with rows := (s.rows.insert? row).getD s.rows }
  | .claim w now locked =>
    if (s.workers w).held.isEmpty then
      let claimed := claimDue now locked s.rows
      ⟨claimed.1, update s.workers w { claimedAt := now, queue := claimed.2 }⟩
    else s
  | .start w =>
    match (s.workers w).delivering, (s.workers w).queue with
    | none, r :: queue =>
      { s with workers := update s.workers w { s.workers w with delivering := some r, queue := queue } }
    | _, _ => s
  | .finish w now outcome =>
    match (s.workers w).delivering with
    | some r =>
      ⟨s.rows.save { deliver now outcome r with updatedAt := now },
        update s.workers w { s.workers w with delivering := none }⟩
    | none => s

end Machine

def DrainEvent.worker {π ω : Type} : DrainEvent π ω → Option ℕ
  | .enqueue .. => none
  | .claim w _ _ | .start w | .finish w _ _ => some w

theorem drain_other {π ω : Type} {deliver : Instant → ω → OutboxRow π → OutboxRow π} {s : Drains π}
    {e : DrainEvent π ω} {w : ℕ} (h : e.worker ≠ some w) : (drain deliver s e).workers w = s.workers w := by
  have hne : ∀ {w'}, e.worker = some w' → w ≠ w' := by
    rintro w' hw' rfl
    exact h hw'
  unfold drain
  split
  · rfl
  · split
    · exact update_of_ne (hne rfl) _ _
    · rfl
  · split
    · exact update_of_ne (hne rfl) _ _
    · rfl
  · split
    · exact update_of_ne (hne rfl) _ _
    · rfl

/-- **No double delivery.** No two workers deliver the same row at a time, and no row that is sent is delivered. -/
structure NoDoubleDelivery {π : Type} (s : Drains π) : Prop where
  alone : ∀ w w' r r', w ≠ w' → (s.workers w).delivering = some r → (s.workers w').delivering = some r' →
    r.id ≠ r'.id
  unsent : ∀ w r row, (s.workers w).delivering = some r → s.rows.find? r.id = some row → row.status ≠ .sent

/-- When a batch is claimed, every worker that holds rows has claimed them less than ten minutes before. -/
def ClaimsInTime {π ω : Type} (s : Drains π) (e : DrainEvent π ω) : Prop :=
  match e with
  | .claim _ now _ => ∀ w, (s.workers w).held ≠ [] → now - staleProcessingMs < (s.workers w).claimedAt
  | _ => True

/-! ### Who holds what -/

/-- Every row that a worker holds is marked with the time of the worker's claim, and no row is held twice. -/
structure Leases {π : Type} (s : Drains π) : Prop where
  marked : ∀ w, ∀ r ∈ (s.workers w).held, ∃ row, s.rows.find? r.id = some row ∧ row.status = .processing ∧
    row.updatedAt = (s.workers w).claimedAt
  nodup : ∀ w, ((s.workers w).held.map (·.id)).Nodup
  apart : ∀ w w', w ≠ w' → ∀ r ∈ (s.workers w).held, ∀ r' ∈ (s.workers w').held, r.id ≠ r'.id

section Step

variable {π ω : Type} {deliver : Instant → ω → OutboxRow π → OutboxRow π} {s : Drains π}

theorem Leases.noDoubleDelivery (h : Leases s) : NoDoubleDelivery s := by
  have hheld : ∀ {w r}, (s.workers w).delivering = some r → r ∈ (s.workers w).held := by
    intro w r hr
    simp [Worker.held, hr]
  constructor
  · intro w w' r r' hne hr hr'
    exact h.apart w w' hne r (hheld hr) r' (hheld hr')
  · intro w r row hr hrow
    obtain ⟨row', hrow', hst, -⟩ := h.marked w r (hheld hr)
    obtain rfl := Option.some.inj (hrow.symm.trans hrow')
    rw [hst]
    nofun

theorem Leases.rows {t : Table (OutboxRow π)} (h : Leases s)
    (hsame : ∀ w, ∀ r ∈ (s.workers w).held, t.find? r.id = s.rows.find? r.id) : Leases { s with rows := t } where
  marked w r hr := by
    rw [show Drains.rows { s with rows := t } = t from rfl, hsame w r hr]
    exact h.marked w r hr
  nodup := h.nodup
  apart := h.apart

theorem Leases.worker {w : ℕ} {k : Worker π} (h : Leases s) (hclaim : k.claimedAt = (s.workers w).claimedAt)
    (hsub : k.held.Sublist (s.workers w).held) : Leases { s with workers := update s.workers w k } := by
  have hmem : ∀ w', ∀ r ∈ (update s.workers w k w').held, r ∈ (s.workers w').held := by
    intro w' r hr
    by_cases hw : w' = w
    · subst hw
      rw [update_self] at hr
      exact hsub.subset hr
    · rw [update_of_ne hw] at hr
      exact hr
  constructor
  · intro w' r hr
    obtain ⟨row, hrow, hst, hat⟩ := h.marked w' r (hmem w' r hr)
    refine ⟨row, hrow, hst, ?_⟩
    by_cases hw : w' = w
    · subst hw
      rw [hat, ← hclaim]
      exact (congrArg Worker.claimedAt (update_self w' k s.workers)).symm
    · rw [hat]
      exact (congrArg Worker.claimedAt (update_of_ne hw k s.workers)).symm
  · intro w'
    by_cases hw : w' = w
    · subst hw
      simp only [update_self]
      exact (hsub.map _).nodup (h.nodup w')
    · simp only [update_of_ne hw]
      exact h.nodup w'
  · intro w₁ w₂ hne r hr r' hr'
    exact h.apart w₁ w₂ hne r (hmem w₁ r hr) r' (hmem w₂ r' hr')

/-- **A claim.** A drain that claims in time takes no row that a worker holds. -/
theorem Leases.claim {w : ℕ} {now : Instant} {locked : List Uuid} (h : Leases s)
    (hidle : (s.workers w).held = [])
    (htime : ∀ w, (s.workers w).held ≠ [] → now - staleProcessingMs < (s.workers w).claimedAt) :
    Leases ⟨(claimDue now locked s.rows).1,
      update s.workers w { claimedAt := now, queue := (claimDue now locked s.rows).2 }⟩ := by
  -- a row that is held is in processing, and too young to be due
  have hfree : ∀ w', ∀ r ∈ (s.workers w').held, ∀ r' ∈ batch now locked s.rows, r.id ≠ r'.id := by
    intro w' r hr r' hr' hid
    obtain ⟨row, hrow, hst, hat⟩ := h.marked w' r hr
    obtain ⟨hmem, hdue⟩ := mem_batch hr'
    have hfind : s.rows.find? r'.id = some r' := Table.find?_of_mem hmem
    rw [hid, hfind] at hrow
    obtain rfl := Option.some.inj hrow
    have hyoung := htime w' (List.ne_nil_of_mem hr)
    simp only [Outbox.due, hst, hat, Bool.and_eq_true, decide_eq_true_eq, Bool.or_eq_true, beq_iff_eq, reduceCtorEq,
      false_or, true_and] at hdue
    exact absurd hdue.2 (not_le.2 hyoung)
  have hheld : (⟨now, none, (claimDue now locked s.rows).2⟩ : Worker π).held = batch now locked s.rows := rfl
  constructor
  · intro w' r hr
    by_cases hw : w' = w
    · subst hw
      simp only [update_self, hheld] at hr ⊢
      obtain ⟨hmem, -⟩ := mem_batch hr
      refine ⟨{ r with status := .processing, updatedAt := now }, ?_, rfl, rfl⟩
      have hin : ((batch now locked s.rows).map (·.id)).contains r.id = true := by
        rw [List.contains_iff_mem]
        exact List.mem_map_of_mem hr
      have hfind : s.rows.find? r.id = some r := Table.find?_of_mem hmem
      rw [find?_claimDue, hfind, Option.map_some, if_pos hin]
    · simp only [update_of_ne hw] at hr ⊢
      obtain ⟨row, hrow, hst, hat⟩ := h.marked w' r hr
      refine ⟨row, ?_, hst, hat⟩
      have hout : ((batch now locked s.rows).map (·.id)).contains row.id = false := by
        rw [← Bool.not_eq_true, List.contains_iff_mem, List.mem_map]
        rintro ⟨r', hr', hid⟩
        exact hfree w' r hr r' hr' (hid.trans (Table.key_of_find? hrow)).symm
      rw [find?_claimDue, hrow, Option.map_some, hout]
      rfl
  · intro w'
    by_cases hw : w' = w
    · subst hw
      simp only [update_self, hheld]
      exact nodup_batch
    · simp only [update_of_ne hw]
      exact h.nodup w'
  · intro w₁ w₂ hne r hr r' hr'
    by_cases hw₁ : w₁ = w
    · subst hw₁
      simp only [update_self, hheld] at hr
      simp only [update_of_ne hne.symm] at hr'
      exact (hfree w₂ r' hr' r hr).symm
    · simp only [update_of_ne hw₁] at hr
      by_cases hw₂ : w₂ = w
      · subst hw₂
        simp only [update_self, hheld] at hr'
        exact hfree w₁ r hr r' hr'
      · simp only [update_of_ne hw₂] at hr'
        exact h.apart w₁ w₂ hne r hr r' hr'

/-- **One event.** -/
theorem Leases.drain (hid : ∀ now o r, (deliver now o r).id = r.id) (h : Leases s) {e : DrainEvent π ω}
    (hC : ClaimsInTime s e) : Leases (drain deliver s e) := by
  cases e with
  | enqueue id payload now =>
    unfold Concurrency.drain
    dsimp only
    cases hins : s.rows.insert? { id := id, payload := payload, nextAttemptAt := now, updatedAt := now } with
    | none => exact h
    | some t =>
      refine h.rows fun w r hr => ?_
      obtain ⟨row, hrow, -⟩ := h.marked w r hr
      rw [Option.getD_some, Table.find?_insert? hins, if_neg]
      rintro hk
      rw [← hk, (Table.insert?_eq_some_iff.1 hins).1] at hrow
      cases hrow
  | claim w now locked =>
    unfold Concurrency.drain
    dsimp only
    split
    · rename_i hidle
      exact h.claim (List.isEmpty_iff.1 hidle) hC
    · exact h
  | start w =>
    unfold Concurrency.drain
    dsimp only
    split
    · rename_i r queue hnone hqueue
      refine h.worker rfl ?_
      simp [Worker.held, hnone, hqueue]
    · exact h
  | finish w now outcome =>
    unfold Concurrency.drain
    dsimp only
    split
    · rename_i r hr
      -- first the worker lets go of the row, then the row is saved: nobody holds it any more
      have hgone : Leases { s with
          workers := update s.workers w { s.workers w with delivering := none } } := by
        refine h.worker rfl ?_
        simp [Worker.held, hr]
      refine hgone.rows fun w' r' hr' => Table.find?_save_of_ne ?_
      show (deliver now outcome r).id ≠ r'.id
      rw [hid]
      have hheld : (s.workers w).held = r :: (s.workers w).queue := by simp [Worker.held, hr]
      by_cases hw : w' = w
      · subst hw
        simp only [update_self] at hr'
        have hnodup := h.nodup w'
        rw [hheld, List.map_cons, List.nodup_cons, List.mem_map] at hnodup
        intro heq
        exact hnodup.1 ⟨r', by simpa [Worker.held] using hr', heq.symm⟩
      · simp only [update_of_ne hw] at hr'
        exact h.apart w w' (Ne.symm hw) r (by rw [hheld]; exact List.mem_cons_self) r' hr'
    · exact h

end Step

/-! ### The three outboxes -/

inductive OutboxKind
  | webhooks | notifications | calendarSync

def OutboxKind.Payload : OutboxKind → Type
  | .webhooks => WebhooksService.Delivery
  | .notifications => NotificationsService.Notification
  | .calendarSync => SyncOutboxService.Push

def OutboxKind.Outcome : OutboxKind → Type
  | .webhooks => WebhooksService.Attempt
  | .notifications => Except String Unit
  | .calendarSync => List String

/-- How `deliverOne` leaves the row. -/
def OutboxKind.deliverOne : (o : OutboxKind) → Instant → o.Outcome → OutboxRow o.Payload → OutboxRow o.Payload
  | .webhooks => WebhooksService.deliverOne
  | .notifications => NotificationsService.deliverOne
  | .calendarSync => SyncOutboxService.settleRow

theorem id_deliverOne (o : OutboxKind) (now : Instant) (outcome : o.Outcome) (r : OutboxRow o.Payload) :
    (o.deliverOne now outcome r).id = r.id := by
  cases o with
  | webhooks =>
    show (WebhooksService.deliverOne now outcome r).id = r.id
    unfold WebhooksService.deliverOne
    split
    · rfl
    · dsimp only
      split <;> rfl
    · dsimp only
      split
      · rfl
      · exact id_retryLater ..
  | notifications =>
    show (NotificationsService.deliverOne now outcome r).id = r.id
    unfold NotificationsService.deliverOne
    split
    · rfl
    · exact id_retryLater ..
  | calendarSync =>
    show (SyncOutboxService.settleRow now outcome r).id = r.id
    unfold SyncOutboxService.settleRow
    split
    · rfl
    · exact id_retryLater ..

def atRest {π : Type} (rows : Table (OutboxRow π)) : Drains π := ⟨rows, fun _ => {}⟩

theorem leases_atRest {π : Type} (rows : Table (OutboxRow π)) : Leases (atRest rows) := by
  constructor
  · intro w r hr
    cases hr
  · intro w
    exact List.nodup_nil
  · intro w w' _ r hr
    cases hr

/-- **No double delivery.** In every run of one of the three outboxes with any number of workers in which every drain
claims while no worker has held its batch for ten minutes, no two workers ever deliver the same row, and no row that is
sent is delivered. -/
theorem no_double_delivery (o : OutboxKind) {rows : Table (OutboxRow o.Payload)}
    {es : List (DrainEvent o.Payload o.Outcome)} (hC : AllSteps (drain o.deliverOne) ClaimsInTime (atRest rows) es) :
    ∀ p q, es = p ++ q → NoDoubleDelivery (run (drain o.deliverOne) (atRest rows) p) := by
  rintro p q rfl
  refine Leases.noDoubleDelivery ?_
  exact run_invariant (fun s e h hC => h.drain (id_deliverOne o) hC) (leases_atRest rows) (allSteps_append.1 hC).1

/-! ### A slow delivery -/

def oneNotification : Table (OutboxRow OutboxKind.notifications.Payload) :=
  ⟨[{ id := "n", payload := ⟨"BOOKING_CREATED", "u@company.example"⟩, nextAttemptAt := 0, updatedAt := 0 }],
    by simp⟩

def secondDrainAt (now : Instant) :
    List (DrainEvent OutboxKind.notifications.Payload OutboxKind.notifications.Outcome) :=
  [.claim 0 0 [], .start 0, .claim 1 now [], .start 1]

/-- The second drain comes a minute later. -/
theorem no_double_delivery_minute :
    NoDoubleDelivery
      (run (drain OutboxKind.notifications.deliverOne) (atRest oneNotification) (secondDrainAt 60000)) := by
  refine no_double_delivery .notifications ?_ _ [] (List.append_nil _).symm
  refine ⟨fun w hheld => absurd rfl hheld, trivial, fun w hheld => ?_, trivial, trivial⟩
  by_cases hw : w = 0
  · subst hw
    decide
  · have hother : ∀ e : DrainEvent OutboxKind.notifications.Payload OutboxKind.notifications.Outcome,
        e.worker = some 0 → e.worker ≠ some w := by
      rintro e he h
      exact hw (Option.some.inj (h.symm.trans he))
    refine absurd ?_ hheld
    rw [drain_other (hother _ rfl), drain_other (hother _ rfl)]
    rfl

/-- The second drain comes ten minutes later, and both workers send the mail. -/
theorem double_delivery :
    ¬ ∀ (o : OutboxKind) (rows : Table (OutboxRow o.Payload)) (es : List (DrainEvent o.Payload o.Outcome)),
      ∀ p q, es = p ++ q → NoDoubleDelivery (run (drain o.deliverOne) (atRest rows) p) := by
  intro h
  have hboth := (h .notifications oneNotification (secondDrainAt 600000) _ [] (List.append_nil _).symm).alone 0 1
  exact hboth _ _ (by decide) rfl rfl rfl

end BookingSystem.Concurrency
