import BookingSystem.Base.Timers
import BookingSystem.Model.Entities
import Mathlib.Logic.Function.Basic

/-!
# Broadcasts

`BroadcastsService` in one process without Redis. A broadcast is announced when its window opens and when it closes; the
timers of the runtime reach a day ahead, so a longer delay is a chain of timers of which each arms the next one. The
service keeps the handles of the first timers only. A call takes effect at one moment.
-/

namespace BookingSystem.Service.Broadcasts

open Base
open Model (Uuid Instant)

/-- `HORIZON_MS`. -/
def horizon : ℤ := 24 * 3600 * 1000

/-- A row of `broadcasts`, as far as it is announced. -/
structure Broadcast where
  id : Uuid
  tenantId : Uuid
  severity : String
  color : String
  startsAt : Instant
  endsAt : Instant
  deriving DecidableEq, Repr

structure BroadcastInput where
  severity : Option String := none
  filterSeverity : Option String := none
  color : Option String := none
  startsAt : Option Instant := none
  endsAt : Option Instant := none

def truthy (s : Option String) : Option String := s.filter fun s => s ≠ ""

/-- `normalise`, with `toLowerCase` of the language. -/
def normalise (lower : String → String) (id tenantId : Uuid) (input : BroadcastInput) (now : Instant) : Broadcast :=
  let startsAt := input.startsAt.getD now
  { id := id
    tenantId := tenantId
    severity := lower (((truthy input.severity).or (truthy input.filterSeverity)).getD "info")
    color := input.color.getD ""
    startsAt := startsAt
    endsAt := input.endsAt.getD (startsAt + 24 * 3600 * 1000) }

/-- The payload of `broadcast.published`. -/
inductive Payload
  | published (severity : String) (color : Option String)
  | removed
  deriving DecidableEq, Repr

/-- An event as it is emitted. -/
structure Announcement where
  tenantId : Uuid
  broadcastId : Uuid
  payload : Payload
  emittedAt : Instant
  deriving DecidableEq, Repr

/-- What a timer calls: the announcement of a broadcast, or `armAt` with what is left of the delay. -/
inductive Callback
  | announce (b : Broadcast)
  | rearm (delay : ℤ) (b : Broadcast)

/-- The runtime, the table, the handles that the service keeps, and what was emitted. -/
structure Announcer where
  clock : Clock Callback
  rows : Uuid → Option Broadcast := fun _ => none
  timers : Uuid → List ℕ := fun _ => []
  emitted : List Announcement := []

/-- The event of `announce`. -/
def notice (b : Broadcast) (now : Instant) : Announcement :=
  ⟨b.tenantId, b.id, .published b.severity (if b.color = "" then none else some b.color), now⟩

def announce (b : Broadcast) (s : Announcer) : Announcer :=
  { s with emitted := s.emitted ++ [notice b s.clock.now] }

/-- `armAt`: the handle is that of the first timer. -/
def armAt (delay : ℤ) (b : Broadcast) (c : Clock Callback) : Clock Callback :=
  if delay ≤ horizon then c.setTimeout (.announce b) (max 0 delay)
  else c.setTimeout (.rearm (delay - horizon) b) horizon

def cancelTimers (id : Uuid) (s : Announcer) : Announcer :=
  { s with
    clock := s.clock.clearTimeouts (s.timers id)
    timers := Function.update s.timers id [] }

def scheduleAnnouncement (b : Broadcast) (s : Announcer) : Announcer :=
  let s := cancelTimers b.id s
  let now := s.clock.now
  if b.endsAt ≤ now then s
  else if b.startsAt ≤ now then
    let s := announce b s
    { s with
      clock := armAt (b.endsAt - now) b s.clock
      timers := Function.update s.timers b.id [s.clock.next] }
  else
    let clock := armAt (b.startsAt - now) b s.clock
    { s with
      clock := armAt (b.endsAt - now) b clock
      timers := Function.update s.timers b.id [s.clock.next, clock.next] }

def saved (b : Broadcast) (s : Announcer) : Announcer :=
  scheduleAnnouncement b { s with rows := Function.update s.rows b.id (some b) }

def findOne (id tenantId : Uuid) (s : Announcer) : Option Broadcast :=
  (s.rows id).filter fun b => b.tenantId = tenantId

section

variable (lower : String → String)

/-- `create`, under an id that no row has. -/
def create (id tenantId : Uuid) (input : BroadcastInput) (s : Announcer) : Announcer :=
  if s.rows id = none then saved (normalise lower id tenantId input s.clock.now) s else s

def update (id tenantId : Uuid) (input : BroadcastInput) (s : Announcer) : Announcer :=
  match findOne id tenantId s with
  | some _ => saved (normalise lower id tenantId input s.clock.now) s
  | none => s

def remove (id tenantId : Uuid) (s : Announcer) : Announcer :=
  match findOne id tenantId s with
  | some _ =>
    let s := cancelTimers id { s with rows := Function.update s.rows id none }
    { s with emitted := s.emitted ++ [⟨tenantId, id, .removed, s.clock.now⟩] }
  | none => s

/-- A timer fires. -/
def fire (handle : ℕ) (s : Announcer) : Announcer :=
  match s.clock.fire? handle with
  | some (.announce b, clock) => announce b { s with clock := clock }
  | some (.rearm delay b, clock) => { s with clock := armAt delay b clock }
  | none => s

/-- What happens: a call, a timer that is due, or nothing for some milliseconds. -/
inductive Event
  | create (id tenantId : Uuid) (input : BroadcastInput)
  | update (id tenantId : Uuid) (input : BroadcastInput)
  | remove (id tenantId : Uuid)
  | fire (handle : ℕ)
  | wait (d : ℕ)

def step (s : Announcer) (e : Event) : Announcer :=
  match e with
  | .create id tenantId input => create lower id tenantId input s
  | .update id tenantId input => update lower id tenantId input s
  | .remove id tenantId => remove id tenantId s
  | .fire handle => fire handle s
  | .wait d => { s with clock := s.clock.wait d }

end

/-! ### Chains of timers -/

def Callback.broadcast : Callback → Broadcast
  | .announce b => b
  | .rearm _ b => b

/-- What is left of the delay when the timer fires. -/
def Callback.rest : Callback → ℤ
  | .announce _ => 0
  | .rearm delay _ => delay

def Callback.isFor (id : Uuid) (k : Callback) : Bool := decide (k.broadcast.id = id)

def pending (id : Uuid) (c : Clock Callback) : List Instant := c.targets Callback.rest (Callback.isFor id)

section

variable {c : Clock Callback} {b : Broadcast} {delay : ℤ} {id : Uuid}

/-- **However far a delay reaches, the chain ends when it is over.** -/
theorem pending_armAt (hdelay : 0 ≤ delay) :
    pending id (armAt delay b c) = pending id c ++ if b.id = id then [c.now + delay] else [] := by
  have hfor : ∀ k : Callback, k.broadcast = b → k.isFor id = decide (b.id = id) := fun k hk => by
    rw [Callback.isFor, hk]
  unfold armAt
  split
  · rw [pending, Clock.targets_setTimeout, hfor (.announce b) rfl, max_eq_right hdelay]
    simp [pending, Callback.rest]
  · rw [pending, Clock.targets_setTimeout, hfor (.rearm (delay - horizon) b) rfl]
    have hsum : c.now + horizon + (delay - horizon) = c.now + delay := by omega
    simp [pending, Callback.rest, hsum]

theorem armAt_eq (delay : ℤ) (b : Broadcast) (c : Clock Callback) : ∃ k : Callback, k.broadcast = b ∧ 0 ≤ k.rest ∧
    ∃ d : ℤ, 0 ≤ d ∧ armAt delay b c = c.setTimeout k d := by
  unfold armAt
  split
  · exact ⟨.announce b, rfl, le_refl 0, _, le_max_left 0 delay, rfl⟩
  · rename_i hfar
    have hhorizon : 0 ≤ horizon := by decide
    exact ⟨.rearm (delay - horizon) b, rfl, by change 0 ≤ delay - horizon; omega, _, hhorizon, rfl⟩

theorem sound_armAt (h : c.Sound) (delay : ℤ) (b : Broadcast) : (armAt delay b c).Sound := by
  obtain ⟨k, -, -, d, hd, heq⟩ := armAt_eq delay b c
  rw [heq]
  exact h.setTimeout k hd

theorem armAt_now (delay : ℤ) (b : Broadcast) (c : Clock Callback) :
    (armAt delay b c).now = c.now ∧ (armAt delay b c).next = c.next + 1 := by
  unfold armAt
  split <;> exact ⟨rfl, rfl⟩

end

end BookingSystem.Service.Broadcasts
