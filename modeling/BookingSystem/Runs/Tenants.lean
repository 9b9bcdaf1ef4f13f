import BookingSystem.Concurrency.Release
import BookingSystem.Effects.Chains
import BookingSystem.Effects.Sweeps

/-!
# Rooms and tenants

A booking is made in a room that was looked up under the caller's tenant, and moved only to such a room; nothing else
writes the tenant or the room of a booking. So as long as no room changes hands, the bookings of a room are those of
its tenant in every state (`owned_run`), which the sweep for unused bookings relies on when it remembers the rooms it
has looked up (`oneTenant_run`).
-/

namespace BookingSystem.Runs

open Base Model Model.BookingsService
open Model.ApprovalsService Effects

/-- Every booking is of the tenant that its room belongs to. -/
def Owned (owner : Uuid → Uuid) (t : Table Booking) : Prop :=
  ∀ id b, t.find? id = some b → b.tenantId = owner b.resourceId

/-- The rooms belong to their tenants. -/
def RoomsOwned (owner : Uuid → Uuid) (env : Env) : Prop := ∀ r ∈ env.resources.rows, r.tenantId = owner r.id

/-- The booking is in the room it was in, under the same tenant. -/
def SamePlace (b b' : Booking) : Prop := b'.tenantId = b.tenantId ∧ b'.resourceId = b.resourceId

section Writes

variable {owner : Uuid → Uuid} {env : Env} {now : Instant} {st st' : Store} {t t' : Table Booking}

theorem Owned.map {f : Booking → Booking} (h : Owned owner t) (hf : ∀ b, SamePlace b (f b))
    (hmap : ∀ id, t'.find? id = (t.find? id).map f) : Owned owner t' := by
  intro id b' hb'
  rw [hmap, Option.map_eq_some_iff] at hb'
  obtain ⟨b, hb, rfl⟩ := hb'
  obtain ⟨hten, hroom⟩ := hf b
  rw [hten, hroom]
  exact h id b hb

theorem Owned.update {p : Booking → Bool} {f : Booking → Booking} (h : Owned owner t)
    (hk : ∀ b, (key (f b) : Uuid) = key b) (hf : ∀ b, SamePlace b (f b)) : Owned owner (t.update p f hk) := by
  refine h.map (f := fun b => if p b then f b else b) (fun b => ?_) fun id => Table.find?_update ..
  split
  · exact hf b
  · exact ⟨rfl, rfl⟩

theorem Owned.save {b v : Booking} (h : Owned owner t) (hb : t.find? b.id = some b) (hv : SamePlace b v) :
    Owned owner (t.save v) := by
  intro id x hx
  rw [Table.find?_save_map, Option.map_eq_some_iff] at hx
  obtain ⟨y, hy, rfl⟩ := hx
  split
  · rw [hv.1, hv.2]
    exact h b.id b hb
  · exact h id y hy

theorem Owned.saveFound {b v : Booking} {tenantId id : Uuid} (h : Owned owner t)
    (hb : findBooking t tenantId id = some b) (hv : SamePlace b v) : Owned owner (t.save v) := by
  obtain ⟨hfind, -⟩ := findBooking_eq_some.1 hb
  have hid : b.id = id := Table.key_of_find? hfind
  exact h.save (by rw [hid, hfind]) hv

theorem RoomsOwned.resource (henv : RoomsOwned owner env) {tenantId rid : Uuid} {r : Resource}
    (hr : env.resource tenantId rid = some r) : tenantId = owner r.id := by
  obtain ⟨hmem, -, hten⟩ := Env.resource_eq_some.1 hr
  rw [← hten]
  exact henv r hmem

theorem owned_create {fresh : Fresh} {tenantId userId : Uuid} {dto : CreateBookingDto} {row : Booking}
    (henv : RoomsOwned owner env) (h : Owned owner st.bookings)
    (hc : create env now fresh tenantId userId dto st = .ok (st', row)) : Owned owner st'.bookings := by
  obtain ⟨slot, hadm, hins⟩ := create_inserts hc
  intro id b hb
  rw [Table.find?_insert? hins] at hb
  split at hb
  · cases hb
    rw [hadm.tenantId, hadm.resourceId]
    exact henv.resource hadm.resource
  · exact h id b hb

theorem owned_moved {tenantId userId : Uuid} {role : String} {dto : UpdateBookingDto} {covers : Booking → Prop}
    (henv : RoomsOwned owner env) (h : Owned owner t) (hm : Moves env tenantId userId role dto covers t t') :
    Owned owner t' := by
  intro id b' hb'
  obtain ⟨b, hb, hten, -, hroom⟩ := hm.back hb'
  rcases hroom with hsame | ⟨-, hbten, -, r, -, hr, hrid⟩
  · rw [hten, hsame]
    exact h id b hb
  · rw [hten, hbten, hrid]
    exact henv.resource hr

end Writes

/-! ### One call -/

section Calls

variable {owner : Uuid → Uuid} {env : Env} {now : Instant} {st : Store}

theorem owned_settle {α : Type} {x : Except HttpError (Store × α)} (h : Owned owner st.bookings)
    (hx : ∀ st' r, x = .ok (st', r) → Owned owner st'.bookings) : Owned owner (settle x st).bookings :=
  settle_induction (P := fun s : Store => Owned owner s.bookings) h fun r hr => hx r.1 r.2 hr

theorem owned_redeemToken {token : String} {st' : Store} {r : Uuid × Option Instant} (h : Owned owner st.bookings)
    (hr : CheckinService.redeemToken now token st = .ok (st', r)) : Owned owner st'.bookings := by
  obtain ⟨claim, at', -, hclaim, rfl⟩ := redeemToken_ok hr
  have hrow : st.bookings.find? claim.id = some claim := Table.find?_of_mem (List.mem_of_find?_eq_some hclaim)
  have hburnt := h.update (p := CheckinService.claims now token) CheckinService.key_burn fun b => ⟨rfl, rfl⟩
  refine hburnt.save (b := CheckinService.burn claim) ?_ ⟨rfl, rfl⟩
  rw [Table.find?_update]
  show Option.map _ (st.bookings.find? claim.id) = _
  rw [hrow, Option.map_some, if_pos (List.find?_some hclaim)]

theorem owned_decide {user : AuthUser} {bookingId : Uuid} {input : DecideInput} (h : Owned owner st.bookings) :
    Owned owner (settle (ApprovalsService.decide env now user bookingId input st) st).bookings := by
  refine owned_settle h fun st' r hok => ?_
  rcases decide_ok hok with ⟨b, hleg, -, hst⟩ | ⟨i, step, -, rfl⟩
  · rcases hst with hbk | ⟨hbk, -⟩
    · rw [hbk]
      refine h.saveFound hleg.found ?_
      unfold legacyDecided
      cases input.status <;> exact ⟨rfl, rfl⟩
    · rw [hbk]
      exact h
  · refine h.map (fun b => ?_) fun id => commitStepDecision_find? ..
    split
    · exact (decidedBooking_same ..).2
    · exact ⟨rfl, rfl⟩

theorem owned_autoRejectStale (tenantId bookingId : Uuid) (h : Owned owner st.bookings) :
    Owned owner (autoRejectStale now tenantId bookingId st).bookings := by
  rcases autoRejectStale_cases now tenantId bookingId st with hsame | ⟨b, hb, -, hbk, -⟩
  · rw [hsame]
    exact h
  · rw [hbk]
    exact h.saveFound hb ⟨rfl, rfl⟩

/-- **One call.** Whatever is called, every booking stays under the tenant of its room. -/
theorem owned_step {e : Event} (henv : RoomsOwned owner e.env) (h : Owned owner st.bookings) :
    Owned owner (step st e).bookings := by
  obtain ⟨env, now, op⟩ := e
  cases op with
  | create tenantId userId dto fresh => exact owned_settle h fun st' row hr => owned_create henv h hr
  | createSeries tenantId userId dto recurrenceId occurrences fresh =>
    refine owned_settle h fun st' ids hr => ?_
    exact createSeries_ok (P := fun s : Store => Owned owner s.bookings) hr h
      fun _ _ _ _ _ _ _ hP hc => owned_create henv hP hc
  | update tenantId userId role id dto =>
    exact owned_settle h fun st' saved hr => owned_moved henv h (update_moves hr).1
  | updateSeries tenantId userId role id dto =>
    exact owned_settle h fun st' r hr => owned_moved henv h (updateSeries_moves hr).1
  | cancel tenantId userId role id reason =>
    refine owned_settle h fun st' saved hr => ?_
    obtain ⟨b, hb, -, ⟨-, rfl⟩ | ⟨-, notes, rfl⟩⟩ := cancel_ok hr
    · exact h
    · exact h.saveFound hb ⟨rfl, rfl⟩
  | issueToken tenantId userId isAdmin bookingId token =>
    refine owned_settle h fun st' r hr => ?_
    obtain ⟨b, hb, -, rfl⟩ := issueToken_ok hr
    exact h.saveFound hb ⟨rfl, rfl⟩
  | checkinByBooking tenantId userId isAdmin bookingId =>
    refine owned_settle h fun st' r hr => ?_
    obtain ⟨b, at', hb, -, -, rfl⟩ := checkinByBooking_ok hr
    exact h.saveFound hb ⟨rfl, rfl⟩
  | redeemToken token => exact owned_settle h fun st' r hr => owned_redeemToken h hr
  | markNoShow tenantId bookingId reason =>
    refine owned_settle h fun st' r hr => ?_
    rcases markNoShow_ok hr with rfl | ⟨b, notes, hb, -, rfl⟩
    · exact h
    · exact h.saveFound hb ⟨rfl, rfl⟩
  | markAttended tenantId bookingId =>
    refine owned_settle h fun st' r hr => ?_
    rcases markAttended_ok hr with rfl | ⟨b, hb, -, rfl⟩
    · exact h
    · exact h.saveFound hb ⟨rfl, rfl⟩
  | tick => exact tick_ok (P := Owned owner) h fun bookings b hP => hP.update _ fun c => ⟨rfl, rfl⟩
  | materialize booking newId =>
    show Owned owner (settle (materialize env now newId booking st) st).bookings
    rw [materialize_bookings]
    exact h
  | decide user bookingId input => exact owned_decide h
  | delegate user bookingId toUserId reason =>
    refine owned_settle h fun st' u hr => ?_
    rcases delegate_ok hr with ⟨s, -, -, rfl⟩ | ⟨b, notes, -, hb, -, rfl⟩
    · exact h
    · exact h.saveFound hb ⟨rfl, rfl⟩
  | runDueAutoApprovals =>
    refine h.map (fun b => ?_) fun id => runDueAutoApprovals_find? id
    split <;> exact ⟨rfl, rfl⟩
  | sweepStaleApprovals =>
    exact foldl_invariant (P := fun s : Store => Owned owner s.bookings)
      (fun _ b _ hP => owned_autoRejectStale b.tenantId b.id hP) h

end Calls

/-! ### Every run -/

/-- **Rooms and tenants.** While no room changes hands, every booking is under the tenant of its room. -/
theorem owned_run {owner : Uuid → Uuid} {es : List Event} (hes : ∀ e ∈ es, RoomsOwned owner e.env) :
    Owned owner (run Store.empty es).bookings := by
  have hempty : Owned owner Store.empty.bookings := fun id b hb => by cases hb
  exact foldl_invariant (P := fun s : Store => Owned owner s.bookings) (fun s e he hP => owned_step (hes e he) hP)
    hempty

/-- The bookings of a room are those of one tenant. -/
theorem oneTenant_run {owner : Uuid → Uuid} {es : List Event} (hes : ∀ e ∈ es, RoomsOwned owner e.env) :
    Concurrency.CheckinDesk.OneTenant (run Store.empty es).bookings := by
  intro b hb b' hb' hroom
  have h := owned_run hes
  rw [h b.id b (Table.find?_of_mem hb), h b'.id b' (Table.find?_of_mem hb'), hroom]

def oneRoomOffice : Env := office ⟨[{ id := "r", tenantId := "t" }], by decide⟩ .empty .empty

def twoHours : List Event :=
  [⟨oneRoomOffice, 0, requestRoom⟩,
    ⟨oneRoomOffice, 1, .create "t" "v" { resourceId := "r", startTime := 7200000, endTime := 10800000 }
      ⟨"c", fun i => "s" ++ toString i, "token"⟩⟩]

theorem oneTenant_twoHours : (run Store.empty twoHours).bookings.rows.length = 2 ∧
    Concurrency.CheckinDesk.OneTenant (run Store.empty twoHours).bookings := by
  have howned : ∀ e ∈ twoHours, RoomsOwned (fun _ => "t") e.env := by
    simp [twoHours, RoomsOwned, oneRoomOffice, office]
  exact ⟨by decide, oneTenant_run howned⟩

end BookingSystem.Runs
