import BookingSystem.Effects.Chains
import BookingSystem.Model.System

/-!
# The stored booking mode

A booking carries the mode of its room, and the exclusion constraint of the database looks at this copy. `create`
copies the mode of the room and not whether the room is a pod, and an edit that moves the booking leaves the copy
behind. So the copy tracks the room in a run that books no split room marked as shared, and whose edits move bookings
only from pod to pod and from exclusive room to exclusive room (`stored_mode_tracks_room`).
-/

namespace BookingSystem.Runs

open Base Model Model.BookingsService Effects

/-- The calls that place one booking or move bookings. -/
def PlacesOrMoves (e : Event) : Prop :=
  match e.op with
  | .create .. | .update .. | .updateSeries .. => True
  | _ => False

def constrained (b : Booking) : Bool := b.bookingMode != .shared && !b.status.released

/-- A standing booking of a room that the conflict check takes for exclusive. -/
def HoldsExclusive (env : Env) (b : Booking) : Prop :=
  b.status.released = false ∧ ∃ r, env.resource b.tenantId b.resourceId = some r ∧ isPod r = false

/-- The stored mode is shared iff the room of the booking is a pod. -/
def TracksRoom (env : Env) (b : Booking) : Prop :=
  ∃ r, env.resource b.tenantId b.resourceId = some r ∧ (b.bookingMode = .shared ↔ isPod r = true)

/-- The room that an edit names is a pod iff the room of the booking is one. -/
def SamePod (env : Env) (dto : UpdateBookingDto) (b : Booking) : Prop :=
  ∀ r r', env.resource b.tenantId b.resourceId = some r → dto.resourceId = some r'.id →
    env.resource b.tenantId r'.id = some r' → isPod r' = isPod r

/-- A booking is placed in a shared room only if the room is a pod, and moved only between rooms that are both pods or
both not. -/
def KeepsMode (st : Store) (e : Event) : Prop :=
  match e.op with
  | .create tenantId _ dto _ =>
    ∀ r, e.env.resource tenantId dto.resourceId = some r → r.bookingMode = .shared → isPod r = true
  | .update tenantId _ _ id dto => ∀ b, findBooking st.bookings tenantId id = some b → SamePod e.env dto b
  | .updateSeries tenantId _ _ id dto => ∀ b, InSeries st.bookings tenantId id b → SamePod e.env dto b
  | _ => True

/-! ### One call -/

/-- The stored mode of every booking tracks its room. -/
def ModesTrack (env : Env) (bookings : Table Booking) : Prop := ∀ b ∈ bookings.rows, TracksRoom env b

section Calls

variable {env : Env} {now : Instant} {st st' : Store} {tenantId userId : Uuid}

theorem shared_of_isPod {r : Resource} (h : isPod r = true) : r.bookingMode = .shared := by
  simp only [isPod, Bool.and_eq_true, beq_iff_eq] at h
  exact h.1.1

theorem modesTrack_create {fresh : Fresh} {dto : CreateBookingDto} {row : Booking} (h : ModesTrack env st.bookings)
    (hc : create env now fresh tenantId userId dto st = .ok (st', row))
    (hpod : ∀ r, env.resource tenantId dto.resourceId = some r → r.bookingMode = .shared → isPod r = true) :
    ModesTrack env st'.bookings := by
  obtain ⟨slot, hadm, hins⟩ := create_inserts hc
  obtain ⟨-, hrows⟩ := Table.insert?_eq_some_iff.1 hins
  intro b hb
  rw [hrows, List.mem_append, List.mem_singleton] at hb
  rcases hb with hb | rfl
  · exact h b hb
  · obtain ⟨-, hrid, -⟩ := Env.resource_eq_some.1 hadm.resource
    refine ⟨slot.resource, ?_, ?_⟩
    · rw [hadm.tenantId, hadm.resourceId, hrid]
      exact hadm.resource
    · rw [hadm.bookingMode]
      exact ⟨hpod _ hadm.resource, shared_of_isPod⟩

/-- What an edit does to a booking as far as the mode goes: it may change its room, and never its stored mode. -/
def MovedWithMode (env : Env) (tenantId userId : Uuid) (role : String) (dto : UpdateBookingDto)
    (covers : Booking → Prop) (b b' : Booking) : Prop :=
  MovedBy env tenantId userId role dto covers b b' ∧ b'.bookingMode = b.bookingMode

variable {role : String} {id : Uuid} {dto : UpdateBookingDto} {covers : Booking → Prop}

theorem MovedWithMode.edit {s b saved : Booking} {dto' : UpdateBookingDto} {bookings : Table Booking}
    (h : MovedWithMode env tenantId userId role dto covers s b) (hcov : covers s)
    (hdto : dto'.resourceId = dto.resourceId)
    (he : Edited env tenantId userId role id dto' bookings b saved) :
    MovedWithMode env tenantId userId role dto covers s saved :=
  ⟨h.1.edit hcov hdto he, he.bookingMode_eq.trans h.2⟩

theorem tracksRoom_moved {b b' : Booking} (h : TracksRoom env b) (hcov : covers b → SamePod env dto b)
    (hmoved : MovedWithMode env tenantId userId role dto covers b b') : TracksRoom env b' := by
  obtain ⟨r, hr, hmode⟩ := h
  obtain ⟨⟨hten, -, hroom⟩, hsame⟩ := hmoved
  unfold TracksRoom
  rw [hten, hsame]
  rcases hroom with hroom | ⟨hc, hbten, -, r', hname, hr', hrid⟩
  · rw [hroom]
    exact ⟨r, hr, hmode⟩
  · subst hbten
    rw [hrid]
    refine ⟨r', hr', ?_⟩
    rw [hcov hc r r' hr hname hr']
    exact hmode

theorem modesTrack_moved (h : ModesTrack env st.bookings) (hcov : ∀ b, covers b → SamePod env dto b)
    (hmoved : Table.Rewrites (MovedWithMode env tenantId userId role dto covers) st.bookings st'.bookings) :
    ModesTrack env st'.bookings := by
  intro b' hb'
  obtain ⟨b, hb, hR⟩ := hmoved.back (Table.find?_of_mem hb')
  exact tracksRoom_moved (h b (Table.mem_of_find? hb)) (hcov b) hR

/-- **One call.** A call that keeps the modes leaves every stored mode that of its room. -/
theorem modesTrack_step {e : Event} (h : ModesTrack e.env st.bookings) (he : PlacesOrMoves e) (hC : KeepsMode st e) :
    ModesTrack e.env (step st e).bookings := by
  obtain ⟨env, now, op⟩ := e
  have refl : ∀ (tenantId userId : Uuid) role dto covers b, MovedWithMode env tenantId userId role dto covers b b :=
    fun _ _ _ _ _ b => ⟨MovedBy.refl b, rfl⟩
  cases op with
  | create tenantId userId dto fresh =>
    exact settle_induction (P := fun s : Store => ModesTrack env s.bookings) h fun r hr => modesTrack_create h hr hC
  | update tenantId userId role id dto =>
    refine settle_induction (P := fun s : Store => ModesTrack env s.bookings) h fun r hr => ?_
    exact modesTrack_moved h hC (update_rewrites (refl tenantId userId role dto _) hr
      fun b hb he => (refl tenantId userId role dto _ b).edit hb rfl he).1
  | updateSeries tenantId userId role id dto =>
    refine settle_induction (P := fun s : Store => ModesTrack env s.bookings) h fun r hr => ?_
    exact modesTrack_moved h hC (updateSeries_rewrites (refl tenantId userId role dto _) hr
      fun _ _ _ _ _ hs hdto he hR => hR.edit hs hdto.1 he).1
  | _ => exact absurd he (by simp [PlacesOrMoves])

end Calls

/-! ### Every run -/

theorem modesTrack_congr {env env' : Env} (hres : env'.resources = env.resources) {bookings : Table Booking}
    (h : ModesTrack env bookings) : ModesTrack env' bookings := by
  intro b hb
  obtain ⟨r, hr, hmode⟩ := h b hb
  refine ⟨r, ?_, hmode⟩
  rw [← hr, Env.resource, Env.resource, hres]

theorem constrained_iff {env : Env} {b : Booking} (h : TracksRoom env b) :
    constrained b = true ↔ HoldsExclusive env b := by
  obtain ⟨r, hr, hmode⟩ := h
  simp only [constrained, Bool.and_eq_true, bne_iff_ne, ne_eq, Bool.not_eq_true', hmode, Bool.not_eq_true]
  constructor
  · rintro ⟨hpod, hst⟩
    exact ⟨hst, r, hr, hpod⟩
  · rintro ⟨hst, r', hr', hpod⟩
    obtain rfl := Option.some.inj (hr.symm.trans hr')
    exact ⟨hpod, hst⟩

/-- **The stored mode tracks the room.** With resources fixed, in a run from the empty store that places bookings in
shared rooms only if these are pods, and moves them only between pods or between rooms that are none, every booking is
stored as shared iff its room is a pod, and the constraint covers exactly the standing bookings of the rooms that the
conflict check takes for exclusive. -/
theorem stored_mode_tracks_room {env : Env} {es : List Event}
    (hes : ∀ e ∈ es, PlacesOrMoves e ∧ e.env.resources = env.resources)
    (hC : AllSteps step KeepsMode Store.empty es) :
    ∀ p r, es = p ++ r → ∀ b ∈ (run Store.empty p).bookings.rows,
      TracksRoom env b ∧ (constrained b = true ↔ HoldsExclusive env b) := by
  rintro p r rfl b hb
  have hp : ModesTrack env (run Store.empty p).bookings := by
    refine run_invariant (I := fun st : Store => ModesTrack env st.bookings)
      (C := fun st e => KeepsMode st e ∧ PlacesOrMoves e ∧ e.env.resources = env.resources) ?_
      (fun b hb => by cases hb) ?_
    · rintro st e h ⟨hkeep, hcall, hres⟩
      exact modesTrack_congr hres.symm (modesTrack_step (modesTrack_congr hres h) hcall hkeep)
    · rw [allSteps_iff] at hC ⊢
      rintro p' e' r' rfl
      exact ⟨hC p' e' (r' ++ r) (by simp), hes e' (by simp)⟩
  exact ⟨hp b hb, constrained_iff (hp b hb)⟩

/-! ### A room and a pod -/

def podOffice : Env :=
  office ⟨[{ id := "r", tenantId := "t" }, { id := "hall", tenantId := "t" },
    { id := "pod", tenantId := "t", bookingMode := .shared, sharedCapacity := 2 }], by decide⟩ .empty .empty

def bookAndMove (target : Uuid) : List Event :=
  [⟨podOffice, 0, requestRoom⟩, ⟨podOffice, 1, .update "t" "u" "Officer" "b" { resourceId := some target }⟩]

/-- The booking is moved to another exclusive room. -/
theorem stored_mode_tracks_room_hall : ∃ b,
    (run Store.empty (bookAndMove "hall")).bookings.find? "b" = some b ∧ TracksRoom podOffice b ∧
      (constrained b = true ↔ HoldsExclusive podOffice b) := by
  refine ⟨_, rfl, stored_mode_tracks_room ?_ ?_ (bookAndMove "hall") [] rfl _ (Table.mem_of_find? (k := "b") rfl)⟩
  · simp [bookAndMove, PlacesOrMoves, requestRoom]
  · refine ⟨fun r hr hshared => ?_, fun b hb r r' hr hname hr' => ?_, trivial⟩
    · have hmode : ∀ r ∈ podOffice.resource "t" "r", r.bookingMode ≠ .shared := by decide
      exact absurd hshared (hmode r hr)
    · have hsame : ∀ b ∈ findBooking (run Store.empty [⟨podOffice, 0, requestRoom⟩]).bookings "t" "b",
          ∀ r ∈ podOffice.resource b.tenantId b.resourceId, ∀ r' ∈ podOffice.resource b.tenantId "hall",
          isPod r' = isPod r := by decide
      rw [← Option.some.inj hname] at hr'
      exact hsame b hb r hr r' hr'

/-- The booking is moved to the pod, and stays an exclusive one there. -/
theorem stored_mode_lost_by_move :
    ¬ ∀ (env : Env) (es : List Event), (∀ e ∈ es, PlacesOrMoves e ∧ e.env.resources = env.resources) →
      ∀ p r, es = p ++ r → ∀ b ∈ (run Store.empty p).bookings.rows,
        TracksRoom env b ∧ (constrained b = true ↔ HoldsExclusive env b) := by
  intro h
  have hall := h podOffice (bookAndMove "pod") (by simp [bookAndMove, PlacesOrMoves, requestRoom])
    (bookAndMove "pod") [] rfl
  have hmoved : ∃ b ∈ (run Store.empty (bookAndMove "pod")).bookings.rows, b.bookingMode = .exclusive ∧
      ∀ r ∈ podOffice.resource b.tenantId b.resourceId, isPod r = true := by decide
  obtain ⟨b, hb, hmode, hpod⟩ := hmoved
  obtain ⟨⟨r, hr, hiff⟩, -⟩ := hall b hb
  rw [hmode] at hiff
  exact absurd (hiff.2 (hpod r hr)) nofun

end BookingSystem.Runs
