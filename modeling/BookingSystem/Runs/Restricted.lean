import BookingSystem.Effects.Chains
import BookingSystem.Model.System

/-!
# Restricted rooms

Who books a restricted room must be an admin or belong to the department of the room. `create` checks this, an edit
that moves a booking does not. So only entitled owners come to hold a restricted room in a run whose edits name no
restricted room that their caller could not book (`restricted_only_entitled`).
-/

namespace BookingSystem.Runs

open Base Model Model.BookingsService Effects

/-- The calls that bring a booking into a room. -/
def Books (e : Event) : Prop :=
  match e.op with
  | .create .. | .createSeries .. | .update .. | .updateSeries .. => True
  | _ => False

/-- An edit by an admin. -/
def ByAdmin (e : Event) : Prop :=
  match e.op with
  | .update _ _ role _ _ | .updateSeries _ _ role _ _ => isAdmin role = true
  | _ => False

/-- The owner of the booking is entitled to its room. -/
def Entitled (env : Env) (b : Booking) : Prop :=
  ∀ r, env.resource b.tenantId b.resourceId = some r → r.isRestricted = true →
    assertCanBook env b.tenantId b.userId r = .ok ()

/-- A booking of `t'` that is new, or in another room than in `t`, is in a room its owner is entitled to. -/
def NewEntitled (env : Env) (t t' : Table Booking) : Prop :=
  ∀ id b', t'.find? id = some b' → (∀ b, t.find? id = some b → b.resourceId ≠ b'.resourceId) → Entitled env b'

/-- The call places and moves bookings only into rooms their owners are entitled to. -/
def PlacesEntitled (st : Store) (e : Event) : Prop := NewEntitled e.env st.bookings (step st e).bookings

/-- The room an edit moves the booking to is one that the caller could book. -/
def Bookable (env : Env) (tenantId userId : Uuid) (dto : UpdateBookingDto) (b : Booking) : Prop :=
  ∀ r, dto.resourceId = some r.id → r.id ≠ b.resourceId → env.resource tenantId r.id = some r →
    r.isRestricted = true → assertCanBook env tenantId userId r = .ok ()

/-- An edit without an admin role moves the caller's bookings to rooms that the caller could book. -/
def MovesBookable (st : Store) (e : Event) : Prop :=
  match e.op with
  | .update tenantId userId role id dto => isAdmin role = false → ∀ b, findBooking st.bookings tenantId id = some b →
      b.userId = userId → Bookable e.env tenantId userId dto b
  | .updateSeries tenantId userId role id dto => isAdmin role = false → ∀ b, InSeries st.bookings tenantId id b →
      b.userId = userId → Bookable e.env tenantId userId dto b
  | _ => True

/-! ### One call -/

section Calls

variable {env : Env} {now : Instant} {st st' : Store}

/-- Every booking of `t'` is one of `t`, or its owner is entitled to its room. -/
def Grows (env : Env) (t t' : Table Booking) : Prop :=
  ∀ id b', t'.find? id = some b' → t.find? id = some b' ∨ Entitled env b'

theorem grows_create {fresh : Fresh} {tenantId userId : Uuid} {dto : CreateBookingDto} {row : Booking}
    {t : Table Booking} (h : Grows env t st.bookings)
    (hc : create env now fresh tenantId userId dto st = .ok (st', row)) : Grows env t st'.bookings := by
  obtain ⟨slot, hadm, hins⟩ := create_inserts hc
  intro id b' hb'
  rw [Table.find?_insert? hins] at hb'
  split at hb'
  · obtain rfl := Option.some.inj hb'
    refine .inr fun r hr _ => ?_
    obtain ⟨-, hrid, -⟩ := Env.resource_eq_some.1 hadm.resource
    rw [hadm.tenantId, hadm.resourceId, hrid, hadm.resource, Option.some.injEq] at hr
    rw [hadm.tenantId, hadm.userId, ← hr]
    exact hadm.canBook
  · exact h id b' hb'

theorem Grows.newEntitled {t t' : Table Booking} (h : Grows env t t') : NewEntitled env t t' := by
  intro id b' hb' hmoved
  rcases h id b' hb' with hold | hent
  · exact absurd rfl (hmoved b' hold)
  · exact hent

theorem newEntitled_of_moves {tenantId userId : Uuid} {role : String} {dto : UpdateBookingDto} {covers : Booking → Prop}
    {t t' : Table Booking} (h : Moves env tenantId userId role dto covers t t') (hrole : isAdmin role = false)
    (hcov : ∀ b, covers b → b.userId = userId → Bookable env tenantId userId dto b) : NewEntitled env t t' := by
  intro id b' hb' hmoved
  obtain ⟨b, hb, hten, huser, hroom⟩ := h.back hb'
  have hne := hmoved b hb
  rcases hroom with hsame | ⟨hc, hbten, hown, r, hname, hr, hrid⟩
  · exact absurd hsame.symm hne
  intro r' hr' hres
  have huser' : b.userId = userId := by simpa [hrole] using hown
  rw [hten, hbten, hrid, hr, Option.some.injEq] at hr'
  subst hr'
  rw [hten, hbten, huser, huser']
  exact hcov b hc huser' r hname (by rw [← hrid]; exact hne.symm) hr hres

theorem placesEntitled_of_movesBookable {e : Event} (he : Books e) (hadmin : ¬ ByAdmin e) (hC : MovesBookable st e) :
    PlacesEntitled st e := by
  obtain ⟨env, now, op⟩ := e
  have refl : Grows env st.bookings st.bookings := fun _ _ hb => .inl hb
  cases op with
  | create tenantId userId dto fresh =>
    exact settle_induction (P := fun s : Store => NewEntitled env st.bookings s.bookings) refl.newEntitled
      fun r hr => (grows_create refl hr).newEntitled
  | createSeries tenantId userId dto recurrenceId occurrences fresh =>
    refine settle_induction (P := fun s : Store => NewEntitled env st.bookings s.bookings) refl.newEntitled ?_
    intro r hr
    exact (createSeries_ok (P := fun s : Store => Grows env st.bookings s.bookings) hr refl
      fun _ _ _ _ _ _ _ hP hc => grows_create hP hc).newEntitled
  | update tenantId userId role id dto =>
    have hrole : isAdmin role = false := by simpa [ByAdmin] using hadmin
    exact settle_induction (P := fun s : Store => NewEntitled env st.bookings s.bookings) refl.newEntitled
      fun r hr => newEntitled_of_moves (update_moves hr).1 hrole (hC hrole)
  | updateSeries tenantId userId role id dto =>
    have hrole : isAdmin role = false := by simpa [ByAdmin] using hadmin
    exact settle_induction (P := fun s : Store => NewEntitled env st.bookings s.bookings) refl.newEntitled
      fun r hr => newEntitled_of_moves (updateSeries_moves hr).1 hrole (hC hrole)
  | _ => exact absurd he (by simp [Books])

end Calls

/-! ### Every run -/

/-- **Restricted rooms.** In a run of bookings and edits whose edits without an admin role move the caller's bookings
only to rooms the caller could book, every call without an admin role leaves a booking that is new, or in another room
than before, in a room its owner is entitled to. -/
theorem restricted_only_entitled {st : Store} {es : List Event} (hes : ∀ e ∈ es, Books e)
    (hC : AllSteps step MovesBookable st es) :
    ∀ p e r, es = p ++ e :: r → ¬ ByAdmin e → PlacesEntitled (run st p) e := by
  rintro p e r rfl hadmin
  exact placesEntitled_of_movesBookable (hes e (by simp)) hadmin (allSteps_iff.1 hC p e r rfl)

/-! ### A laboratory -/

def labOffice : Env :=
  office ⟨[{ id := "r", tenantId := "t" },
      { id := "lab", tenantId := "t", isRestricted := true, departmentId := some "science" }], by decide⟩
    ⟨[{ id := "mem", tenantId := "t", role := "Officer", departments := ["science"] },
      { id := "u", tenantId := "t", role := "Officer" }], by decide⟩ .empty

def bookRoom (userId : Uuid) : Event :=
  ⟨labOffice, 0, .create "t" userId { resourceId := "r", startTime := 3600000, endTime := 7200000 }
    ⟨"b", fun i => "s" ++ toString i, "token"⟩⟩

def moveToLab (userId : Uuid) : Event := ⟨labOffice, 1, .update "t" userId "Officer" "b" { resourceId := some "lab" }⟩

theorem restricted_only_entitled_member : PlacesEntitled (run Store.empty [bookRoom "mem"]) (moveToLab "mem") := by
  refine @restricted_only_entitled Store.empty [bookRoom "mem", moveToLab "mem"] ?_ ?_ [_] _ [] rfl ?_
  · simp [Books, bookRoom, moveToLab]
  · refine ⟨trivial, fun _ b hb hown r hname hne hr hres => ?_, trivial⟩
    have hlab : ∀ r ∈ labOffice.resource "t" "lab", assertCanBook labOffice "t" "mem" r = .ok () := by decide
    have hid : r.id = "lab" := (Option.some.inj hname).symm
    rw [hid] at hr
    exact hlab r hr
  · simp [ByAdmin, moveToLab]
    decide

/-- A user who could not book the laboratory books another room, and moves the booking there. -/
theorem move_bypasses_restriction :
    ¬ ∀ (st : Store) (es : List Event), (∀ e ∈ es, Books e) →
      ∀ p e r, es = p ++ e :: r → ¬ ByAdmin e → PlacesEntitled (run st p) e := by
  intro h
  have hplaces := h Store.empty [bookRoom "u", moveToLab "u"] (by simp [Books, bookRoom, moveToLab]) [bookRoom "u"]
    (moveToLab "u") [] rfl (by simp [ByAdmin, moveToLab]; decide) "b" _ rfl
  have hroom : ∀ b ∈ (run Store.empty [bookRoom "u"]).bookings.find? "b", b.resourceId ≠ "lab" := by decide
  have hrefused : ∀ r ∈ labOffice.resource "t" "lab", assertCanBook labOffice "t" "u" r ≠ .ok () := by decide
  exact hrefused _ rfl (hplaces hroom _ rfl rfl)

end BookingSystem.Runs
