import BookingSystem.Effects.Bookings
import BookingSystem.Effects.Checkin
import BookingSystem.Model.System

/-!
# The owner of a booking that waits for approval

What the owner alone can do to a booking in `'Pending Approval'`: edit it, cancel it, and mint tokens for it, none
of which brings it past the approver, and check it in, which does. So the booking stays where it is exactly as long
as nobody checks it in (`waiting_iff`).
-/

namespace BookingSystem.Runs

open Base Model Model.BookingsService Effects

/-- The calls the owner can make without an admin role. -/
def ByOwner (owner : Uuid) (e : Event) : Prop :=
  match e.op with
  | .update _ userId role _ _ => userId = owner ∧ isAdmin role = false
  | .updateSeries _ userId role _ _ => userId = owner ∧ isAdmin role = false
  | .cancel _ userId role _ _ => userId = owner ∧ isAdmin role = false
  | .issueToken _ userId admin _ _ => userId = owner ∧ admin = false
  | .checkinByBooking _ userId admin _ => userId = owner ∧ admin = false
  | .redeemToken _ => True
  | _ => False

/-- The call does not check the booking in while it waits for approval. -/
def NoCheckin (id : Uuid) (st : Store) (e : Event) : Prop :=
  ∀ b, st.bookings.find? id = some b → b.status = .pendingApproval →
    match e.op with
    | .checkinByBooking tenantId _ _ bookingId => ¬ (bookingId = id ∧ tenantId = b.tenantId)
    | .redeemToken token => token = "" ∨ st.bookings.rows.find? (CheckinService.claims e.now token) ≠ some b
    | _ => True

/-- Waiting for approval, or given up. -/
def Undecided (b : Booking) : Prop := b.status = .pendingApproval ∨ b.status = .cancelled

/-- The booking of the owner is still undecided. -/
def Waiting (id owner : Uuid) (st : Store) : Prop :=
  ∃ b, st.bookings.find? id = some b ∧ b.userId = owner ∧ Undecided b

/-- A change of a row that does not decide the booking `id`. -/
def Undeciding (id : Uuid) (b b' : Booking) : Prop :=
  b'.id = b.id ∧ (b.id = id → Undecided b → b'.userId = b.userId ∧ Undecided b')

theorem Undeciding.refl (id : Uuid) (b : Booking) : Undeciding id b b := ⟨rfl, fun _ h => ⟨rfl, h⟩⟩

theorem Undeciding.trans (id : Uuid) (a b c : Booking) (h : Undeciding id a b) (h' : Undeciding id b c) :
    Undeciding id a c := by
  refine ⟨h'.1.trans h.1, fun hid hu => ?_⟩
  obtain ⟨hown, hb⟩ := h.2 hid hu
  obtain ⟨hown', hc⟩ := h'.2 (h.1.trans hid) hb
  exact ⟨hown'.trans hown, hc⟩

theorem Undeciding.of_ne {id : Uuid} {b b' : Booking} (hid : b'.id = b.id) (hne : b.id ≠ id) : Undeciding id b b' :=
  ⟨hid, fun h => absurd h hne⟩

/-- No row changes so that the booking `id` is decided. -/
abbrev Undecides (id : Uuid) (t t' : Table Booking) : Prop := Table.Evolves (Undeciding id) t t'

theorem Waiting.of_undecides {id owner : Uuid} {st st' : Store} (h : Waiting id owner st)
    (hev : Undecides id st.bookings st'.bookings) : Waiting id owner st' := by
  obtain ⟨b, hb, hown, hu⟩ := h
  obtain ⟨b', hb', -, hk⟩ := hev id b hb
  obtain ⟨hown', hu'⟩ := hk (Table.key_of_find? hb) hu
  exact ⟨b', hb', hown'.trans hown, hu'⟩

/-! ### One call -/

section Calls

variable {id : Uuid} {env : Env} {t : Table Booking}

theorem Undecides.save {b v : Booking} {tenantId bookingId : Uuid} (hb : findBooking t tenantId bookingId = some b)
    (h : Undeciding id b v) : Undecides id t (t.save v) := by
  obtain ⟨hfind, -⟩ := findBooking_eq_some.1 hb
  refine Table.evolves_save (Undeciding.refl id) ?_ h
  rw [key_booking, h.1, show b.id = bookingId from Table.key_of_find? hfind]
  exact hfind

theorem undecides_edit {tenantId userId : Uuid} {role : String} {bookingId : Uuid} {dto : UpdateBookingDto}
    {b saved : Booking} (h : Edited env tenantId userId role bookingId dto t b saved) :
    Undecides id t (t.save saved) := by
  refine Undecides.save h.found ⟨h.id_eq, fun _ hu => ⟨h.userId_eq, ?_⟩⟩
  unfold Undecided
  rcases h.row with ⟨-, he⟩ | ⟨slot, -, -, he⟩
  · rw [he.status]
    exact hu
  · rw [he.status]
    rcases hu with hp | hc
    · left
      simp [reschedule, hp]
    · right
      simp [reschedule, hc]

end Calls

section Step

variable {id owner : Uuid} {env : Env} {now : Instant} {st st' : Store}

theorem undecides_checkin {tenantId userId : Uuid} {admin : Bool} {bookingId : Uuid} {r : Booking}
    (hC : NoCheckin id st ⟨env, now, .checkinByBooking tenantId userId admin bookingId⟩)
    (h : CheckinService.checkinByBooking now tenantId userId admin bookingId st = .ok (st', r)) :
    Undecides id st.bookings st'.bookings := by
  obtain ⟨b, at', hb, -, hrel, rfl⟩ := checkinByBooking_ok h
  obtain ⟨hfind, hten⟩ := findBooking_eq_some.1 hb
  have hid : b.id = bookingId := Table.key_of_find? hfind
  refine Undecides.save hb ?_
  by_cases hne : b.id = id
  · -- the booking is not released, so it waits; but then the call is not a check-in of it
    refine ⟨rfl, fun _ hu => ?_⟩
    have hfind' : st.bookings.find? id = some b := by rw [← hne, hid]; exact hfind
    rcases hu with hp | hc
    · exact absurd ⟨hid.symm.trans hne, hten.symm⟩ (hC b hfind' hp)
    · rw [hc] at hrel
      cases hrel
  · exact .of_ne rfl hne

theorem undecides_redeem {token : String} {r : Uuid × Option Instant}
    (hC : NoCheckin id st ⟨env, now, .redeemToken token⟩)
    (h : CheckinService.redeemToken now token st = .ok (st', r)) : Undecides id st.bookings st'.bookings := by
  refine redeemToken_evolves (Undeciding.refl id) (Undeciding.trans id) h (fun _ => ⟨rfl, fun _ hu => ⟨rfl, hu⟩⟩)
    fun claim at' htok hclaim => ?_
  have hrow : st.bookings.find? claim.id = some claim := Table.find?_of_mem (List.mem_of_find?_eq_some hclaim)
  by_cases hne : claim.id = id
  · refine ⟨rfl, fun _ hu => ?_⟩
    rw [hne] at hrow
    rcases hu with hp | hc
    · rcases hC claim hrow hp with h0 | hno
      · exact absurd h0 htok
      · exact absurd hclaim hno
    · have hrel := released_of_claims (List.find?_some hclaim)
      rw [show claim.status = .cancelled from hc] at hrel
      cases hrel
  · exact .of_ne rfl hne

theorem Waiting.step {e : Event} (h : Waiting id owner st) (he : ByOwner owner e) (hC : NoCheckin id st e) :
    Waiting id owner (step st e) := by
  obtain ⟨env, now, op⟩ := e
  cases op with
  | update tenantId userId role bookingId dto =>
    refine settle_induction (P := Waiting id owner) h ?_
    rintro ⟨st', saved⟩ hr
    obtain ⟨b, hb, rfl⟩ := update_ok hr
    exact h.of_undecides (undecides_edit hb)
  | updateSeries tenantId userId role bookingId dto =>
    refine settle_induction (P := Waiting id owner) h fun r hr => h.of_undecides ?_
    exact (updateSeries_ok (P := Undecides id st.bookings) hr (.refl (Undeciding.refl id) _)
      fun _ _ _ _ _ hP _ _ hb => hP.trans (Undeciding.trans id) (undecides_edit hb)).1
  | cancel tenantId userId role bookingId reason =>
    refine settle_induction (P := Waiting id owner) h ?_
    rintro ⟨st', saved⟩ hr
    obtain ⟨b, hb, -, ⟨-, rfl⟩ | ⟨hst, notes, rfl⟩⟩ := cancel_ok hr
    · exact h
    · exact h.of_undecides (Undecides.save hb ⟨rfl, fun _ _ => ⟨rfl, .inr rfl⟩⟩)
  | issueToken tenantId userId admin bookingId token =>
    refine settle_induction (P := Waiting id owner) h ?_
    rintro ⟨st', r⟩ hr
    obtain ⟨b, hb, -, rfl⟩ := issueToken_ok hr
    exact h.of_undecides (Undecides.save hb ⟨rfl, fun _ hu => ⟨rfl, hu⟩⟩)
  | checkinByBooking tenantId userId admin bookingId =>
    exact settle_induction (P := Waiting id owner) h fun r hr => h.of_undecides (undecides_checkin hC hr)
  | redeemToken token =>
    exact settle_induction (P := Waiting id owner) h fun r hr => h.of_undecides (undecides_redeem hC hr)
  | _ => exact absurd he (by simp [ByOwner])

theorem noCheckin_of_waiting {e : Event} (h : Waiting id owner st) (he : ByOwner owner e)
    (h' : Waiting id owner (step st e)) : NoCheckin id st e := by
  obtain ⟨b₀, hb₀, hown, -⟩ := h
  obtain ⟨b', hb', -, hu⟩ := h'
  intro b hb hp
  rw [hb₀, Option.some.injEq] at hb
  subst hb
  have hid : b₀.id = id := Table.key_of_find? hb₀
  have hrel : b₀.status.released = false := by rw [hp]; rfl
  obtain ⟨env, now, op⟩ := e
  cases op with
  | checkinByBooking tenantId userId admin bookingId =>
    rintro ⟨rfl, rfl⟩
    have hfind : findBooking st.bookings b₀.tenantId bookingId = some b₀ := findBooking_eq_some.2 ⟨hb₀, rfl⟩
    have hchecked : ∃ r, CheckinService.checkinByBooking now b₀.tenantId userId admin bookingId st = .ok r :=
      checkinByBooking_of_owner hfind (hown.trans he.1.symm) hrel
    obtain ⟨⟨st', r⟩, hr⟩ := hchecked
    obtain ⟨b, at', hb, -, -, rfl⟩ := checkinByBooking_ok hr
    rw [hfind, Option.some.injEq] at hb
    subst hb
    simp only [step, hr, settle_ok] at hb'
    have hnew := Option.some.inj (hb'.symm.trans (Table.find?_save_of_key hid hb₀))
    subst hnew
    rcases hu with hu | hu <;> cases hu
  | redeemToken token =>
    by_cases htok : token = ""
    · exact .inl htok
    refine .inr fun hclaim => ?_
    obtain ⟨⟨st', r⟩, hr⟩ := redeemToken_of_claim htok hclaim
    obtain ⟨claim, at', -, hclaim', rfl⟩ := redeemToken_ok hr
    rw [hclaim, Option.some.injEq] at hclaim'
    subst hclaim'
    simp only [step, hr, settle_ok] at hb'
    have hburnt : (st.bookings.update (CheckinService.claims now token) CheckinService.burn
        CheckinService.key_burn).find? id = some (CheckinService.burn b₀) := by
      rw [Table.find?_update, hb₀, Option.map_some, if_pos (List.find?_some hclaim)]
    have hnew := Option.some.inj (hb'.symm.trans (Table.find?_save_of_key hid hburnt))
    subst hnew
    rcases hu with hu | hu <;> cases hu
  | _ => trivial

end Step

/-! ### Every run -/

/-- **The approver cannot be bypassed, but by a check-in.** Whatever the owner of a booking that waits for approval
does, the booking stays `'Pending Approval'` or `'Cancelled'` all along, if and only if nobody checks it in while it
waits. -/
theorem waiting_iff {st : Store} {id : Uuid} {b : Booking} (hb : st.bookings.find? id = some b)
    (hst : b.status = .pendingApproval) {es : List Event} (hes : ∀ e ∈ es, ByOwner b.userId e) :
    AllSteps step (NoCheckin id) st es ↔ ∀ p q, es = p ++ q → ∃ b', (run st p).bookings.find? id = some b' ∧
      b'.userId = b.userId ∧ (b'.status = .pendingApproval ∨ b'.status = .cancelled) :=
  allSteps_iff_forall_prefix (I := Waiting id b.userId) (P := Waiting id b.userId) (D := ByOwner b.userId)
    (fun _ h => h) (fun _ _ h he hC => h.step he hC) (fun _ _ h he h' => noCheckin_of_waiting h he h')
    ⟨b, hb, rfl, .inl hst⟩ hes

/-- The owner edits the title and mints a token: the booking still waits. -/
theorem waiting_iff_edit : ∃ b, (run Store.empty [⟨approvalOffice, 0, requestRoom⟩]).bookings.find? "b" = some b ∧
    ∃ b', (run (run Store.empty [⟨approvalOffice, 0, requestRoom⟩])
      [⟨approvalOffice, 1, .update "t" "u" "Officer" "b" { title := some "review" }⟩,
        ⟨approvalOffice, 2, .issueToken "t" "u" false "b" "token"⟩]).bookings.find? "b" = some b' ∧
      b'.userId = b.userId ∧ (b'.status = .pendingApproval ∨ b'.status = .cancelled) := by
  refine ⟨_, rfl, ?_⟩
  refine (@waiting_iff (run Store.empty [⟨approvalOffice, 0, requestRoom⟩]) "b" _ rfl rfl _ ?_).1 ?_ _ [] rfl
  · simp [ByOwner]
    decide
  · exact ⟨fun _ _ _ => trivial, fun _ _ _ => trivial, trivial⟩

/-- A booking that waits for approval, checked in by its owner: it is `'Checked In'` without a decision. -/
theorem checkin_bypasses :
    ¬ ∀ (st : Store) (id : Uuid) (b : Booking) (es : List Event), st.bookings.find? id = some b →
      b.status = .pendingApproval → (∀ e ∈ es, ByOwner b.userId e) →
      ∃ b', (run st es).bookings.find? id = some b' ∧ (b'.status = .pendingApproval ∨ b'.status = .cancelled) := by
  intro h
  obtain ⟨b', hb', hst⟩ := h (run Store.empty [⟨approvalOffice, 0, requestRoom⟩]) "b" _
    [⟨approvalOffice, 1, .checkinByBooking "t" "u" false "b"⟩] rfl rfl (by simp [ByOwner])
  have hin : ((run (run Store.empty [⟨approvalOffice, 0, requestRoom⟩])
      [⟨approvalOffice, 1, .checkinByBooking "t" "u" false "b"⟩]).bookings.find? "b").map (·.status) =
      some .checkedIn := by decide
  rw [hb', Option.map_some, Option.some.injEq] at hin
  rw [hin] at hst
  rcases hst with hst | hst <;> cases hst

end BookingSystem.Runs
