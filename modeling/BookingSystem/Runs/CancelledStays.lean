import BookingSystem.Base.Run
import BookingSystem.Service.UseCases

/-!
# Cancelled bookings of the Go service

A booking that is cancelled should stay cancelled. The calls that reschedule, approve, reject and release look at the
status first; redeeming a token, a check-in or no-show, an exception, and the last approval of a chain do not. So a
cancelled booking stays so exactly as long as none of these four reaches it (`stays_cancelled_iff`).
-/

namespace BookingSystem.Runs.CancelledStays

open Base Service
open Model (Uuid Instant BookingStatus)

/-- What may become of a booking: if it is cancelled it stays so. -/
def Stays (b b' : Booking) : Prop := b.status = .cancelled → b'.status = .cancelled

/-- **No cancelled booking comes back**, from one point of a run to a later one. -/
def StaysCancelled (s s' : Store) : Prop := Table.Evolves Stays s.bookings s'.bookings

/-- The database takes the row: its range is not reversed, it is admitted, and no other row overlaps it. -/
def Takes (admits : Booking → Bool) (t : Table Booking) (b : Booking) : Prop :=
  b.startTime ≤ b.endTime ∧ admits b = true ∧ noOverlap t b = true

instance (admits : Booking → Bool) (t : Table Booking) (b : Booking) : Decidable (Takes admits t b) := by
  unfold Takes; infer_instance

/-- **A call that brings a cancelled booking back**: a token that is still good is redeemed for it, it is checked in or
marked as missed, it is marked as an exception, or the last open step of its chain is approved; and the database takes
the row. -/
def Revives (c : Setup) (s : Store) : Call → Prop
  | .redeem token now => ∃ tok b, usable s.tokens token now = .ok tok ∧ ofToken s.bookings tok = .ok b ∧
      b.status = .cancelled ∧ Takes c.admits s.bookings (b.overwrite (b.checkIn now))
  | .updateCheckInStatus bookingId isCheckIn now => ∃ b, s.bookings.find? bookingId = some b ∧ b.status = .cancelled ∧
      Takes c.admits s.bookings (b.overwrite (if isCheckIn then b.checkIn now else b.miss))
  | .markAsException bookingId reason => ∃ b, s.bookings.find? bookingId = some b ∧ b.status = .cancelled ∧
      Takes c.admits s.bookings (b.overwrite { b with status := .exception, exceptionNotes := reason })
  | .decide bookingId decider .approved _ _ => ∃ picked b,
      pick c.strings s.rules (listByBooking s.steps bookingId) decider = .ok picked ∧
      othersDone (listByBooking s.steps bookingId) picked.id = true ∧ s.bookings.find? bookingId = some b ∧
      b.status = .cancelled ∧ c.admits (b.withStatus .confirmed "") = true ∧
      noOverlap s.bookings (b.withStatus .confirmed "") = true
  | .decide _ _ .rejected _ _ | .execute _ _ | .cancel _ _ | .approve _ | .reject _ _ | .issueToken _ _ _ _ _
  | .tick _ _ => False

/-! ### The two statements -/

theorem stays_refl (b : Booking) : Stays b b := id

theorem stays_trans (a b c : Booking) (hab : Stays a b) (hbc : Stays b c) : Stays a c := fun h => hbc (hab h)

section statements

variable {admits : Booking → Bool} {t t' : Table Booking}

theorem evolves_getD {x : Except CallError (Table Booking)} (h : ∀ t', x = .ok t' → Table.Evolves Stays t t') :
    Table.Evolves Stays t (x.toOption.getD t) := by
  cases x with
  | error e => exact .refl stays_refl t
  | ok t' => exact h t' rfl

/-- A `Save` of what was read, with another status: it brings the booking back if that is cancelled and the database
takes the row. -/
theorem evolves_save_iff {b r : Booking} (hr : t.find? b.id = some r) (hversion : r.version = b.version)
    (hb : b.status ≠ .cancelled) :
    Table.Evolves Stays t ((save admits t b).toOption.getD t) ↔
      ¬ (r.status = .cancelled ∧ Takes admits t (r.overwrite b)) := by
  by_cases htakes : Takes admits t (r.overwrite b)
  · have hsave := (save_stored hr hversion).2 ⟨htakes.1, htakes.2.1, htakes.2.2, rfl⟩
    rw [hsave, Except.toOption, Option.getD_some,
      Table.evolves_save_iff (v := r.overwrite b) (a := r) stays_refl (find?_self hr)]
    constructor
    · rintro h ⟨hcancelled, -⟩
      exact hb (h hcancelled)
    · intro h hcancelled
      exact absurd ⟨hcancelled, htakes⟩ h
  · refine iff_of_true (evolves_getD fun t' hsave => ?_) fun h => htakes h.2
    obtain ⟨hrange, hadmits, hover, -⟩ := (save_stored hr hversion).1 hsave
    exact absurd ⟨hrange, hadmits, hover⟩ htakes

theorem evolves_save {b r : Booking} (hr : t.find? b.id = some r) (hactive : r.status ≠ .cancelled)
    (hsave : save admits t b = .ok t') : Table.Evolves Stays t t' := by
  obtain ⟨-, ⟨r', hr', -, -, rfl⟩ | ⟨hnone, -⟩⟩ := save_cases hsave
  · obtain rfl := Option.some.inj (hr.symm.trans hr')
    exact Table.evolves_save (v := r.overwrite b) (a := r) stays_refl (find?_self hr) fun hcancelled =>
      absurd hcancelled hactive
  · rw [hnone] at hr
    cases hr

theorem evolves_updateStatus {id : Uuid} {status : BookingStatus} {notes : String}
    (h : status = .cancelled ∨ ∀ b, t.find? id = some b → b.status ≠ .cancelled)
    (hupdate : updateStatus admits t id status notes = .ok t') : Table.Evolves Stays t t' := by
  rcases updateStatus_cases hupdate with ⟨r, hr, -, -, rfl⟩ | ⟨-, rfl⟩
  · refine Table.evolves_save (v := r.withStatus status notes) (a := r) stays_refl (find?_self hr) fun hcancelled => ?_
    rcases h with h | h
    · exact h
    · exact absurd hcancelled (h r hr)
  · exact .refl stays_refl _

/-- An `UpdateStatus` that confirms. -/
theorem evolves_confirm_iff {id : Uuid} :
    Table.Evolves Stays t ((updateStatus admits t id .confirmed "").toOption.getD t) ↔
      ¬ ∃ b, t.find? id = some b ∧ b.status = .cancelled ∧ admits (b.withStatus .confirmed "") = true ∧
        noOverlap t (b.withStatus .confirmed "") = true := by
  constructor
  · rintro h ⟨b, hb, hcancelled, hadmits, hover⟩
    have hupdate : updateStatus admits t id .confirmed "" = .ok (t.save (b.withStatus .confirmed "")) := by
      simp only [updateStatus, hb, hadmits, hover, require, if_true]
      rfl
    rw [hupdate, Except.toOption, Option.getD_some,
      Table.evolves_save_iff (v := b.withStatus .confirmed "") (a := b) stays_refl (find?_self hb)] at h
    cases h hcancelled
  · intro h
    refine evolves_getD fun t' hupdate => ?_
    rcases updateStatus_cases hupdate with ⟨r, hr, hadmits, hover, rfl⟩ | ⟨-, rfl⟩
    · refine Table.evolves_save (v := r.withStatus .confirmed "") (a := r) stays_refl (find?_self hr) ?_
      intro hcancelled
      exact absurd ⟨r, hr, hcancelled, hadmits, hover⟩ h
    · exact .refl stays_refl _

end statements

/-! ### The calls that look at the status -/

section guarded

variable {admits : Booking → Bool} {t t' : Table Booking}

theorem id_updated {check : ValidationInput → Except CallError ValidationResult} {req : UpdateRequest}
    {b b' : Booking} (h : updated check req b = .ok b') : b.status ≠ .cancelled ∧ b'.id = b.id := by
  simp only [updated, bind_eq_ok, require_eq_ok, Bool.and_eq_true, bne_iff_ne, ne_eq] at h
  obtain ⟨-, hstatus, h⟩ := h
  refine ⟨hstatus.1, ?_⟩
  split at h
  · rw [← pure_eq_ok.1 h]
    rfl
  · simp only [bind_eq_ok, pure_eq_ok] at h
    obtain ⟨-, -, vres, -, rfl⟩ := h
    rfl

theorem evolves_execute {p : Policy} {resources : Table Resource} {req : UpdateRequest}
    (h : execute admits t p resources req = .ok t') : Table.Evolves Stays t t' := by
  simp only [execute, findById, bind_eq_ok, found_eq_ok] at h
  obtain ⟨b, hb, b', hupdated, hsave⟩ := h
  obtain ⟨hstatus, hid⟩ := id_updated hupdated
  exact evolves_save (r := b) (hid ▸ find?_self hb) hstatus hsave

theorem evolves_cancelBooking {bookingId : Uuid} {reason : String}
    (h : cancelBooking admits t bookingId reason = .ok t') : Table.Evolves Stays t t' := by
  simp only [cancelBooking, findById, bind_eq_ok, found_eq_ok] at h
  obtain ⟨b, -, h⟩ := h
  split at h
  · rw [← pure_eq_ok.1 h]
    exact .refl stays_refl t
  · exact evolves_updateStatus (.inl rfl) h

theorem evolves_approve {bookingId : Uuid} (h : approve admits t bookingId = .ok t') : Table.Evolves Stays t t' := by
  simp only [approve, findById, bind_eq_ok, found_eq_ok] at h
  obtain ⟨b, hb, needed, hneeded, h⟩ := h
  split at h
  · rename_i hyes
    subst hyes
    refine evolves_updateStatus (.inr fun b' hb' hcancelled => ?_) h
    obtain rfl := Option.some.inj (hb.symm.trans hb')
    simp [approveNeeded, hcancelled] at hneeded
  · rw [← pure_eq_ok.1 h]
    exact .refl stays_refl t

theorem evolves_reject {bookingId : Uuid} {reason : String} (h : reject admits t bookingId reason = .ok t') :
    Table.Evolves Stays t t' := by
  simp only [reject, findById, bind_eq_ok, found_eq_ok] at h
  obtain ⟨-, -, b, -, -, -, h⟩ := h
  exact evolves_updateStatus (.inl rfl) h

/-- What a row is after one candidate of a tick: a missed booking, or what it was. -/
theorem find?_release {b r : Booking} {id : Uuid} (h : (release admits t b).find? id = some r) :
    r.status = .noShow ∨ t.find? id = some r := by
  unfold release at h
  split at h
  · cases hsave : save admits t b.miss with
    | error e =>
      rw [hsave] at h
      exact .inr h
    | ok t' =>
      rw [hsave, Except.toOption, Option.getD_some] at h
      rcases (save_cases hsave).2 with ⟨r', -, -, -, rfl⟩ | ⟨-, -, -, hinsert⟩
      · rw [Table.find?_save] at h
        split at h
        · obtain ⟨-, -, rfl⟩ := Option.map_eq_some_iff.1 h
          exact .inl rfl
        · exact .inr h
      · rw [Table.find?_insert? hinsert] at h
        split at h
        · rw [← Option.some.inj h]
          exact .inl rfl
        · exact .inr h
  · exact .inr h

theorem evolves_release {b : Booking} (h : releasable b = true → ∀ r, t.find? b.id = some r → r.status ≠ .cancelled) :
    Table.Evolves Stays t (release admits t b) := by
  unfold release
  split
  · rename_i hyes
    refine evolves_getD fun t' hsave => ?_
    rcases (save_cases hsave).2 with ⟨r, hr, -, -, -⟩ | ⟨-, -, -, hinsert⟩
    · exact evolves_save (b := b.miss) hr (h hyes r hr) hsave
    · exact Table.evolves_insert? stays_refl hinsert
  · exact .refl stays_refl t

theorem evolves_tick {candidates : List Booking} (h : ∀ b ∈ candidates, t.find? b.id = some b) :
    Table.Evolves Stays t (tick admits t candidates) := by
  have hstart : ∀ b ∈ candidates, releasable b = true → ∀ r, t.find? b.id = some r → r.status ≠ .cancelled :=
    fun b hb hyes r hr hcancelled => by
      obtain rfl := Option.some.inj ((h b hb).symm.trans hr)
      simp [releasable, hcancelled] at hyes
  refine (foldl_invariant (P := fun t' => Table.Evolves Stays t t' ∧
    ∀ b ∈ candidates, releasable b = true → ∀ r, t'.find? b.id = some r → r.status ≠ .cancelled)
    (fun t' b hb ht' => ?_) ⟨.refl stays_refl t, hstart⟩).1
  refine ⟨ht'.1.trans stays_trans (evolves_release (ht'.2 b hb)), fun b' hb' hyes r hr => ?_⟩
  rcases find?_release hr with hmissed | hr
  · simp [hmissed]
  · exact ht'.2 b' hb' hyes r hr

end guarded

/-! ### Runs -/

section runs

attribute [local grind =] step Revives

variable {c : Setup} {s : Store}

theorem stays_settle {x : Except CallError (Table Booking)}
    (h : ∀ t, x = .ok t → Table.Evolves Stays s.bookings t) : StaysCancelled s (s.settleBookings x) := evolves_getD h

theorem stays_saveRead_iff (admits : Booking → Bool) (b' : Booking) {t : Table Booking} {b : Booking} {id : Uuid}
    (hb : t.find? id = some b) (hid : b'.id = b.id) (hversion : b'.version = b.version)
    (hstatus : b'.status ≠ .cancelled) :
    Table.Evolves Stays t ((save admits t b').toOption.getD t) ↔
      ¬ (b.status = .cancelled ∧ Takes admits t (b.overwrite b')) :=
  evolves_save_iff (hid ▸ find?_self hb) hversion.symm hstatus

theorem stays_redeem_iff {token : String} {now : Instant} :
    StaysCancelled s (step c s (.redeem token now)) ↔ ¬ Revives c s (.redeem token now) := by
  simp only [StaysCancelled, step, Revives]
  cases husable : usable s.tokens token now with
  | error e =>
    simp only [redeem, husable, bind, Except.bind]
    exact iff_of_true (.refl stays_refl _) (by simp)
  | ok tok =>
    cases hof : ofToken s.bookings tok with
    | error e =>
      simp only [redeem, husable, hof, bind, Except.bind]
      exact iff_of_true (.refl stays_refl _) (by simp [hof])
    | ok b =>
      have hb : s.bookings.find? tok.bookingId = some b := by
        simp only [ofToken, findById, bind_eq_ok, found_eq_ok, pure_eq_ok] at hof
        obtain ⟨b', hb', -, -, rfl⟩ := hof
        exact hb'
      have hiff := stays_saveRead_iff c.admits (b.checkIn now) hb rfl rfl (by simp [Booking.checkIn])
      have hrevives : (∃ tok' b', Except.ok tok = (.ok tok' : Except CallError CheckinToken) ∧
          ofToken s.bookings tok' = .ok b' ∧ b'.status = .cancelled ∧
          Takes c.admits s.bookings (b'.overwrite (b'.checkIn now))) ↔
            b.status = .cancelled ∧ Takes c.admits s.bookings (b.overwrite (b.checkIn now)) := by
        constructor
        · rintro ⟨tok', b', htok, hof', h⟩
          obtain rfl := Except.ok.inj htok
          obtain rfl := Except.ok.inj (hof.symm.trans hof')
          exact h
        · exact fun h => ⟨tok, b, rfl, hof, h⟩
      rw [hrevives, ← hiff]
      simp only [redeem, husable, hof, bind, Except.bind]
      cases save c.admits s.bookings (b.checkIn now) <;> rfl

theorem stays_updateCheckInStatus_iff {bookingId : Uuid} {isCheckIn : Bool} {now : Instant} :
    StaysCancelled s (step c s (.updateCheckInStatus bookingId isCheckIn now)) ↔
      ¬ Revives c s (.updateCheckInStatus bookingId isCheckIn now) := by
  simp only [StaysCancelled, step, Revives, Store.settleBookings]
  cases hb : s.bookings.find? bookingId with
  | none =>
    simp only [updateCheckInStatus, findById, hb, found, bind, Except.bind]
    exact iff_of_true (.refl stays_refl _) (by simp)
  | some b =>
    have hiff := stays_saveRead_iff c.admits (if isCheckIn then b.checkIn now else b.miss) hb
      (by cases isCheckIn <;> rfl) (by cases isCheckIn <;> rfl)
      (by cases isCheckIn <;> simp [Booking.checkIn, Booking.miss])
    simp only [updateCheckInStatus, findById, hb, found, bind, Except.bind]
    rw [hiff]
    simp only [Option.some.injEq, exists_eq_left']

theorem stays_markAsException_iff {bookingId : Uuid} {reason : String} :
    StaysCancelled s (step c s (.markAsException bookingId reason)) ↔
      ¬ Revives c s (.markAsException bookingId reason) := by
  simp only [StaysCancelled, step, Revives, Store.settleBookings]
  cases hb : s.bookings.find? bookingId with
  | none =>
    simp only [markAsException, findById, hb, found, bind, Except.bind]
    exact iff_of_true (.refl stays_refl _) (by simp)
  | some b =>
    have hiff := stays_saveRead_iff c.admits { b with status := .exception, exceptionNotes := reason } hb rfl rfl
      (by simp)
    simp only [markAsException, findById, hb, found, bind, Except.bind, Option.some.injEq, exists_eq_left']
    by_cases hchecked : b.status = .checkedIn
    · have hexcepted : ∃ e, excepted reason b = .error e := ⟨_, by simp only [excepted, hchecked]; rfl⟩
      obtain ⟨e, he⟩ := hexcepted
      rw [he]
      exact iff_of_true (.refl stays_refl _) (by simp [hchecked])
    · have hexcepted : excepted reason b = .ok { b with status := .exception, exceptionNotes := reason } := by
        simp only [excepted, require, bne_iff_ne.2 hchecked, if_true]
        rfl
      rw [hexcepted]
      exact hiff

theorem stays_decide_iff {bookingId : Uuid} {decider : User} {d : Decision} {reason : String} {now : Instant} :
    StaysCancelled s (step c s (.decide bookingId decider d reason now)) ↔
      ¬ Revives c s (.decide bookingId decider d reason now) := by
  simp only [StaysCancelled, step, decideStep]
  cases hpick : pick c.strings s.rules (listByBooking s.steps bookingId) decider with
  | error e =>
    refine iff_of_true (.refl stays_refl _) ?_
    cases d with
    | approved => simp [Revives, hpick]
    | rejected => exact id
  | ok picked =>
    cases d with
    | rejected =>
      exact iff_of_true (evolves_getD fun t' h => evolves_updateStatus (.inl rfl) h) id
    | approved =>
      simp only [Store.settleBookings, afterDecision, verdict, Revives, hpick]
      by_cases hdone : othersDone (listByBooking s.steps bookingId) picked.id = true
      · rw [if_pos hdone, evolves_confirm_iff]
        constructor
        · rintro h ⟨picked', b, -, -, hb⟩
          exact h ⟨b, hb⟩
        · rintro h ⟨b, hb⟩
          exact h ⟨picked, b, rfl, hdone, hb⟩
      · rw [if_neg hdone]
        refine iff_of_true (.refl stays_refl _) ?_
        rintro ⟨picked', b, hpicked, hdone', -⟩
        obtain rfl := Except.ok.inj hpicked
        exact hdone hdone'

theorem stays_step_iff (s : Store) (call : Call) : StaysCancelled s (step c s call) ↔ ¬ Revives c s call := by
  cases call with
  | execute p req => exact iff_of_true (stays_settle fun t h => evolves_execute h) id
  | cancel bookingId reason => exact iff_of_true (stays_settle fun t h => evolves_cancelBooking h) id
  | approve bookingId => exact iff_of_true (stays_settle fun t h => evolves_approve h) id
  | reject bookingId reason => exact iff_of_true (stays_settle fun t h => evolves_reject h) id
  | decide bookingId decider d reason now => exact stays_decide_iff
  | issueToken tenantId bookingId validUntil now random => exact iff_of_true (.refl stays_refl _) id
  | redeem token now => exact stays_redeem_iff
  | updateCheckInStatus bookingId isCheckIn now => exact stays_updateCheckInStatus_iff
  | markAsException bookingId reason => exact stays_markAsException_iff
  | tick gracePeriod now => exact iff_of_true (evolves_tick (c.current _ _)) id

/-- **A cancelled booking stays cancelled exactly as long as no call brings one back.** -/
theorem stays_cancelled_iff {calls : List Call} :
    AllSteps (step c) (fun s call => ¬ Revives c s call) s calls ↔
      ∀ p q r, calls = p ++ q ++ r → StaysCancelled (run (step c) s p) (run (step c) s (p ++ q)) :=
  allSteps_iff_related (R := StaysCancelled) (fun _ => .refl stays_refl _)
    (fun _ _ _ (h : Table.Evolves Stays _ _) h' => Table.Evolves.trans stays_trans h h') stays_step_iff

end runs

/-! ### Four ways back -/

theorem not_stays {s s' : Store} (id : Uuid) (h : (s.bookings.find? id).map Booking.status = some .cancelled)
    (h' : (s'.bookings.find? id).map Booking.status ≠ some .cancelled) : ¬ StaysCancelled s s' := by
  intro hstays
  obtain ⟨b, hb, hcancelled⟩ := Option.map_eq_some_iff.1 h
  obtain ⟨b', hb', hR⟩ := hstays id b hb
  exact h' (by rw [hb', Option.map_some, hR hcancelled])

def plain : Setup where
  admits := fun _ => true
  strings := { equalFold := fun a b => a == b, toUpper := fun s => s, trimSpace := fun s => s }
  listUncheckedConfirmed := fun t before => t.rows.filter fun b =>
    b.status == .confirmed && decide (b.startTime < before) && b.checkedInAt.isNone
  current := fun _ _ _ hb => Table.find?_of_mem (List.mem_filter.1 hb).1

/-- One booking, with a chain of one step that `amy` may decide. -/
def oneBooking : Store where
  bookings := ⟨[{
    id := "b1", tenantId := "t1", resourceId := "r1", userId := "u1", startTime := 0, endTime := 3600000,
    status := .confirmed, bookingMode := some .exclusive }], by simp⟩
  resources := .empty
  steps := ⟨[{
    id := "s1", tenantId := "t1", bookingId := "b1", ruleId := "", stepIndex := 0, levelName := "head",
    approverIds := ["amy"], status := .pending }], by simp⟩
  rules := []
  tokens := .empty

def cancelling : List Call := [.issueToken "t1" "b1" none 0 "q7", .cancel "b1" "not needed"]

/-- After these two, the call does not leave all cancelled bookings cancelled. -/
def BringsBack (call : Call) : Prop :=
  ¬ StaysCancelled (run (step plain) oneBooking cancelling) (run (step plain) oneBooking (cancelling ++ [call]))

/-- Each of the four calls brings the cancelled booking back. -/
theorem cancelled_comes_back : BringsBack (.redeem "q7" 60000) ∧ BringsBack (.updateCheckInStatus "b1" true 60000) ∧
    BringsBack (.markAsException "b1" "typhoon") ∧
    BringsBack (.decide "b1" { id := "amy", role := "Secretary" } .approved "" 60000) := by
  refine ⟨not_stays "b1" ?_ ?_, not_stays "b1" ?_ ?_, not_stays "b1" ?_ ?_, not_stays "b1" ?_ ?_⟩ <;> decide +kernel

end BookingSystem.Runs.CancelledStays
