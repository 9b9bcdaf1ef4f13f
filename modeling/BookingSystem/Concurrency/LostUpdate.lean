import BookingSystem.Concurrency.SaveRace

/-!
# Lost updates of a booking row

Which pairs of operations lose a transition, in terms of the checks the operations make: one of them moves a column
(`Transits`), and the other one saves the row with this column as it has read it (`PutsBack`). No interleaving loses a
transition exactly when the two are not such a pair (`no_lost_transition_iff`).
-/

namespace BookingSystem.Concurrency

open Base Model Model.BookingsService Effects
open Model.AutoReleaseService

/-! ### The checks -/

/-- The booking is one of the tenant, and the caller its owner or an admin; the two marks are for admins only. -/
def May (e : Event) (b : Booking) : Prop :=
  match e.op with
  | .update tenantId userId role _ _ | .cancel tenantId userId role _ _ =>
    b.tenantId = tenantId ∧ (b.userId = userId ∨ isAdmin role = true)
  | .issueToken tenantId userId admin _ _ | .checkinByBooking tenantId userId admin _ =>
    b.tenantId = tenantId ∧ (b.userId = userId ∨ admin = true)
  | .markNoShow tenantId _ _ | .markAttended tenantId _ => b.tenantId = tenantId
  | _ => False

/-- The operation is one that sets the status, and finds the row in a status it does so from. -/
def SetsStatus (st : Store) (e : Event) (b : Booking) : Prop :=
  match e.op with
  | .cancel .. => May e b ∧ b.status ∉ terminalStatuses
  | .checkinByBooking .. => May e b ∧ b.status.released = false ∧ b.status ≠ .checkedIn
  | .markNoShow .. => May e b ∧ b.status.released = false
  | .markAttended .. => May e b ∧ b.status.released = false ∧ b.status ≠ .attended
  | .redeemToken token => token ≠ "" ∧ st.bookings.rows.find? (CheckinService.claims e.now token) = some b ∧
      b.status ≠ .checkedIn
  | .tick => b ∈ candidates e.now st.bookings ∧ overdue e.env e.now b = true
  | _ => False

def target : Op → BookingStatus
  | .cancel .. => .cancelled
  | .checkinByBooking .. | .redeemToken _ => .checkedIn
  | .markNoShow .. | .tick => .noShow
  | _ => .attended

/-- The operation is an edit that passes its checks, with the slot it asks for, if any; the conflict check is made on
the bookings `checked`. -/
def Accepts (st : Store) (checked : Table Booking) (e : Event) (b : Booking) (slot : Option Slot) : Prop :=
  match e.op with
  | .update tenantId userId role id dto =>
    updateAdmit e.env e.now tenantId userId role id dto st.bookings = .ok (b, slot) ∧
      ∃ saved, updateCommit e.env tenantId dto b slot checked = .ok saved
  | _ => False

def Shifts (b : Booking) (slot : Option Slot) : Column → Prop
  | .status => ∃ s, slot = some s ∧ needsApproval s.resource = true ∧ b.status = .confirmed
  | .resourceId => ∃ s, slot = some s ∧ s.resource.id ≠ b.resourceId
  | .startTime => ∃ s, slot = some s ∧ s.start ≠ b.startTime
  | .endTime => ∃ s, slot = some s ∧ s.finish ≠ b.endTime

/-- The operation moves the column: it cancels the booking, checks it in or marks it as not used, or it is an edit of
the slot. -/
def Transits (st : Store) (e : Event) (b : Booking) (c : Column) : Prop :=
  if c = .status then SetsStatus st e b ∧ target e.op ∈ [BookingStatus.cancelled, .noShow, .checkedIn]
  else ∃ slot, Accepts st st.bookings e b slot ∧ Shifts b slot c

/-- The operation saves the row, with the column as it has read it. -/
def PutsBack (st : Store) (checked : Table Booking) (e : Event) (b : Booking) (c : Column) : Prop :=
  match e.op with
  | .issueToken .. => May e b
  | .update .. => ∃ slot, Accepts st checked e b slot ∧ ¬ Shifts b slot c
  | .cancel .. | .checkinByBooking .. | .markNoShow .. | .markAttended .. => SetsStatus st e b ∧ c ≠ .status
  | _ => False

/-! ### The entities -/

section Entities

variable {id : Uuid} {st : Store} {checked : Table Booking} {b : Booking}

/-- The row on the slot it was on. -/
def SameSlot (b v : Booking) : Prop :=
  v.resourceId = b.resourceId ∧ v.startTime = b.startTime ∧ v.endTime = b.endTime

theorem SameSlot.same {b v : Booking} (h : SameSlot b v) {c : Column} (hc : c ≠ .status) : c.Same b v := by
  cases c with
  | status => exact absurd rfl hc
  | resourceId => exact h.1
  | startTime => exact h.2.1
  | endTime => exact h.2.2

/-- The operations that set the status by a save. -/
def SavesStatus (e : Event) : Prop :=
  match e.op with
  | .cancel .. | .checkinByBooking .. | .markNoShow .. | .markAttended .. => True
  | _ => False

theorem setsStatus_of_entity {e : Event} {v : Booking} (hb : st.bookings.find? id = some b) (he : OnBooking id e)
    (hs : SavesStatus e) (hv : entity st checked e = some v) :
    SetsStatus st e b ∧ v.status = target e.op ∧ SameSlot b v := by
  obtain ⟨env, now, op⟩ := e
  cases op with
  | cancel tenantId userId role bookingId reason =>
    obtain rfl : bookingId = id := he
    obtain ⟨st', hr, hread⟩ := unlessRead_eq_some.1 hv
    have hrow := cancel_row hr
    obtain ⟨b', hb', hown, ⟨-, rfl⟩ | ⟨hst, notes, rfl⟩⟩ := cancel_ok hr
    · exact absurd hrow hread
    · obtain ⟨rfl, hten, rfl⟩ := saved_row hb hb' hrow rfl
      exact ⟨⟨⟨hten, hown⟩, hst⟩, rfl, rfl, rfl, rfl⟩
  | checkinByBooking tenantId userId admin bookingId =>
    obtain rfl : bookingId = id := he
    obtain ⟨st', hr, hread⟩ := unlessRead_eq_some.1 hv
    simp only [CheckinService.checkinByBooking, bind_eq_ok, require_eq_ok, found_eq_ok, pure_eq_ok, Prod.mk.injEq] at hr
    obtain ⟨b', hb', ⟨⟩, hown, saved, happ, -, rfl⟩ := hr
    obtain ⟨hfind, hten⟩ := findBooking_eq_some.1 hb'
    obtain rfl := Option.some.inj (hb.symm.trans hfind)
    have hnew : b.status ≠ .checkedIn := fun hin => hread (by rw [hb, applyCheckin_again hin happ])
    obtain ⟨hrel, at', rfl⟩ := applyCheckin_ok happ
    exact ⟨⟨⟨hten, by simpa using hown⟩, hrel, hnew⟩, rfl, rfl, rfl, rfl⟩
  | markNoShow tenantId bookingId reason =>
    obtain rfl : bookingId = id := he
    obtain ⟨st', hr, hread⟩ := unlessRead_eq_some.1 hv
    have hrow := markNoShow_row hr
    obtain rfl | ⟨b', notes, hb', hrel, rfl⟩ := markNoShow_ok hr
    · exact absurd hrow hread
    · obtain ⟨rfl, hten, rfl⟩ := saved_row hb hb' hrow rfl
      exact ⟨⟨hten, hrel⟩, rfl, rfl, rfl, rfl⟩
  | markAttended tenantId bookingId =>
    obtain rfl : bookingId = id := he
    obtain ⟨st', hr, hread⟩ := unlessRead_eq_some.1 hv
    have hrow := markAttended_row hr
    obtain rfl | ⟨b', hb', hrel, rfl⟩ := markAttended_ok hr
    · exact absurd hrow hread
    · obtain ⟨rfl, hten, rfl⟩ := saved_row hb hb' hrow rfl
      refine ⟨⟨hten, hrel, fun hat => hread ?_⟩, rfl, rfl, rfl, rfl⟩
      rw [hb, ← hat]
  | _ => exact absurd hs (by simp [SavesStatus])

theorem entity_of_setsStatus {e : Event} (hb : st.bookings.find? id = some b) (he : OnBooking id e)
    (hs : SavesStatus e) (h : SetsStatus st e b) : ∃ v, entity st checked e = some v := by
  -- a status that is set is not the one that was read
  have hunread : ∀ {r : Except HttpError (Store × Booking)} (v : Booking),
      r = .ok ({ st with bookings := st.bookings.save v }, v) → v.status ≠ b.status →
      ∃ v, unlessRead st id r = some v := by
    intro r v hr hne
    refine ⟨v, unlessRead_eq_some.2 ⟨_, hr, ?_⟩⟩
    rw [hb]
    rintro ⟨⟩
    exact hne rfl
  obtain ⟨env, now, op⟩ := e
  cases op with
  | cancel tenantId userId role bookingId reason =>
    obtain rfl : bookingId = id := he
    obtain ⟨⟨hten, hown⟩, hst⟩ := h
    obtain ⟨v, hv, -, -, hcan⟩ := @cancel_of_open tenantId userId role bookingId reason st b
      (findBooking_eq_some.2 ⟨hb, hten⟩) hown hst
    refine hunread v hv fun hsame => hst ?_
    rw [← hsame, hcan]
    decide
  | checkinByBooking tenantId userId admin bookingId =>
    obtain rfl : bookingId = id := he
    obtain ⟨⟨hten, hown⟩, hrel, hst⟩ := h
    obtain ⟨at', happ⟩ := @applyCheckin_of_not_released now b hrel
    refine hunread { b with status := .checkedIn, checkedInAt := at' } ?_ (Ne.symm hst)
    simp only [CheckinService.checkinByBooking, bind_eq_ok, found_eq_ok, require_eq_ok]
    exact ⟨b, findBooking_eq_some.2 ⟨hb, hten⟩, (), by simpa using hown, _, happ, rfl⟩
  | markNoShow tenantId bookingId reason =>
    obtain rfl : bookingId = id := he
    obtain ⟨hten, hrel⟩ := h
    refine hunread { b with
      status := .noShow
      exceptionNotes := CheckinService.firstText (trim (reason.getD "")) b.exceptionNotes "admin marked no-show" } ?_ ?_
    · simp only [CheckinService.markNoShow, bind_eq_ok, found_eq_ok]
      refine ⟨b, findBooking_eq_some.2 ⟨hb, hten⟩, ?_⟩
      rw [if_neg (by simp [hrel])]
      rfl
    · rintro hst
      rw [← show BookingStatus.noShow = b.status from hst] at hrel
      cases hrel
  | markAttended tenantId bookingId =>
    obtain rfl : bookingId = id := he
    obtain ⟨hten, hrel, hst⟩ := h
    refine hunread { b with status := .attended } ?_ (Ne.symm hst)
    simp only [CheckinService.markAttended, bind_eq_ok, found_eq_ok]
    refine ⟨b, findBooking_eq_some.2 ⟨hb, hten⟩, ?_⟩
    rw [if_neg (by simpa using hst)]
    exact bind_eq_ok.2 ⟨(), require_of (by simpa using hrel), rfl⟩
  | _ => exact absurd hs (by simp [SavesStatus])

theorem same_iff_of_edits {s : Slot} {v : Booking} (h : Edits (reschedule b s) v) (c : Column) :
    c.Same b v ↔ ¬ Shifts b (some s) c := by
  cases c with
  | status =>
    show v.status = b.status ↔ ¬ ∃ s', some s = some s' ∧ _
    rw [h.status]
    by_cases hre : needsApproval s.resource = true ∧ b.status = .confirmed
    · simp [reschedule, hre]
    · have hkeep : (reschedule b s).status = b.status := by
        refine if_neg ?_
        simpa using hre
      simp only [hkeep, true_iff]
      rintro ⟨s', hs', happ, hst⟩
      obtain rfl := Option.some.inj hs'
      exact hre ⟨happ, hst⟩
  | resourceId =>
    show v.resourceId = b.resourceId ↔ _
    rw [h.resourceId]
    simp [reschedule, Shifts]
  | startTime =>
    show v.startTime = b.startTime ↔ _
    rw [h.startTime]
    simp [reschedule, Shifts]
  | endTime =>
    show v.endTime = b.endTime ↔ _
    rw [h.endTime]
    simp [reschedule, Shifts]

section Update

variable {env : Env} {now : Instant} {tenantId userId : Uuid} {role : String} {dto : UpdateBookingDto}

theorem entity_update {v : Booking} : entity st checked ⟨env, now, .update tenantId userId role id dto⟩ = some v ↔
    ∃ b slot, updateAdmit env now tenantId userId role id dto st.bookings = .ok (b, slot) ∧
      updateCommit env tenantId dto b slot checked = .ok v := by
  simp only [entity, Option.bind_eq_some_iff, toOption_eq_some, Prod.exists]

theorem accepts_of_entity {v : Booking} (hb : st.bookings.find? id = some b)
    (hv : entity st checked ⟨env, now, .update tenantId userId role id dto⟩ = some v) :
    ∃ slot, Accepts st checked ⟨env, now, .update tenantId userId role id dto⟩ b slot ∧ ∀ c : Column,
      c.Same b v ↔ ¬ Shifts b slot c := by
  obtain ⟨b', slot, hadm, hcom⟩ := entity_update.1 hv
  obtain ⟨hfind, -⟩ := findBooking_eq_some.1 (updateAdmit_ok hadm).1
  obtain rfl := Option.some.inj (hb.symm.trans hfind)
  refine ⟨slot, ⟨hadm, v, hcom⟩, fun c => ?_⟩
  rcases updateCommit_ok hcom with ⟨rfl, he⟩ | ⟨s, rfl, -, he⟩
  · cases c with
    | status => simp [Column.Same, he.status, Shifts]
    | resourceId => simp [Column.Same, he.resourceId, Shifts]
    | startTime => simp [Column.Same, he.startTime, Shifts]
    | endTime => simp [Column.Same, he.endTime, Shifts]
  · exact same_iff_of_edits he c

theorem entity_of_accepts {slot : Option Slot}
    (h : Accepts st checked ⟨env, now, .update tenantId userId role id dto⟩ b slot) :
    ∃ v, entity st checked ⟨env, now, .update tenantId userId role id dto⟩ = some v := by
  obtain ⟨hadm, v, hcom⟩ := h
  exact ⟨v, entity_update.2 ⟨b, slot, hadm, hcom⟩⟩

theorem Accepts.slot_eq {e : Event} {slot slot' : Option Slot} (h : Accepts st checked e b slot)
    (h' : Accepts st checked e b slot') : slot' = slot := by
  obtain ⟨env, now, op⟩ := e
  cases op with
  | update tenantId userId role bookingId dto =>
    have := h'.1.symm.trans h.1
    simpa using this
  | _ => exact h.elim

end Update

theorem may_of_entity {env : Env} {now : Instant} {tenantId userId : Uuid} {admin : Bool} {token : String}
    {v : Booking} (hb : st.bookings.find? id = some b)
    (hv : entity st checked ⟨env, now, .issueToken tenantId userId admin id token⟩ = some v) :
    May ⟨env, now, .issueToken tenantId userId admin id token⟩ b ∧ ∀ c : Column, c.Same b v := by
  simp only [entity] at hv
  cases hr : CheckinService.issueToken now token tenantId userId admin id st with
  | error x => simp [hr, Except.toOption] at hv
  | ok r =>
    obtain ⟨b', hb', hown, hst⟩ := issueToken_ok hr
    have hrow : (st.bookings.save
        { b' with
          checkinToken := some token
          checkinTokenExpiresAt := some (now + CheckinService.defaultTokenTtlMs) }).find? id = some v := by
      simpa [hr, Except.toOption, hst] using hv
    obtain ⟨rfl, hten, rfl⟩ := saved_row hb hb' hrow rfl
    exact ⟨⟨hten, hown⟩, fun c => by cases c <;> rfl⟩

theorem entity_of_may {env : Env} {now : Instant} {tenantId userId : Uuid} {admin : Bool} {token : String}
    (hb : st.bookings.find? id = some b) (h : May ⟨env, now, .issueToken tenantId userId admin id token⟩ b) :
    ∃ v, entity st checked ⟨env, now, .issueToken tenantId userId admin id token⟩ = some v := by
  obtain ⟨hten, hown⟩ := h
  have hb' := findBooking_eq_some.2 ⟨hb, hten⟩
  obtain ⟨r, hr⟩ : ∃ r, CheckinService.issueToken now token tenantId userId admin id st = .ok r :=
    exists_bind_ok (found_eq_ok.2 hb') (exists_bind_ok (require_of (by simpa using hown)) ⟨_, rfl⟩)
  obtain ⟨b', hb'', -, hst⟩ := issueToken_ok hr
  obtain ⟨v, hv⟩ : ∃ v, r.1.bookings.find? id = some v := by
    rw [hst]
    exact ⟨_, find?_saved hb'' rfl⟩
  exact ⟨v, by simp [entity, hr, Except.toOption, hv]⟩

theorem putsBack_of_savesStatus {e : Event} (hs : SavesStatus e) (c : Column) :
    PutsBack st checked e b c ↔ SetsStatus st e b ∧ c ≠ .status := by
  obtain ⟨env, now, op⟩ := e
  cases op <;> first | exact hs.elim | rfl

theorem status_ne_target {e : Event} (h : SetsStatus st e b) : b.status ≠ target e.op := by
  obtain ⟨env, now, op⟩ := e
  cases op with
  | cancel tenantId userId role bookingId reason =>
    intro hst
    exact h.2 (by simp [hst, target, terminalStatuses])
  | checkinByBooking tenantId userId admin bookingId => exact h.2.2
  | markNoShow tenantId bookingId reason =>
    intro hst
    have := h.2
    rw [hst] at this
    cases this
  | markAttended tenantId bookingId => exact h.2.2
  | redeemToken token => exact h.2.2
  | tick =>
    obtain ⟨-, hst, -⟩ := mem_candidates h.1
    simp [hst, target]
  | _ => exact h.elim

/-- **What an operation puts back.** The entity agrees with the row as it was read exactly in the columns that the
operation does not set. -/
theorem putsBack_iff {e : Event} (hb : st.bookings.find? id = some b) (he : OnBooking id e) (c : Column) :
    (∃ v, entity st checked e = some v ∧ c.Same b v) ↔ PutsBack st checked e b c := by
  by_cases hs : SavesStatus e
  · rw [putsBack_of_savesStatus hs]
    constructor
    · rintro ⟨v, hv, hsame⟩
      obtain ⟨hset, hst, -⟩ := setsStatus_of_entity hb he hs hv
      refine ⟨hset, ?_⟩
      rintro rfl
      have hst' : v.status = b.status := hsame
      exact status_ne_target hset (hst'.symm.trans hst)
    · rintro ⟨hset, hc⟩
      obtain ⟨v, hv⟩ := entity_of_setsStatus hb he hs hset
      exact ⟨v, hv, (setsStatus_of_entity hb he hs hv).2.2.same hc⟩
  obtain ⟨env, now, op⟩ := e
  cases op with
  | update tenantId userId role bookingId dto =>
    obtain rfl : bookingId = id := he
    constructor
    · rintro ⟨v, hv, hsame⟩
      obtain ⟨slot, hacc, hcol⟩ := accepts_of_entity hb hv
      exact ⟨slot, hacc, (hcol c).1 hsame⟩
    · rintro ⟨slot, hacc, hnot⟩
      obtain ⟨v, hv⟩ := entity_of_accepts hacc
      obtain ⟨slot', hacc', hcol⟩ := accepts_of_entity hb hv
      obtain rfl := hacc.slot_eq hacc'
      exact ⟨v, hv, (hcol c).2 hnot⟩
  | issueToken tenantId userId admin bookingId token =>
    obtain rfl : bookingId = id := he
    constructor
    · rintro ⟨v, hv, -⟩
      exact (may_of_entity hb hv).1
    · intro hmay
      obtain ⟨v, hv⟩ := entity_of_may hb hmay
      exact ⟨v, hv, (may_of_entity hb hv).2 c⟩
  | redeemToken token => simp [entity, PutsBack]
  | tick => simp [entity, PutsBack]
  | cancel tenantId userId role bookingId reason => exact absurd trivial hs
  | checkinByBooking tenantId userId admin bookingId => exact absurd trivial hs
  | markNoShow tenantId bookingId reason => exact absurd trivial hs
  | markAttended tenantId bookingId => exact absurd trivial hs
  | _ => exact he.elim

end Entities

/-! ### The rows -/

section Rows

variable {id : Uuid} {st : Store} {b : Booking}

/-- The row after an operation that sets the status, if its checks let it. -/
def StatusRow (st : Store) (e : Event) (b b' : Booking) : Prop :=
  SameSlot b b' ∧ (SetsStatus st e b ∧ b'.status = target e.op ∨ ¬ SetsStatus st e b ∧ b'.status = b.status)

theorem statusRow_of_saves {e : Event} (hb : st.bookings.find? id = some b) (he : OnBooking id e)
    (hs : SavesStatus e) : ∃ b', (step st e).bookings.find? id = some b' ∧ StatusRow st e b b' := by
  have hsave : Saves e := by
    obtain ⟨env, now, op⟩ := e
    cases op <;> first | exact hs.elim | exact ⟨by simp, by simp⟩
  rw [step_entity he hsave]
  cases hv : entity st st.bookings e with
  | none =>
    refine ⟨b, hb, ⟨rfl, rfl, rfl⟩, .inr ⟨fun hset => ?_, rfl⟩⟩
    obtain ⟨v, hv'⟩ := entity_of_setsStatus hb he hs hset
    rw [hv] at hv'
    cases hv'
  | some v =>
    obtain ⟨hset, hst, hslot⟩ := setsStatus_of_entity hb he hs hv
    exact ⟨v, rfl, hslot, .inl ⟨hset, hst⟩⟩

theorem statusRow_of_redeem {env : Env} {now : Instant} {token : String} (hb : st.bookings.find? id = some b) :
    ∃ b', (step st ⟨env, now, .redeemToken token⟩).bookings.find? id = some b' ∧
      StatusRow st ⟨env, now, .redeemToken token⟩ b b' := by
  simp only [step]
  cases hr : CheckinService.redeemToken now token st with
  | error x =>
    refine ⟨b, hb, ⟨rfl, rfl, rfl⟩, .inr ⟨fun hset => ?_, rfl⟩⟩
    obtain ⟨r, hr'⟩ := redeemToken_of_claim hset.1 hset.2.1
    rw [hr] at hr'
    cases hr'
  | ok p =>
    obtain ⟨claim, at', htok, hclaim, hst⟩ := @redeemToken_ok now token st p.1 p.2 hr
    rw [settle_ok, hst]
    by_cases hid : claim.id = id
    · obtain rfl : claim = b := by
        have hrow := Table.find?_of_mem (List.mem_of_find?_eq_some hclaim)
        rw [key_booking, hid, hb] at hrow
        exact (Option.some.inj hrow).symm
      have hburnt : (st.bookings.update (CheckinService.claims now token) CheckinService.burn
          CheckinService.key_burn).find? id = some (CheckinService.burn claim) := by
        rw [Table.find?_update, hb, Option.map_some, if_pos (List.find?_some hclaim)]
      refine ⟨_, Table.find?_save_of_key hid hburnt, ⟨rfl, rfl, rfl⟩, ?_⟩
      by_cases hin : claim.status = .checkedIn
      · exact .inr ⟨fun hset => hset.2.2 hin, hin.symm⟩
      · exact .inl ⟨⟨htok, hclaim, hin⟩, rfl⟩
    · have hnot : ¬ SetsStatus st ⟨env, now, .redeemToken token⟩ b := by
        rintro ⟨-, hclaim', -⟩
        rw [hclaim, Option.some.injEq] at hclaim'
        exact hid (hclaim' ▸ Table.key_of_find? hb)
      rw [Table.find?_save_of_ne hid, Table.find?_update, hb, Option.map_some]
      refine ⟨_, rfl, ?_⟩
      split
      · exact ⟨⟨rfl, rfl, rfl⟩, .inr ⟨hnot, rfl⟩⟩
      · exact ⟨⟨rfl, rfl, rfl⟩, .inr ⟨hnot, rfl⟩⟩

theorem statusRow_of_tick {env : Env} {now : Instant} (hb : st.bookings.find? id = some b) :
    ∃ b', (step st ⟨env, now, .tick⟩).bookings.find? id = some b' ∧ StatusRow st ⟨env, now, .tick⟩ b b' := by
  show ∃ b', (tick env now st).bookings.find? id = some b' ∧ _
  have hid : b.id = id := Table.key_of_find? hb
  rw [tick_find?]
  cases hc : (candidates now st.bookings).find? (·.id == id) with
  | none =>
    refine ⟨b, hb, ⟨rfl, rfl, rfl⟩, .inr ⟨fun hset => ?_, rfl⟩⟩
    exact absurd (List.find?_eq_none.1 hc b hset.1) (by simp [hid])
  | some c =>
    have hmem := List.mem_of_find?_eq_some hc
    obtain ⟨hrow, hst, hin⟩ := mem_candidates hmem
    obtain rfl : c = b := by
      have hrow' := Table.find?_of_mem hrow
      rw [key_booking, show c.id = id by simpa using List.find?_some hc, hb] at hrow'
      exact (Option.some.inj hrow').symm
    dsimp only
    split
    · rename_i hover
      rw [find?_release, hb, Option.map_some, if_pos ⟨rfl, hst, hin⟩]
      exact ⟨_, rfl, ⟨rfl, rfl, rfl⟩, .inl ⟨⟨hmem, hover⟩, rfl⟩⟩
    · rename_i hover
      exact ⟨c, hb, ⟨rfl, rfl, rfl⟩, .inr ⟨fun hset => hover hset.2, rfl⟩⟩

theorem StatusRow.moved_iff {e : Event} {b' : Booking} (h : StatusRow st e b b') (c : Column) :
    c.Moved b b' ↔ c = .status ∧ SetsStatus st e b ∧ target e.op ∈ [BookingStatus.cancelled, .noShow, .checkedIn] := by
  obtain ⟨hslot, hst⟩ := h
  constructor
  · rintro ⟨hne, hto⟩
    have hc : c = .status := by
      by_contra hc
      exact hne (hslot.same hc)
    subst hc
    rcases hst with ⟨hset, hst⟩ | ⟨-, hst⟩
    · exact ⟨rfl, hset, hst ▸ hto rfl⟩
    · exact absurd hst hne
  · rintro ⟨rfl, hset, hto⟩
    rcases hst with ⟨-, hst⟩ | ⟨hnot, -⟩
    · refine ⟨fun hsame => status_ne_target hset ?_, fun _ => hst ▸ hto⟩
      exact (show b'.status = b.status from hsame).symm.trans hst
    · exact absurd hset hnot

theorem moved_iff_entity {e : Event} (hb : st.bookings.find? id = some b) (he : OnBooking id e) (hs : Saves e)
    (c : Column) : (∃ b', (step st e).bookings.find? id = some b' ∧ c.Moved b b') ↔
      ∃ v, entity st st.bookings e = some v ∧ c.Moved b v := by
  rw [step_entity he hs]
  cases entity st st.bookings e with
  | none =>
    rw [Option.none_or, hb]
    simp only [Option.some.injEq, exists_eq_left', reduceCtorEq, false_and, exists_false, iff_false]
    exact fun h => h.ne rfl
  | some v => rfl

theorem not_moved_status_of_edit {env : Env} {now : Instant} {tenantId userId : Uuid} {role : String}
    {dto : UpdateBookingDto} {v : Booking} (hb : st.bookings.find? id = some b)
    (hv : entity st st.bookings ⟨env, now, .update tenantId userId role id dto⟩ = some v) :
    ¬ Column.status.Moved b v := by
  rintro ⟨hne, hto⟩
  obtain ⟨b', slot, hadm, hcom⟩ := entity_update.1 hv
  obtain ⟨hfind, -⟩ := findBooking_eq_some.1 (updateAdmit_ok hadm).1
  obtain rfl := Option.some.inj (hb.symm.trans hfind)
  rcases updateCommit_ok hcom with ⟨-, hed⟩ | ⟨sl, -, -, hed⟩
  · exact hne hed.status
  · have hto' := hto rfl
    rw [hed.status] at hto'
    by_cases hre : (needsApproval sl.resource && b.status == .confirmed) = true
    · simp [reschedule, hre] at hto'
    · refine hne (hed.status.trans ?_)
      exact if_neg hre

theorem transits_update {env : Env} {now : Instant} {tenantId userId : Uuid} {role : String} {dto : UpdateBookingDto}
    (hb : st.bookings.find? id = some b) (c : Column) :
    (∃ v, entity st st.bookings ⟨env, now, .update tenantId userId role id dto⟩ = some v ∧ c.Moved b v) ↔
      Transits st ⟨env, now, .update tenantId userId role id dto⟩ b c := by
  unfold Transits
  by_cases hc : c = .status
  · subst hc
    simp only [if_true, SetsStatus, false_and, iff_false]
    rintro ⟨v, hv, hmoved⟩
    exact not_moved_status_of_edit hb hv hmoved
  · rw [if_neg hc]
    constructor
    · rintro ⟨v, hv, hmoved⟩
      obtain ⟨slot, hacc, hcol⟩ := accepts_of_entity hb hv
      exact ⟨slot, hacc, by simpa using (hcol c).not.1 hmoved.1⟩
    · rintro ⟨slot, hacc, hshift⟩
      obtain ⟨v, hv⟩ := entity_of_accepts hacc
      obtain ⟨slot', hacc', hcol⟩ := accepts_of_entity hb hv
      obtain rfl := hacc.slot_eq hacc'
      exact ⟨v, hv, fun hsame => (hcol c).1 hsame hshift, fun h => absurd h hc⟩

theorem transits_of_statusRow {e : Event} {b' : Booking} (hb' : (step st e).bookings.find? id = some b')
    (hrow : StatusRow st e b b') (hacc : ∀ slot, ¬ Accepts st st.bookings e b slot) (c : Column) :
    (∃ b', (step st e).bookings.find? id = some b' ∧ c.Moved b b') ↔ Transits st e b c := by
  simp only [hb', Option.some.injEq, exists_eq_left', hrow.moved_iff, Transits]
  by_cases hc : c = .status
  · simp [hc]
  · simp [hc, hacc]

/-- **What an operation moves.** The columns that have moved after an operation are those its checks let it move. -/
theorem transits_iff {e : Event} (hb : st.bookings.find? id = some b) (he : OnBooking id e) (c : Column) :
    (∃ b', (step st e).bookings.find? id = some b' ∧ c.Moved b b') ↔ Transits st e b c := by
  by_cases hs : SavesStatus e
  · obtain ⟨b', hb', hrow⟩ := statusRow_of_saves hb he hs
    refine transits_of_statusRow hb' hrow (fun slot hacc => ?_) c
    obtain ⟨env, now, op⟩ := e
    cases op <;> first | exact hs.elim | exact hacc
  obtain ⟨env, now, op⟩ := e
  cases op with
  | update tenantId userId role bookingId dto =>
    obtain rfl : bookingId = id := he
    rw [moved_iff_entity (e := ⟨env, now, .update tenantId userId role bookingId dto⟩) hb rfl ⟨by simp, by simp⟩]
    exact transits_update hb c
  | issueToken tenantId userId admin bookingId token =>
    obtain rfl : bookingId = id := he
    rw [moved_iff_entity (e := ⟨env, now, .issueToken tenantId userId admin bookingId token⟩) hb rfl
      ⟨by simp, by simp⟩, Transits]
    simp only [SetsStatus, Accepts, false_and, exists_false, ite_self, iff_false]
    rintro ⟨v, hv, hmoved⟩
    exact hmoved.1 ((may_of_entity hb hv).2 c)
  | redeemToken token =>
    obtain ⟨b', hb', hrow⟩ := @statusRow_of_redeem id st b env now token hb
    exact transits_of_statusRow hb' hrow (fun _ h => h) c
  | tick =>
    obtain ⟨b', hb', hrow⟩ := @statusRow_of_tick id st b env now hb
    exact transits_of_statusRow hb' hrow (fun _ h => h) c
  | cancel tenantId userId role bookingId reason => exact absurd trivial hs
  | checkinByBooking tenantId userId admin bookingId => exact absurd trivial hs
  | markNoShow tenantId bookingId reason => exact absurd trivial hs
  | markAttended tenantId bookingId => exact absurd trivial hs
  | _ => exact he.elim

end Rows

/-- **No lost transition.** No interleaving of two operations on a booking loses a transition of its row, if and only
if neither of them moves a column that the other one puts back. -/
theorem no_lost_transition_iff {id : Uuid} {ops : Bool → Event} {st : Store} (hops : ∀ i, OnBooking id (ops i))
    {b : Booking} (hb : st.bookings.find? id = some b) :
    (∀ schedule, NoLostTransition id ops st schedule) ↔
      ∀ i c, Transits st (ops i) b c → ¬ PutsBack st (standing st (ops i)) (ops (!i)) b c := by
  rw [no_lost_iff_compatible hops hb]
  refine forall_congr' fun i => ?_
  constructor
  · intro hcomp c htrans hback
    obtain ⟨b', hb', hmoved⟩ := (transits_iff hb (hops i) c).2 htrans
    obtain ⟨v, hv, hsame⟩ := (putsBack_iff hb (hops (!i)) c).2 hback
    exact hcomp c b b' v hb hb' hv hmoved hsame
  · intro h c b₁ b' v hb₁ hb' hv hmoved hsame
    obtain rfl := Option.some.inj (hb.symm.trans hb₁)
    exact h c ((transits_iff hb (hops i) c).1 ⟨b', hb', hmoved⟩) ((putsBack_iff hb (hops (!i)) c).1 ⟨v, hv, hsame⟩)

/-! ### Two pairs -/

def openOffice : Env := office (.single { id := "r", tenantId := "t" }) .empty .empty

def bookedRoom : Store :=
  run Store.empty [⟨openOffice, 0, requestRoom⟩, ⟨openOffice, 1, .issueToken "t" "u" false "b" "token"⟩]

def cancelOrRedeem : Bool → Event
  | true => ⟨openOffice, 2, .cancel "t" "u" "Officer" "b" ""⟩
  | false => ⟨openOffice, 2, .redeemToken "token"⟩

def cancelOrIssue : Bool → Event
  | true => ⟨openOffice, 2, .cancel "t" "u" "Officer" "b" ""⟩
  | false => ⟨openOffice, 2, .issueToken "t" "u" false "b" "other"⟩

/-- The cancellation sets the status, which is all the kiosk moves; the kiosk puts nothing back. -/
theorem no_lost_transition_iff_redeem :
    (∃ b, bookedRoom.bookings.find? "b" = some b ∧ Transits bookedRoom (cancelOrRedeem true) b .status) ∧
      ∀ schedule, NoLostTransition "b" cancelOrRedeem bookedRoom schedule := by
  refine ⟨⟨_, rfl, ⟨⟨rfl, .inl rfl⟩, by decide⟩, by decide⟩, (no_lost_transition_iff (b := _) ?_ rfl).2 ?_⟩
  · intro i
    cases i <;> simp [OnBooking, cancelOrRedeem]
  · intro i c htrans hback
    cases i with
    | true => exact hback
    | false =>
      have hc : c ≠ .status := hback.2
      simp [Transits, hc, cancelOrRedeem, Accepts] at htrans

/-- The token is issued from the row as it was before the cancellation, and the save puts the status back. -/
theorem cancellation_lost :
    ¬ ∀ (id : Uuid) (ops : Bool → Event) (st : Store) (b : Booking), (∀ i, OnBooking id (ops i)) →
      st.bookings.find? id = some b → ∀ schedule, NoLostTransition id ops st schedule := by
  intro h
  have := h "b" cancelOrIssue bookedRoom _ (by intro i; cases i <;> simp [OnBooking, cancelOrIssue]) rfl
    [false, true, true, true, false, false] [false, true, true] [false] [] true rfl nofun .status _ _ _ rfl rfl
    rfl ⟨by decide, by decide⟩
  exact this (by decide)

end BookingSystem.Concurrency
