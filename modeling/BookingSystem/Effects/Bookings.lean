import BookingSystem.Model.Bookings
import BookingSystem.Base.Run

/-!
# What `BookingsService` writes

One lemma for each operation: what an accepted request has checked, and the row it writes. The proofs of the
other modules use these and never look inside the operations.
-/

namespace BookingSystem.Effects

open Base Model Model.BookingsService

/-! ### Creating -/

/-- The stored answers are the ones that `validateCustomFields` has left of `incoming`. -/
def Answered (r : Resource) (incoming : FieldValues) (stored : Option FieldValues) : Prop :=
  ∃ cleaned, validateCustomFields r incoming = .ok cleaned ∧ stored = toColumn cleaned

/-- What `create` has checked before its locks, and the row it is about to insert. -/
structure Admitted (env : Env) (tenantId userId : Uuid) (dto : CreateBookingDto) (newId : Uuid) (slot : Slot)
    (row : Booking) : Prop where
  resource : env.resource tenantId dto.resourceId = some slot.resource
  active : slot.resource.isActive = true
  ids : slot.ids = relatedResourceIds env tenantId slot.resource
  canBook : assertCanBook env tenantId userId slot.resource = .ok ()
  id : row.id = newId
  tenantId : row.tenantId = tenantId
  userId : row.userId = userId
  resourceId : row.resourceId = slot.resource.id
  startTime : row.startTime = slot.start
  endTime : row.endTime = slot.finish
  status : row.status = if needsApproval slot.resource then .pendingApproval else .confirmed
  bookingMode : row.bookingMode = slot.resource.bookingMode
  answers : Answered slot.resource (dto.customFieldValues.getD []) row.customFieldValues

theorem createAdmit_ok {env : Env} {now : Instant} {tenantId userId : Uuid} {dto : CreateBookingDto}
    {newId : Uuid} {slot : Slot} {row : Booking}
    (h : createAdmit env now tenantId userId dto newId = .ok (slot, row)) :
    Admitted env tenantId userId dto newId slot row := by
  simp only [createAdmit, bind_eq_ok, require_eq_ok, found_eq_ok, pure_eq_ok, Prod.mk.injEq] at h
  obtain ⟨⟨⟩, -, r, hr, ⟨⟩, hact, ⟨⟩, hcan, w, -, ⟨⟩, -, ⟨⟩, -, cfv, hcfv, cc, -, rfl, rfl⟩ := h
  exact ⟨hr, hact, rfl, hcan, rfl, rfl, rfl, rfl, rfl, rfl, rfl, rfl, cfv, hcfv, rfl⟩

theorem createCommit_ok {bookings bookings' : Table Booking} {slot : Slot} {row : Booking}
    (h : createCommit bookings slot row = .ok bookings') :
    assertNoConflict bookings row.tenantId slot.ids slot.start slot.finish none slot.resource = .ok () ∧
      bookings.insert? row = some bookings' := by
  simp only [createCommit, bind_eq_ok, found_eq_ok] at h
  obtain ⟨⟨⟩, hc, hi⟩ := h
  exact ⟨hc, hi⟩

/-- An accepted `create` inserts the row, and writes its chain when the row waits for approval. -/
theorem create_ok {env : Env} {now : Instant} {fresh : Fresh} {tenantId userId : Uuid} {dto : CreateBookingDto}
    {st st' : Store} {row : Booking} (h : create env now fresh tenantId userId dto st = .ok (st', row)) :
    ∃ slot bookings, Admitted env tenantId userId dto fresh.booking slot row ∧
      st.bookings.insert? row = some bookings ∧
      (st' = { st with bookings } ∨ (row.status = .pendingApproval ∧
        ∃ n, ApprovalsService.materialize env now fresh.step row { st with bookings } = .ok (st', n))) := by
  simp only [create, bind_eq_ok, Prod.exists] at h
  obtain ⟨slot, row', hadm, bookings, hcom, h⟩ := h
  have hins := (createCommit_ok hcom).2
  split at h
  · rename_i hp
    simp only [pure_eq_ok, Prod.mk.injEq] at h
    obtain ⟨rfl, rfl⟩ := h
    refine ⟨slot, bookings, createAdmit_ok hadm, hins, ?_⟩
    cases hm : ApprovalsService.materialize env now fresh.step row' { st with bookings } with
    | error e => exact .inl rfl
    | ok r => exact .inr ⟨by simpa using hp, r.2, rfl⟩
  · simp only [pure_eq_ok, Prod.mk.injEq] at h
    obtain ⟨rfl, rfl⟩ := h
    exact ⟨slot, bookings, createAdmit_ok hadm, hins, .inl rfl⟩

/-- What every accepted occurrence keeps, a series of bookings keeps. -/
theorem createSeries_ok {P : Store → Prop} {env : Env} {now : Instant} {fresh : ℕ → Fresh} {tenantId userId : Uuid}
    {dto : CreateBookingDto} {recurrenceId : Uuid} {occurrences : List (Instant × Instant)} {st : Store}
    {r : Store × List Uuid}
    (h : createSeries env now fresh tenantId userId dto recurrenceId occurrences st = .ok r) (hst : P st)
    (hstep : ∀ st st' fresh dto' row, dto'.resourceId = dto.resourceId →
      dto'.customFieldValues = dto.customFieldValues → P st →
        create env now fresh tenantId userId dto' st = .ok (st', row) → P st') :
    P r.1 := by
  simp only [createSeries, bind_eq_ok, require_eq_ok, found_eq_ok, pure_eq_ok] at h
  obtain ⟨resource, hresource, ⟨⟩, -, ⟨⟩, -, ⟨⟩, -, rfl⟩ := h
  refine foldl_invariant (P := fun acc : Store × List Uuid => P acc.1) ?_ hst
  rintro ⟨st₁, ids⟩ occ - hP
  dsimp only
  split
  · rename_i st' b hc
    refine hstep _ _ _ _ _ ?_ ?_ hP hc
    · exact (Env.resource_eq_some.1 hresource).2.1
    · rfl
  · exact hP

/-! ### Editing -/

/-- `b'` is `b` up to the fields of the booking form. -/
def Edits (b b' : Booking) : Prop :=
  ∃ title meetingUrl services attendees customFieldValues version,
    b' = { b with
      title := title, meetingUrl := meetingUrl, services := services, attendees := attendees
      customFieldValues := customFieldValues, version := version }

section Edits

variable {b b' : Booking} (h : Edits b b')

include h

theorem Edits.id : b'.id = b.id := by obtain ⟨_, _, _, _, _, _, rfl⟩ := h; rfl
theorem Edits.tenantId : b'.tenantId = b.tenantId := by obtain ⟨_, _, _, _, _, _, rfl⟩ := h; rfl
theorem Edits.userId : b'.userId = b.userId := by obtain ⟨_, _, _, _, _, _, rfl⟩ := h; rfl
theorem Edits.resourceId : b'.resourceId = b.resourceId := by obtain ⟨_, _, _, _, _, _, rfl⟩ := h; rfl
theorem Edits.startTime : b'.startTime = b.startTime := by obtain ⟨_, _, _, _, _, _, rfl⟩ := h; rfl
theorem Edits.endTime : b'.endTime = b.endTime := by obtain ⟨_, _, _, _, _, _, rfl⟩ := h; rfl
theorem Edits.status : b'.status = b.status := by obtain ⟨_, _, _, _, _, _, rfl⟩ := h; rfl
theorem Edits.bookingMode : b'.bookingMode = b.bookingMode := by obtain ⟨_, _, _, _, _, _, rfl⟩ := h; rfl

end Edits

variable {env : Env} {now : Instant} {tenantId userId : Uuid} {role : String} {id : Uuid} {dto : UpdateBookingDto}
  {bookings : Table Booking}

theorem applyFields_ok {b b' : Booking} (h : applyFields env tenantId dto b = .ok b') : Edits b b' := by
  unfold applyFields at h
  cases hc : dto.customFieldValues with
  | none =>
    simp only [hc, pure_eq_ok] at h
    exact ⟨_, _, _, _, _, _, h.symm⟩
  | some incoming =>
    simp only [hc] at h
    split at h
    · simp only [bind_eq_ok, pure_eq_ok] at h
      obtain ⟨cleaned, -, h⟩ := h
      exact ⟨_, _, _, _, _, _, h.symm⟩
    · simp only [bind_eq_ok, pure_eq_ok] at h
      obtain ⟨cleaned, -, h⟩ := h
      exact ⟨_, _, _, _, _, _, h.symm⟩

/-- What an edit has done to the answers: nothing, or the room the booking is in now has validated them. -/
def Reanswered (env : Env) (tenantId : Uuid) (dto : UpdateBookingDto) (b saved : Booking) : Prop :=
  (dto.customFieldValues = none ∧ saved.customFieldValues = b.customFieldValues) ∨
    ∃ incoming, dto.customFieldValues = some incoming ∧ ∀ r, env.resource tenantId saved.resourceId = some r →
      Answered r (mergeKeys (b.customFieldValues.getD []) incoming) saved.customFieldValues

theorem applyFields_answers {b b' : Booking} (h : applyFields env tenantId dto b = .ok b') :
    Reanswered env tenantId dto b b' := by
  unfold applyFields at h
  cases hc : dto.customFieldValues with
  | none =>
    simp only [hc, pure_eq_ok] at h
    subst h
    exact .inl ⟨hc, rfl⟩
  | some incoming =>
    simp only [hc] at h
    refine .inr ⟨incoming, hc, fun r hr => ?_⟩
    split at h
    · rename_i r' hr'
      simp only [bind_eq_ok, pure_eq_ok] at h
      obtain ⟨cleaned, hcleaned, rfl⟩ := h
      obtain rfl := Option.some.inj (hr'.symm.trans hr)
      exact ⟨cleaned, hcleaned, rfl⟩
    · rename_i hnone
      simp only [bind_eq_ok, pure_eq_ok] at h
      obtain ⟨cleaned, -, rfl⟩ := h
      rw [hnone] at hr
      cases hr

/-- What `applyUpdate` has checked of the slot an edit claims for the booking `b`. -/
structure Claimed (env : Env) (tenantId : Uuid) (dto : UpdateBookingDto) (b : Booking) (slot : Slot) : Prop where
  resource : env.resource tenantId (dto.resourceId.getD b.resourceId) = some slot.resource
  active : slot.resource.isActive = true
  ids : slot.ids = relatedResourceIds env tenantId slot.resource
  changed : timeChanged dto = true ∨ dto.resourceId.getD b.resourceId ≠ b.resourceId

theorem updateAdmit_ok {b : Booking} {slot : Option Slot}
    (h : updateAdmit env now tenantId userId role id dto bookings = .ok (b, slot)) :
    findBooking bookings tenantId id = some b ∧ (b.userId = userId ∨ isAdmin role = true) ∧
      b.status ∉ terminalStatuses ∧
      (slot = none ∧ (timeChanged dto = false ∧ dto.resourceId.getD b.resourceId = b.resourceId) ∨
        ∃ sl, slot = some sl ∧ Claimed env tenantId dto b sl) := by
  simp only [updateAdmit, bind_eq_ok, require_eq_ok, found_eq_ok] at h
  obtain ⟨b₀, hb, ⟨⟩, hown, ⟨⟩, hst, h⟩ := h
  split at h
  · rename_i hch
    simp only [bind_eq_ok, require_eq_ok, found_eq_ok, pure_eq_ok, Prod.mk.injEq] at h
    obtain ⟨⟨⟩, -, r, hr, ⟨⟩, hact, w, -, ⟨⟩, -, ⟨⟩, -, rfl, rfl⟩ := h
    refine ⟨hb, by simpa using hown, by simpa using hst, .inr ⟨_, rfl, hr, hact, rfl, by simpa using hch⟩⟩
  · rename_i hch
    simp only [pure_eq_ok, Prod.mk.injEq] at h
    obtain ⟨rfl, rfl⟩ := h
    simp only [Bool.or_eq_true, bne_iff_ne, ne_eq, not_or, not_not] at hch
    exact ⟨hb, by simpa using hown, by simpa using hst, .inl ⟨rfl, by simpa using hch.1, hch.2⟩⟩

/-- What an accepted edit has checked, and the row it saves: the booking up to its form fields, on the slot the
edit claims if it claims one. -/
structure Edited (env : Env) (tenantId userId : Uuid) (role : String) (id : Uuid) (dto : UpdateBookingDto)
    (bookings : Table Booking) (b saved : Booking) : Prop where
  found : findBooking bookings tenantId id = some b
  owner : b.userId = userId ∨ isAdmin role = true
  open_ : b.status ∉ terminalStatuses
  row : ((timeChanged dto = false ∧ dto.resourceId.getD b.resourceId = b.resourceId) ∧ Edits b saved) ∨
    ∃ slot, Claimed env tenantId dto b slot ∧
      assertNoConflict bookings tenantId slot.ids slot.start slot.finish (some b.id) slot.resource = .ok () ∧
      Edits (reschedule b slot) saved
  answers : Reanswered env tenantId dto b saved

theorem updateCommit_ok {b saved : Booking} {slot : Option Slot}
    (h : updateCommit env tenantId dto b slot bookings = .ok saved) :
    (slot = none ∧ Edits b saved) ∨ ∃ sl, slot = some sl ∧
      assertNoConflict bookings tenantId sl.ids sl.start sl.finish (some b.id) sl.resource = .ok () ∧
      Edits (reschedule b sl) saved := by
  cases slot with
  | none => exact .inl ⟨rfl, applyFields_ok h⟩
  | some sl =>
    simp only [updateCommit, bind_eq_ok] at h
    obtain ⟨⟨⟩, hc, hf⟩ := h
    exact .inr ⟨sl, rfl, hc, applyFields_ok hf⟩

theorem updateCommit_answers {b saved : Booking} {slot : Option Slot}
    (h : updateCommit env tenantId dto b slot bookings = .ok saved) : Reanswered env tenantId dto b saved := by
  cases slot with
  | none => exact applyFields_answers h
  | some sl =>
    simp only [updateCommit, bind_eq_ok] at h
    obtain ⟨⟨⟩, -, hf⟩ := h
    have hans : Reanswered env tenantId dto (reschedule b sl) saved := applyFields_answers hf
    exact hans

theorem applyUpdate_ok {saved : Booking} (h : applyUpdate env now tenantId userId role id dto bookings = .ok saved) :
    ∃ b, Edited env tenantId userId role id dto bookings b saved := by
  simp only [applyUpdate, bind_eq_ok, Prod.exists] at h
  obtain ⟨b, slot, hadm, hcom⟩ := h
  obtain ⟨hb, hown, hst, hslot⟩ := updateAdmit_ok hadm
  refine ⟨b, hb, hown, hst, ?_, updateCommit_answers hcom⟩
  rcases hslot with ⟨rfl, hsame⟩ | ⟨sl, rfl, hcl⟩
  · rcases updateCommit_ok hcom with ⟨-, he⟩ | ⟨_, hn, -⟩
    · exact .inl ⟨hsame, he⟩
    · cases hn
  · rcases updateCommit_ok hcom with ⟨hn, -⟩ | ⟨_, hs, hc, he⟩
    · cases hn
    · cases hs
      exact .inr ⟨sl, hcl, hc, he⟩

theorem update_ok {st st' : Store} {saved : Booking}
    (h : update env now tenantId userId role id dto st = .ok (st', saved)) :
    ∃ b, Edited env tenantId userId role id dto st.bookings b saved ∧
      st' = { st with bookings := st.bookings.save saved } := by
  simp only [update, bind_eq_ok, pure_eq_ok, Prod.mk.injEq] at h
  obtain ⟨saved', happ, rfl, rfl⟩ := h
  obtain ⟨b, hb⟩ := applyUpdate_ok happ
  exact ⟨b, hb, rfl⟩

/-- The bookings an edit of the series of `id` goes over: the booking itself, or its whole series. -/
def InSeries (bookings : Table Booking) (tenantId id : Uuid) (s : Booking) : Prop :=
  s ∈ bookings.rows ∧ s.tenantId = tenantId ∧ (s.id = id ∨
    ∃ anchor rid, findBooking bookings tenantId id = some anchor ∧ anchor.recurrenceId = some rid ∧
      s.recurrenceId = some rid)

/-- What every accepted edit of an occurrence keeps, an edit of the series keeps. -/
theorem updateSeries_ok {P : Table Booking → Prop} {st : Store} {r : Store × SeriesResult}
    (h : updateSeries env now tenantId userId role id dto st = .ok r) (hst : P st.bookings)
    (hstep : ∀ bookings s dto' b saved, P bookings → InSeries st.bookings tenantId id s → dto'.resourceId = dto.resourceId ∧ dto'.customFieldValues = dto.customFieldValues → Edited env tenantId userId role s.id dto' bookings b saved → P (bookings.save saved)) :
    P r.1.bookings ∧ r.1.steps = st.steps ∧ r.1.approvals = st.approvals := by
  simp only [updateSeries, bind_eq_ok, require_eq_ok, found_eq_ok] at h
  obtain ⟨anchor, hanchor, ⟨⟩, -, h⟩ := h
  split at h
  · simp only [bind_eq_ok, pure_eq_ok, Prod.exists] at h
    obtain ⟨st', saved, hupd, rfl⟩ := h
    obtain ⟨b, hb, rfl⟩ := update_ok hupd
    obtain ⟨hfind, hten⟩ := findBooking_eq_some.1 hanchor
    have hid : anchor.id = id := Table.key_of_find? hfind
    refine ⟨hstep st.bookings anchor dto b saved hst ⟨Table.mem_of_find? hfind, hten, .inl hid⟩ ⟨rfl, rfl⟩ ?_, rfl,
      rfl⟩
    rw [hid]
    exact hb
  · rename_i rid hrid
    simp only [pure_eq_ok] at h
    subst h
    refine ⟨?_, rfl, rfl⟩
    refine foldl_invariant (P := fun acc : SeriesState => P acc.bookings) ?_ hst
    intro acc s hs hP
    rw [(List.perm_insertionSort _ _).mem_iff, List.mem_filter] at hs
    simp only [Bool.and_eq_true, beq_iff_eq] at hs
    unfold seriesTurn
    split
    · exact hP
    · split
      · rename_i saved happ
        obtain ⟨b, hb⟩ := applyUpdate_ok happ
        refine hstep acc.bookings s _ b saved hP ⟨hs.1, hs.2.1, .inr ⟨anchor, rid, hanchor, hrid, hs.2.2⟩⟩ ?_ hb
        exact ⟨rfl, rfl⟩
      · exact hP

/-! ### Room moves -/

section Edited

variable {b saved : Booking} (h : Edited env tenantId userId role id dto bookings b saved)

include h

theorem Edited.kept : saved.id = b.id ∧ saved.bookingMode = b.bookingMode ∧ saved.tenantId = b.tenantId ∧
    saved.userId = b.userId := by
  rcases h.row with ⟨-, he⟩ | ⟨slot, -, -, he⟩
  · exact ⟨he.id, he.bookingMode, he.tenantId, he.userId⟩
  · exact ⟨he.id, he.bookingMode, he.tenantId, he.userId⟩

theorem Edited.id_eq : saved.id = b.id := h.kept.1

theorem Edited.bookingMode_eq : saved.bookingMode = b.bookingMode := h.kept.2.1

theorem Edited.tenantId_eq : saved.tenantId = b.tenantId := h.kept.2.2.1

theorem Edited.userId_eq : saved.userId = b.userId := h.kept.2.2.2

theorem Edited.target : saved.resourceId = dto.resourceId.getD b.resourceId := by
  rcases h.row with ⟨⟨-, hsame⟩, he⟩ | ⟨slot, hcl, -, he⟩
  · rw [hsame, he.resourceId]
  · exact he.resourceId.trans (Env.resource_eq_some.1 hcl.resource).2.1

/-- The room of the saved row: the one it was in, or the one the edit names. -/
theorem Edited.room : saved.resourceId = b.resourceId ∨
    ∃ r, dto.resourceId = some r.id ∧ env.resource tenantId r.id = some r ∧ saved.resourceId = r.id := by
  rcases h.row with ⟨-, he⟩ | ⟨slot, hcl, -, he⟩
  · exact .inl he.resourceId
  · have hr := hcl.resource
    have hrid := (Env.resource_eq_some.1 hr).2.1
    cases hd : dto.resourceId with
    | none =>
      rw [hd, Option.getD_none] at hrid
      exact .inl (he.resourceId.trans hrid)
    | some rid =>
      rw [hd, Option.getD_some] at hrid hr
      exact .inr ⟨slot.resource, by rw [hrid], by rw [hrid]; exact hr, he.resourceId⟩

end Edited

/-- The booking is in the room it was in or, when the edit covers it and its caller may edit it, in the room the edit
names. -/
def MovedBy (env : Env) (tenantId userId : Uuid) (role : String) (dto : UpdateBookingDto) (covers : Booking → Prop)
    (b b' : Booking) : Prop :=
  b'.tenantId = b.tenantId ∧ b'.userId = b.userId ∧
    (b'.resourceId = b.resourceId ∨ covers b ∧ b.tenantId = tenantId ∧ (b.userId = userId ∨ isAdmin role = true) ∧
      ∃ r, dto.resourceId = some r.id ∧ env.resource tenantId r.id = some r ∧ b'.resourceId = r.id)

/-- The bookings of `t'` are those of `t`, moved as the edit allows. -/
structure Moves (env : Env) (tenantId userId : Uuid) (role : String) (dto : UpdateBookingDto)
    (covers : Booking → Prop) (t t' : Table Booking) : Prop where
  evolves : Table.Evolves (MovedBy env tenantId userId role dto covers) t t'
  closed : ∀ k, t.find? k = none → t'.find? k = none

section Moves

variable {covers : Booking → Prop} {t t' : Table Booking} {st st' : Store}

theorem MovedBy.refl (b : Booking) : MovedBy env tenantId userId role dto covers b b := ⟨rfl, rfl, .inl rfl⟩

theorem Moves.back (h : Moves env tenantId userId role dto covers t t') {k : Uuid} {b' : Booking}
    (hb' : t'.find? k = some b') :
    ∃ b, t.find? k = some b ∧ MovedBy env tenantId userId role dto covers b b' :=
  Table.Rewrites.back ⟨h.evolves, h.closed⟩ hb'

/-- **Edits of a booking.** What the saved row of an accepted edit may be, the rows after the edit are. -/
theorem update_rewrites {R : Booking → Booking → Prop} {saved : Booking} (hrefl : ∀ b, R b b)
    (h : update env now tenantId userId role id dto st = .ok (st', saved))
    (hedit : ∀ b, findBooking st.bookings tenantId id = some b →
      Edited env tenantId userId role id dto st.bookings b saved → R b saved) :
    Table.Rewrites R st.bookings st'.bookings ∧ st'.steps = st.steps := by
  obtain ⟨b, hb, rfl⟩ := update_ok h
  have hfind := (findBooking_eq_some.1 hb.found).1
  have hid : saved.id = id := hb.id_eq.trans (Table.key_of_find? hfind)
  exact ⟨(Table.Rewrites.refl hrefl _).save hfind hfind hid fun _ => hedit b hb.found hb, rfl⟩

/-- **Edits of a series.** What the saved row of every accepted edit of an occurrence may be, the rows after the edit of
the series are. -/
theorem updateSeries_rewrites {R : Booking → Booking → Prop} {r : SeriesResult} (hrefl : ∀ b, R b b)
    (h : updateSeries env now tenantId userId role id dto st = .ok (st', r))
    (hedit : ∀ s dto' bookings b saved, InSeries st.bookings tenantId id s →
      dto'.resourceId = dto.resourceId ∧ dto'.customFieldValues = dto.customFieldValues →
      Edited env tenantId userId role s.id dto' bookings b saved → R s b → R s saved) :
    Table.Rewrites R st.bookings st'.bookings ∧ st'.steps = st.steps := by
  obtain ⟨hrew, hsteps, -⟩ := updateSeries_ok (P := Table.Rewrites R st.bookings) h (Table.Rewrites.refl hrefl _)
    fun bookings s dto' b saved hP hs hdto he => by
      have hfind := (findBooking_eq_some.1 he.found).1
      have hid : saved.id = s.id := he.id_eq.trans (Table.key_of_find? hfind)
      exact hP.save (Table.find?_of_mem hs.1) hfind hid (hedit s dto' bookings b saved hs hdto he)
  exact ⟨hrew, hsteps⟩

theorem MovedBy.edit {s b saved : Booking} {dto' : UpdateBookingDto}
    (h : MovedBy env tenantId userId role dto covers s b) (hcov : covers s) (hdto : dto'.resourceId = dto.resourceId)
    (he : Edited env tenantId userId role id dto' bookings b saved) :
    MovedBy env tenantId userId role dto covers s saved := by
  obtain ⟨hten, huser, hroom⟩ := h
  refine ⟨he.tenantId_eq.trans hten, he.userId_eq.trans huser, ?_⟩
  rcases he.room with hsame | ⟨r, hname, hr, hrid⟩
  · rw [hsame]
    exact hroom
  · rw [hdto] at hname
    rw [huser.symm, hten.symm]
    exact .inr ⟨hcov, (findBooking_eq_some.1 he.found).2, he.owner, r, hname, hr, hrid⟩

theorem update_moves {saved : Booking} (h : update env now tenantId userId role id dto st = .ok (st', saved)) :
    Moves env tenantId userId role dto (fun b => findBooking st.bookings tenantId id = some b) st.bookings
        st'.bookings ∧ st'.steps = st.steps := by
  obtain ⟨hrew, hsteps⟩ := update_rewrites
    (R := MovedBy env tenantId userId role dto fun b => findBooking st.bookings tenantId id = some b)
    MovedBy.refl h fun b hb he => (MovedBy.refl b).edit hb rfl he
  exact ⟨⟨hrew.evolves, hrew.closed⟩, hsteps⟩

theorem updateSeries_moves {r : SeriesResult}
    (h : updateSeries env now tenantId userId role id dto st = .ok (st', r)) :
    Moves env tenantId userId role dto (InSeries st.bookings tenantId id) st.bookings st'.bookings ∧
      st'.steps = st.steps := by
  obtain ⟨hrew, hsteps⟩ := updateSeries_rewrites
    (R := MovedBy env tenantId userId role dto (InSeries st.bookings tenantId id)) MovedBy.refl h
    fun _ _ _ _ _ hs hdto he hR => hR.edit hs hdto.1 he
  exact ⟨⟨hrew.evolves, hrew.closed⟩, hsteps⟩

end Moves

/-! ### Cancelling -/

theorem cancel_ok {reason : String} {st st' : Store} {saved : Booking}
    (h : cancel tenantId userId role id reason st = .ok (st', saved)) :
    ∃ b, findBooking st.bookings tenantId id = some b ∧ (b.userId = userId ∨ isAdmin role = true) ∧
      ((b.status = .cancelled ∧ st' = st) ∨ (b.status ∉ terminalStatuses ∧ ∃ notes,
        st' = { st with
          bookings := st.bookings.save { b with status := .cancelled, exceptionNotes := notes } })) := by
  simp only [cancel, bind_eq_ok, require_eq_ok, found_eq_ok] at h
  obtain ⟨b, hb, ⟨⟩, hown, h⟩ := h
  refine ⟨b, hb, by simpa using hown, ?_⟩
  split at h
  · rename_i hc
    simp only [pure_eq_ok, Prod.mk.injEq] at h
    exact .inl ⟨by simpa using hc, h.1.symm⟩
  · rename_i hc
    simp only [bind_eq_ok, require_eq_ok, pure_eq_ok, Prod.mk.injEq] at h
    obtain ⟨⟨⟩, hst, rfl, -⟩ := h
    refine .inr ⟨?_, _, rfl⟩
    simp only [beq_iff_eq] at hc
    simpa [terminalStatuses, hc, and_assoc] using hst

theorem cancel_of_open {reason : String} {st : Store} {b : Booking}
    (hb : findBooking st.bookings tenantId id = some b) (hown : b.userId = userId ∨ isAdmin role = true)
    (hst : b.status ∉ terminalStatuses) :
    ∃ v, cancel tenantId userId role id reason st = .ok ({ st with bookings := st.bookings.save v }, v) ∧
      v.id = b.id ∧ v.tenantId = b.tenantId ∧ v.status = .cancelled := by
  simp only [terminalStatuses, List.mem_cons, List.not_mem_nil, or_false, not_or] at hst
  refine ⟨{ b with status := .cancelled, exceptionNotes := if reason = "" then "cancelled" else reason }, ?_, rfl, rfl,
    rfl⟩
  refine bind_eq_ok.2 ⟨b, found_eq_ok.2 hb, bind_eq_ok.2 ⟨(), require_of (by simpa using hown), ?_⟩⟩
  rw [if_neg (by simpa using hst.1)]
  exact bind_eq_ok.2 ⟨(), require_of (by simpa [and_assoc] using hst.2), rfl⟩

end BookingSystem.Effects
