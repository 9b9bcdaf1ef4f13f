import BookingSystem.Contracts.Search
import BookingSystem.Model.Kiosk

/-!
# Walk-ups and ordinary bookings

The kiosk books a room by a path of its own, which looks at the bookings of the room itself and at nothing else. Here
its result is held against the checks that `create` makes for the same user, room and window, and against the status
and the mode that `create` would store. The checks of `create` are read as conditions on the settings first (`InRules`,
`OpenDuring`); `walk_in_obeys_iff` says which of them a walk-up has to meet by itself.
-/

namespace BookingSystem.Contracts.Kiosk

open Base Model Model.BookingsService Model.KioskService
open Concurrency

/-! ### The rules of a booking -/

section Rules

variable (env : Env) (r : Resource)

def minMinutes : ℤ :=
  BookingValidator.num ((r.ruleOverrides.bind (·.minDurationMinutes)).or
    (env.customization r.tenantId).minDurationMinutes) 15

def maxMinutes : ℤ :=
  BookingValidator.num ((r.ruleOverrides.bind (·.maxDurationMinutes)).or
    (env.customization r.tenantId).maxDurationMinutes) 480

def horizonDays : ℤ :=
  BookingValidator.num ((r.ruleOverrides.bind (·.bookingHorizonDays)).or
    (env.customization r.tenantId).bookingHorizonDays) 180

/-- The room is closed on the day: it is blacked out, or a holiday of the tenant and the region. -/
def ClosedOn (d : Day) : Prop :=
  d ∈ (env.customization r.tenantId).blackoutDates ∨
    ∃ h ∈ env.holidays, h.tenantId = r.tenantId ∧ h.holidayDate = d ∧ h.isBlocker = true ∧
      (h.region = "" ∨ h.region = r.region.getD "")

/-- The window is one that the rules of the tenant and the room allow. -/
structure InRules (now : Instant) (allDay : Bool) (start finish : Instant) : Prop where
  order : start < finish
  past : now - BookingValidator.pastGraceMs ≤ start
  horizon : start ≤ now + horizonDays env r * msPerDay
  length : allDay = true ∨
    (minMinutes env r * msPerMinute ≤ finish - start ∧ finish - start ≤ maxMinutes env r * msPerMinute)
  days : ∀ d ∈ BookingValidator.localDatesSpanned start finish (env.timezone r.tenantId), ¬ ClosedOn env r d

/-- The window lies in the opening hours of the room, if it has any. -/
def OpenDuring (start finish : Instant) : Prop :=
  ∀ oh, r.operatingHours = some oh →
    let s := utcToZonedWallClock (env.timezone r.tenantId) start
    let e := utcToZonedWallClock (env.timezone r.tenantId) finish
    ∃ win, windowForWeekday oh s.weekday = some win ∧
      ∀ openMin closeMin, hhmmToMinutes win.openAt = some openMin → hhmmToMinutes win.closeAt = some closeMin →
        openMin < closeMin → e.dateStr = s.dateStr ∧ openMin ≤ s.minutes ∧ e.minutes ≤ closeMin

variable {env r}

theorem not_closedOn_iff {days : List Day} :
    (∀ d ∈ days, ¬ ClosedOn env r d) ↔ days.find? (env.customization r.tenantId).blackoutDates.contains = none ∧
      (env.holidays.find? fun h => h.tenantId == r.tenantId && days.contains h.holidayDate && h.isBlocker &&
        ["", r.region.getD ""].contains h.region) = none := by
  simp only [ClosedOn, List.find?_eq_none, not_or, not_exists, not_and, Bool.and_eq_true, beq_iff_eq,
    List.contains_iff_mem, List.mem_cons, List.not_mem_nil, or_false, and_imp]
  constructor
  · intro h
    exact ⟨fun d hd => (h d hd).1, fun hol hhol hten hdate => (h hol.holidayDate hdate).2 hol hhol hten rfl⟩
  · rintro ⟨hblack, hholiday⟩ d hd
    refine ⟨hblack d hd, fun hol hhol hten hdate => ?_⟩
    subst hdate
    exact hholiday hol hhol hten hd

theorem closedDay_iff {days : List Day} {black : Day → HttpError} {holiday : Holiday → HttpError} :
    (match days.find? (env.customization r.tenantId).blackoutDates.contains with
      | some d => throw (black d)
      | none =>
        match env.holidays.find? fun h => h.tenantId == r.tenantId && days.contains h.holidayDate && h.isBlocker &&
          ["", r.region.getD ""].contains h.region with
        | some h => throw (holiday h)
        | none => pure () : Except HttpError Unit) = .ok () ↔ ∀ d ∈ days, ¬ ClosedOn env r d := by
  rw [not_closedOn_iff]
  cases hblack : days.find? (env.customization r.tenantId).blackoutDates.contains with
  | some d => exact iff_of_false nofun fun h => nomatch h.1
  | none =>
    cases hholiday : env.holidays.find? fun h => h.tenantId == r.tenantId && days.contains h.holidayDate &&
        h.isBlocker && ["", r.region.getD ""].contains h.region with
    | some h => exact iff_of_false nofun fun h => nomatch h.2
    | none => exact iff_of_true rfl ⟨rfl, rfl⟩

theorem validate_iff {now start finish : Instant} {allDay : Bool} :
    BookingValidator.validate env r.tenantId start finish now r.ruleOverrides r.region allDay = .ok () ↔
      InRules env r now allDay start finish := by
  unfold BookingValidator.validate
  simp only [bind_eq_ok, require_eq_ok, exists_const, decide_eq_true_eq, Bool.or_eq_true]
  constructor
  · rintro ⟨horder, hpast, hhorizon, hmin, hmax, hdays⟩
    refine ⟨horder, hpast, hhorizon, ?_, closedDay_iff.1 hdays⟩
    rcases hmin with hall | hmin
    · exact .inl hall
    · exact hmax.imp id fun hmax => ⟨hmin, hmax⟩
  · rintro ⟨horder, hpast, hhorizon, hlength, hdays⟩
    exact ⟨horder, hpast, hhorizon, hlength.imp id And.left, hlength.imp id And.right, closedDay_iff.2 hdays⟩

theorem assertWithinOperatingHours_iff {start finish : Instant} :
    assertWithinOperatingHours env r.tenantId r start finish = .ok () ↔ OpenDuring env r start finish := by
  unfold assertWithinOperatingHours OpenDuring
  cases hoh : r.operatingHours with
  | none => simp
  | some oh =>
    simp only [Option.some.injEq, forall_eq']
    cases hwin : windowForWeekday oh (utcToZonedWallClock (env.timezone r.tenantId) start).weekday with
    | none => simp
    | some win =>
      simp only [Option.some.injEq, exists_eq_left']
      cases hopen : hhmmToMinutes win.openAt with
      | none => simp
      | some openMin =>
        cases hclose : hhmmToMinutes win.closeAt with
        | none => simp
        | some closeMin =>
          simp only [Option.some.injEq, Bool.or_eq_true, decide_eq_true_eq]
          split_ifs with hempty hday hhours
          · refine iff_of_true rfl ?_
            rintro _ _ rfl rfl hlt
            exact absurd hempty (Nat.not_le.2 hlt)
          · exact iff_of_false nofun fun h => hday (h openMin closeMin rfl rfl (Nat.not_le.1 hempty)).1
          · refine iff_of_false nofun fun h => ?_
            have hin := (h openMin closeMin rfl rfl (Nat.not_le.1 hempty)).2
            omega
          · refine iff_of_true rfl ?_
            rintro _ _ rfl rfl -
            exact ⟨not_not.1 hday, by omega⟩

end Rules

/-! ### What a walk-up leaves out -/

/-- The standing bookings of a split room and of its parts lie apart. -/
def SplitApart (resources : Table Resource) (bookings : Table Booking) : Prop :=
  ∀ b ∈ bookings.rows, ∀ b' ∈ bookings.rows, b.id ≠ b'.id → b.status.released = false →
    b'.status.released = false → ∀ r ∈ resources.rows, ∀ p ∈ resources.rows, Books b r → Books b' p → ChildOf r p →
    Disjoint (window b) (window b')

section WalkUp

variable (env : Env) (now finish : Instant) (userId : Uuid) (r : Resource) (bookings : Table Booking)

/-- The window that `create` would book when the window from now on is asked for. -/
def mapped : MappedWindow := mapAllDayToOperatingHours env r.tenantId r now finish

/-- The checks of `create` accept the room and the window for the user. -/
structure Checks : Prop where
  active : r.isActive = true
  canBook : assertCanBook env r.tenantId userId r = .ok ()
  window : ∃ w, BookingValidator.validDates (mapped env now finish r).start (mapped env now finish r).finish = .ok w ∧
    BookingValidator.validate env r.tenantId w.1 w.2 now r.ruleOverrides r.region (mapped env now finish r).wasAllDay
      = .ok () ∧
    assertWithinOperatingHours env r.tenantId r w.1 w.2 = .ok () ∧
    assertNoConflict bookings r.tenantId (relatedResourceIds env r.tenantId r) w.1 w.2 none r = .ok ()

/-- The walk-up obeys the rules of an ordinary booking: the checks of `create` accept it, its status and its mode are
the ones `create` would store, and split rooms stay apart. -/
structure Obeys (bookings' : Table Booking) (saved : Booking) : Prop where
  checks : Checks env now finish userId r bookings
  status : saved.status = if needsApproval r then .pendingApproval else .confirmed
  mode : saved.bookingMode = r.bookingMode
  apart : SplitApart env.resources bookings → SplitApart env.resources bookings'

/-- No standing booking of the room or of a relative of it meets the window. -/
def Free (start finish : Instant) : Prop :=
  ∀ b ∈ bookings.rows, b.tenantId = r.tenantId → b.status.released = false → Counted env.resources b r →
    Disjoint (window b) (Set.Ico start finish)

/-- What a room and the bookings have to be like for a walk-up until `finish`. -/
structure Acceptable : Prop where
  active : r.isActive = true
  exclusive : r.bookingMode = .exclusive
  noApproval : needsApproval r = false
  mayBook : MayBook env r.tenantId userId r
  window : ∃ s e, (mapped env now finish r).start = some s ∧ (mapped env now finish r).finish = some e ∧
    InRules env r now (mapped env now finish r).wasAllDay s e ∧ OpenDuring env r s e ∧ Free env r bookings s e
  relatives : SplitApart env.resources bookings → ∀ b ∈ bookings.rows, b.status.released = false →
    ∀ r' ∈ env.resources.rows, Books b r' → ChildOf r r' ∨ ChildOf r' r →
      Disjoint (Concurrency.window b) (Set.Ico now finish)

end WalkUp

section Agreement

variable {env : Env} {now finish : Instant} {userId : Uuid} {r : Resource} {bookings bookings' : Table Booking}

theorem noConflict_iff_free {s e : Instant} (hex : r.bookingMode = .exclusive) :
    assertNoConflict bookings r.tenantId (relatedResourceIds env r.tenantId r) s e none r = .ok () ↔
      Free env r bookings s e := by
  have hpod : isPod r = false := by simp [isPod, hex]
  rw [@assertNoConflict_iff env bookings { tenantId := r.tenantId, start := s, finish := e } r rfl]
  simp only [Full, hpod, Bool.false_eq_true, if_false, not_exists, not_and, Free]
  refine forall₂_congr fun b _ => ?_
  have hin : ResourcesService.inWindow { tenantId := r.tenantId, start := s, finish := e } b = true ↔
      b.tenantId = r.tenantId ∧ b.status.released = false ∧ ¬ Disjoint (Concurrency.window b) (Set.Ico s e) := by
    simp only [ResourcesService.inWindow, Bool.and_eq_true, beq_iff_eq, Bool.not_eq_true', rangesOverlap_iff,
      Concurrency.window]
    tauto
  rw [hin]
  tauto

theorem create_accepts_iff {fresh : Fresh} {dto : CreateBookingDto} {st : Store}
    (hr : env.resource r.tenantId dto.resourceId = some r) :
    (∃ out, create env now fresh r.tenantId userId { dto with startTime := now, endTime := finish } st = .ok out) ↔
      now < finish ∧ Checks env now finish userId r st.bookings ∧
        (∃ values, validateCustomFields r (dto.customFieldValues.getD []) = .ok values) ∧
        (∃ code, resolveCostCenter env r.tenantId dto.costCenterCode r = .ok code) ∧
        st.bookings.find? fresh.booking = none := by
  constructor
  · rintro ⟨out, h⟩
    simp only [create, bind_eq_ok, Prod.exists] at h
    obtain ⟨slot, row, hadm, t, hcom, -⟩ := h
    obtain ⟨hfree, hins⟩ := Effects.createCommit_ok hcom
    simp only [createAdmit, bind_eq_ok, require_eq_ok, found_eq_ok, pure_eq_ok, Prod.mk.injEq, hr,
      Option.some.injEq] at hadm
    obtain ⟨⟨⟩, horder, _, rfl, ⟨⟩, hactive, ⟨⟩, hcan, w, hw, ⟨⟩, hrules, ⟨⟩, hopen, values, hvalues, code, hcode,
      rfl, rfl⟩ := hadm
    exact ⟨of_decide_eq_true horder, ⟨hactive, hcan, w, hw, hrules, hopen, hfree⟩, ⟨values, hvalues⟩, ⟨code, hcode⟩,
      (Table.insert?_eq_some_iff.1 hins).1⟩
  · rintro ⟨horder, ⟨hactive, hcan, w, hw, hrules, hopen, hfree⟩, ⟨values, hvalues⟩, ⟨code, hcode⟩, hnew⟩
    obtain ⟨row, hid, hten, hadm⟩ : ∃ row : Booking, row.id = fresh.booking ∧ row.tenantId = r.tenantId ∧
        createAdmit env now r.tenantId userId { dto with startTime := now, endTime := finish } fresh.booking
          = .ok (⟨r, relatedResourceIds env r.tenantId r, w.1, w.2⟩, row) := by
      refine ⟨_, ?_, ?_, bind_eq_ok.2 ⟨(), require_of (decide_eq_true horder), bind_eq_ok.2 ⟨r, found_eq_ok.2 hr,
        bind_eq_ok.2 ⟨(), require_of hactive, bind_eq_ok.2 ⟨(), hcan, bind_eq_ok.2 ⟨w, hw, bind_eq_ok.2 ⟨(), hrules,
        bind_eq_ok.2 ⟨(), hopen, bind_eq_ok.2 ⟨values, hvalues, bind_eq_ok.2 ⟨code, hcode, rfl⟩⟩⟩⟩⟩⟩⟩⟩⟩⟩
      · rfl
      · rfl
    obtain ⟨t, ht⟩ := Table.insert?_of_find? (t := st.bookings) (a := row) (by rw [key_booking, hid, hnew])
    have hcom : createCommit st.bookings ⟨r, relatedResourceIds env r.tenantId r, w.1, w.2⟩ row = .ok t :=
      bind_eq_ok.2 ⟨(), by rw [hten]; exact hfree, found_eq_ok.2 ht⟩
    refine exists_bind_ok hadm (exists_bind_ok hcom ?_)
    split
    · exact ⟨_, rfl⟩
    · exact ⟨_, rfl⟩

theorem checks_iff (hex : r.bookingMode = .exclusive) :
    Checks env now finish userId r bookings ↔ r.isActive = true ∧ MayBook env r.tenantId userId r ∧
      ∃ s e, (mapped env now finish r).start = some s ∧ (mapped env now finish r).finish = some e ∧
        InRules env r now (mapped env now finish r).wasAllDay s e ∧ OpenDuring env r s e ∧
        Free env r bookings s e := by
  constructor
  · rintro ⟨hactive, hcan, w, hw, hrules, hopen, hfree⟩
    obtain ⟨hs, he⟩ := BookingValidator.validDates_eq_ok.1 hw
    exact ⟨hactive, assertCanBook_iff.1 hcan, w.1, w.2, hs, he, validate_iff.1 hrules,
      assertWithinOperatingHours_iff.1 hopen, (noConflict_iff_free hex).1 hfree⟩
  · rintro ⟨hactive, hmay, s, e, hs, he, hrules, hopen, hfree⟩
    exact ⟨hactive, assertCanBook_iff.2 hmay, (s, e), BookingValidator.validDates_eq_ok.2 ⟨hs, he⟩,
      validate_iff.2 hrules, assertWithinOperatingHours_iff.2 hopen, (noConflict_iff_free hex).2 hfree⟩

theorem splitApart_insert {resources : Table Resource} {v : Booking} (hr : r ∈ resources.rows) (hv : Books v r)
    (hst : v.status.released = false) (hins : bookings.insert? v = some bookings') :
    SplitApart resources bookings' ↔ SplitApart resources bookings ∧ ∀ b ∈ bookings.rows,
      b.status.released = false → ∀ r' ∈ resources.rows, Books b r' → ChildOf r r' ∨ ChildOf r' r →
        Disjoint (window b) (window v) := by
  obtain ⟨hnew, hrows⟩ := Table.insert?_eq_some_iff.1 hins
  have hne : ∀ b ∈ bookings.rows, b.id ≠ v.id := Table.find?_eq_none_iff.1 hnew
  have hold : ∀ b ∈ bookings.rows, b ∈ bookings'.rows := fun b hb => hrows ▸ List.mem_append_left _ hb
  have hmem : v ∈ bookings'.rows := hrows ▸ List.mem_append_right _ (List.mem_singleton_self v)
  constructor
  · intro h
    refine ⟨fun b hb b' hb' => h b (hold b hb) b' (hold b' hb'), fun b hb hstb r' hr' hbr' hrel => ?_⟩
    rcases hrel with hrel | hrel
    · exact (h v hmem b (hold b hb) (hne b hb).symm hst hstb r hr r' hr' hv hbr' hrel).symm
    · exact h b (hold b hb) v hmem (hne b hb) hstb hst r' hr' r hr hbr' hv hrel
  · rintro ⟨h, hrel⟩ b hb b' hb' hid hstb hstb' c hc p hp hbc hbp hchild
    rw [hrows, List.mem_append, List.mem_singleton] at hb hb'
    rcases hb with hb | rfl <;> rcases hb' with hb' | rfl
    · exact h b hb b' hb' hid hstb hstb' c hc p hp hbc hbp hchild
    · obtain rfl : p = r := Table.eq_of_key hp hr (hbp.1.symm.trans hv.1)
      exact hrel b hb hstb c hc hbc (.inr hchild)
    · obtain rfl : c = r := Table.eq_of_key hc hr (hbc.1.symm.trans hv.1)
      exact (hrel b' hb' hstb' p hp hbp (.inl hchild)).symm
    · exact absurd rfl hid

theorem quickBook_ok {cfg : Config} {newId resourceId : Uuid} {durationMinutes : ℤ} {title : String}
    {token : Option String} {saved : Booking} (hr : env.resources.find? resourceId = some r)
    (h : quickBook env cfg now newId resourceId durationMinutes title token bookings = .ok (bookings', saved)) :
    saved = walkIn cfg newId r now (now + durationMinutes * msPerMinute) title ∧
      bookings.insert? saved = some bookings' := by
  unfold quickBook at h
  simp only [bind_eq_ok, found_eq_ok, require_eq_ok, exists_const, pure_eq_ok, Prod.mk.injEq] at h
  obtain ⟨r', hr', -, -, -, -, -, t, hins, rfl, rfl⟩ := h
  obtain rfl := Option.some.inj (hr.symm.trans hr')
  exact ⟨rfl, hins⟩

/-- **Walk-ups.** A walk-up that succeeds obeys the rules of an ordinary booking if and only if the room is active, is
no pod and asks for no approval, the user of the kiosk may book it, the window lies within the rules and the opening
hours, and the room and its relatives are free. -/
theorem walk_in_obeys_iff {cfg : Config} {newId resourceId : Uuid} {durationMinutes : ℤ} {title : String}
    {token : Option String} {saved : Booking} (hr : env.resources.find? resourceId = some r)
    (h : quickBook env cfg now newId resourceId durationMinutes title token bookings = .ok (bookings', saved)) :
    Obeys env now (now + durationMinutes * msPerMinute) cfg.bookingUserId r bookings bookings' saved ↔
      Acceptable env now (now + durationMinutes * msPerMinute) cfg.bookingUserId r bookings := by
  obtain ⟨rfl, hins⟩ := quickBook_ok hr h
  have hapart := splitApart_insert (Table.mem_of_find? hr) ⟨rfl, rfl⟩ rfl hins
  constructor
  · rintro ⟨hchecks, hstatus, hmode, hkeep⟩
    have hex : r.bookingMode = .exclusive := hmode.symm
    obtain ⟨hactive, hmay, hwindow⟩ := (checks_iff hex).1 hchecks
    refine ⟨hactive, hex, ?_, hmay, hwindow, fun hsplit => (hapart.1 (hkeep hsplit)).2⟩
    cases hneeds : needsApproval r with
    | false => rfl
    | true =>
      rw [hneeds] at hstatus
      cases hstatus
  · rintro ⟨hactive, hex, hneeds, hmay, hwindow, hrel⟩
    refine ⟨(checks_iff hex).2 ⟨hactive, hmay, hwindow⟩, ?_, hex.symm, fun hsplit => hapart.2 ⟨hsplit, hrel hsplit⟩⟩
    rw [hneeds]
    rfl

end Agreement

/-! ### A split room -/

def hall : Resource := { id := "hall", tenantId := "t", compositeMode := .parent }

def halfHall : Resource := { id := "half", tenantId := "t", compositeMode := .child, parentResourceId := some "hall" }

def hallOnly : Env := office ⟨[hall, halfHall], by decide⟩ .empty .empty

def localKiosk : Config := { bookingUserId := "kiosk", allowInsecureLocal := true }

def annex : Resource := { id := "annex", tenantId := "t", compositeMode := .child, parentResourceId := some "hall" }

def hallAndParts : Env := office ⟨[hall, halfHall, annex], by decide⟩ .empty .empty

/-- The half was booked until now, the whole hall was cancelled, and the annex is taken. -/
def aroundNow : Table Booking :=
  ⟨[{ id := "b1", tenantId := "t", resourceId := "half", userId := "u", startTime := -3600000, endTime := 0,
      status := .confirmed },
    { id := "b2", tenantId := "t", resourceId := "hall", userId := "u", startTime := 0, endTime := 3600000,
      status := .cancelled },
    { id := "b3", tenantId := "t", resourceId := "annex", userId := "u", startTime := 0, endTime := 3600000,
      status := .confirmed }], by decide⟩

theorem disjoint_of_not_overlap {a b s e : Instant} (h : rangesOverlap a b s e = false) :
    Disjoint (Set.Ico a b) (Set.Ico s e) :=
  not_not.1 fun hmeet => absurd (rangesOverlap_iff.2 hmeet) (by rw [h]; decide)

/-- The half is walked up to, whatever goes on in the annex. -/
theorem walk_in_obeys_around : ∃ bookings' saved,
    quickBook hallAndParts localKiosk 0 "w" "half" 30 "Walk-in" none aroundNow = .ok (bookings', saved) ∧
      Obeys hallAndParts 0 (0 + 30 * msPerMinute) localKiosk.bookingUserId halfHall aroundNow bookings' saved := by
  obtain ⟨out, hout⟩ : ∃ out, quickBook hallAndParts localKiosk 0 "w" "half" 30 "Walk-in" none aroundNow = .ok out :=
    ⟨_, rfl⟩
  refine ⟨out.1, out.2, hout, (walk_in_obeys_iff rfl hout).2 ?_⟩
  refine ⟨rfl, rfl, rfl, .inl rfl,
    ⟨0, 1800000, rfl, rfl, ⟨by decide, by decide, by decide, .inr (by decide), ?_⟩, ?_, ?_⟩, ?_⟩
  · intro d _ hclosed
    rcases hclosed with hblack | ⟨h, hh, -⟩
    · cases hblack
    · cases hh
  · intro oh hoh
    cases hoh
  · intro b hb _ hstands hcounted
    rcases List.mem_cons.1 hb with rfl | hb
    · exact disjoint_of_not_overlap (by decide)
    rcases List.mem_cons.1 hb with rfl | hb
    · cases hstands
    · obtain rfl := List.mem_singleton.1 hb
      rcases hcounted with hsame | ⟨hparent, -⟩ | ⟨-, hup⟩
      · exact absurd hsame (by decide)
      · cases hparent
      · exact absurd hup (by decide)
  · intro _ b hb hstands r' hr' hbooks hrelated
    rcases List.mem_cons.1 hb with rfl | hb
    · exact disjoint_of_not_overlap (by decide)
    rcases List.mem_cons.1 hb with rfl | hb
    · cases hstands
    · obtain rfl := List.mem_singleton.1 hb
      rcases hrelated with hup | hdown
      · exact absurd (hup.1.trans (congrArg some hbooks.1.symm)) (by decide)
      · have hannex : r' = annex := by
          rcases List.mem_cons.1 hr' with rfl | hr'
          · exact absurd hbooks.1 (by decide)
          rcases List.mem_cons.1 hr' with rfl | hr'
          · exact absurd hbooks.1 (by decide)
          · exact List.mem_singleton.1 hr'
        rw [hannex] at hdown
        exact absurd hdown.1 (by decide)

def hallHour : CreateBookingDto := { resourceId := "hall", startTime := 0, endTime := 3600000 }

/-- The half of the hall is walked up to while the hall is booked: `create` would refuse the half, and split rooms do
not stay apart. -/
theorem half_walked_up : ∃ st row bookings' saved,
    create hallOnly 0 ⟨"b", fun _ => "", ""⟩ "t" "u" hallHour .empty = .ok (st, row) ∧
      quickBook hallOnly localKiosk 0 "w" "half" 30 "Walk-in" none st.bookings = .ok (bookings', saved) ∧
      ¬ Checks hallOnly 0 (0 + 30 * msPerMinute) localKiosk.bookingUserId halfHall st.bookings ∧
      SplitApart hallOnly.resources st.bookings ∧ ¬ SplitApart hallOnly.resources bookings' := by
  refine ⟨_, _, _, _, rfl, rfl, ?_, ?_, ?_⟩
  · rintro ⟨-, -, w, hw, -, -, hfree⟩
    cases hw
    revert hfree
    decide
  · intro b hb b' hb' hne
    obtain rfl := List.mem_singleton.1 hb
    obtain rfl := List.mem_singleton.1 hb'
    exact absurd rfl hne
  · intro h
    have hmeet := h _ (.tail _ (.head _)) _ (.head _) (by decide) rfl rfl halfHall (.tail _ (.head _)) hall (.head _)
      ⟨rfl, rfl⟩ ⟨rfl, rfl⟩ ⟨rfl, rfl⟩
    exact rangesOverlap_iff.1 (by decide) hmeet

end BookingSystem.Contracts.Kiosk
