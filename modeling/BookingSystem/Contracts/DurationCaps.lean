import BookingSystem.Contracts.Kiosk
import BookingSystem.Contracts.WallClocks

/-!
# Limits on the length of a booking

A booking of a whole day need not keep to the limits on the length of a booking. What the code takes for a whole day is
any span from one midnight to another, so that a room without opening hours can be booked for weeks. `caps_bind_iff`
says when an accepted booking keeps to the limits or is of one day.
-/

namespace BookingSystem.Contracts.DurationCaps

open Base Model Model.BookingsService Effects
open Contracts.Kiosk Contracts.WallClocks

/-! ### Accepted windows -/

section Windows

variable (env : Env) (now : Instant) (r : Resource)

/-- A window asked for passes the rules of the tenant and the opening hours, as the window `w`. -/
structure Fits (start finish : Instant) (w : Instant × Instant) : Prop where
  startMapped : (mapAllDayToOperatingHours env r.tenantId r start finish).start = some w.1
  finishMapped : (mapAllDayToOperatingHours env r.tenantId r start finish).finish = some w.2
  rules : InRules env r now (mapAllDayToOperatingHours env r.tenantId r start finish).wasAllDay w.1 w.2
  hours : OpenDuring env r w.1 w.2

/-- The row is what `create` books, or what an edit of the time saves, when the window is asked for in the room. -/
inductive Accepts : Resource → Instant → Instant → Booking → Prop
  | create {fresh : Fresh} {tenantId userId : Uuid} {dto : CreateBookingDto} {st st' : Store} {r : Resource}
      {row : Booking} (hr : env.resource tenantId dto.resourceId = some r)
      (h : create env now fresh tenantId userId dto st = .ok (st', row)) : Accepts r dto.startTime dto.endTime row
  | update {tenantId userId : Uuid} {role : String} {id : Uuid} {dto : UpdateBookingDto} {bookings : Table Booking}
      {r : Resource} {b saved : Booking} (hb : findBooking bookings tenantId id = some b)
      (hr : env.resource tenantId (dto.resourceId.getD b.resourceId) = some r) (htime : timeChanged dto = true)
      (h : applyUpdate env now tenantId userId role id dto bookings = .ok saved) :
      Accepts r (dto.startTime.getD b.startTime) (dto.endTime.getD b.endTime) saved

variable {env now r}

theorem fits_iff {start finish : Instant} {w : Instant × Instant} : Fits env now r start finish w ↔
    BookingValidator.validDates (mapAllDayToOperatingHours env r.tenantId r start finish).start
        (mapAllDayToOperatingHours env r.tenantId r start finish).finish = .ok w ∧
      BookingValidator.validate env r.tenantId w.1 w.2 now r.ruleOverrides r.region
        (mapAllDayToOperatingHours env r.tenantId r start finish).wasAllDay = .ok () ∧
      assertWithinOperatingHours env r.tenantId r w.1 w.2 = .ok () := by
  rw [BookingValidator.validDates_eq_ok, validate_iff, assertWithinOperatingHours_iff]
  constructor
  · rintro ⟨hs, he, hrules, hhours⟩
    exact ⟨⟨hs, he⟩, hrules, hhours⟩
  · rintro ⟨⟨hs, he⟩, hrules, hhours⟩
    exact ⟨hs, he, hrules, hhours⟩

theorem tenantId_of_resource {tenantId id : Uuid} (h : env.resource tenantId id = some r) : r.tenantId = tenantId := by
  have h := (Option.filter_eq_some_iff.1 h).2
  exact beq_iff_eq.1 h

theorem Accepts.fits {start finish : Instant} {row : Booking} (h : Accepts env now r start finish row) :
    Fits env now r start finish (row.startTime, row.endTime) := by
  cases h with
  | @create fresh tenantId userId dto st st' _ _ hr h =>
    obtain rfl := tenantId_of_resource hr
    simp only [BookingsService.create, bind_eq_ok, Prod.exists] at h
    obtain ⟨slot, row', hadm, bookings, -, h⟩ := h
    have hrow : row' = row := by
      split at h
      · exact (Prod.mk.inj (pure_eq_ok.1 h)).2
      · exact (Prod.mk.inj (pure_eq_ok.1 h)).2
    subst hrow
    simp only [createAdmit, bind_eq_ok, require_eq_ok, found_eq_ok, pure_eq_ok, Prod.mk.injEq, hr,
      Option.some.injEq] at hadm
    obtain ⟨⟨⟩, -, _, rfl, ⟨⟩, -, ⟨⟩, -, w, hw, ⟨⟩, hrules, ⟨⟩, hopen, _, -, _, -, rfl, rfl⟩ := hadm
    exact fits_iff.2 ⟨hw, hrules, hopen⟩
  | @update tenantId userId role id dto bookings _ b _ hb hr htime h =>
    obtain rfl := tenantId_of_resource hr
    simp only [applyUpdate, bind_eq_ok, Prod.exists] at h
    obtain ⟨b', slot, hadm, hcom⟩ := h
    simp only [updateAdmit, bind_eq_ok, require_eq_ok, found_eq_ok, hb, htime, Bool.true_or, if_true] at hadm
    obtain ⟨_, ⟨⟩, ⟨⟩, -, ⟨⟩, -, ⟨⟩, -, r', hr', ⟨⟩, -, w, hw, ⟨⟩, hrules, ⟨⟩, hopen, hadm⟩ := hadm
    obtain rfl := Option.some.inj (hr.symm.trans hr')
    obtain ⟨rfl, rfl⟩ := Prod.mk.inj (pure_eq_ok.1 hadm)
    rcases updateCommit_ok hcom with ⟨hnone, -⟩ | ⟨_, hslot, -, he⟩
    · cases hnone
    · obtain rfl := Option.some.inj hslot
      rw [he.startTime, he.endTime]
      exact fits_iff.2 ⟨hw, hrules, hopen⟩

end Windows

/-! ### The limits -/

section Limits

variable (env : Env) (r : Resource) (start finish : Instant)

/-- The length of the window is within the limits of the room. -/
def InCaps (w : Instant × Instant) : Prop :=
  minMinutes env r * msPerMinute ≤ w.2 - w.1 ∧ w.2 - w.1 ≤ maxMinutes env r * msPerMinute

/-- The window is one day: from its midnight to 23:59, or to the midnight of the next day. -/
def OneDay : Prop :=
  let s := utcToZonedWallClock (env.timezone r.tenantId) start
  let e := utcToZonedWallClock (env.timezone r.tenantId) finish
  s.minutes = 0 ∧ (e.dateStr = s.dateStr ∧ e.minutes = 23 * 60 + 59 ∨ e.dateStr = s.dateStr + 1 ∧ e.minutes = 0)

/-- The window goes from a midnight to the midnight of another day than the next. -/
def MidnightSpan : Prop :=
  let s := utcToZonedWallClock (env.timezone r.tenantId) start
  let e := utcToZonedWallClock (env.timezone r.tenantId) finish
  s.minutes = 0 ∧ e.minutes = 0 ∧ e.dateStr ≠ s.dateStr ∧ e.dateStr ≠ s.dateStr + 1

/-- The hours of the room on the first day of the window are within the limits; in a room without hours, the window
is. -/
def HoursInCaps : Prop :=
  let tz := env.timezone r.tenantId
  let s := utcToZonedWallClock tz start
  match r.operatingHours with
  | none => InCaps env r (start, finish)
  | some oh => ∀ win o c, windowForWeekday oh s.weekday = some win → isoTime win.openAt = some o →
      isoTime win.closeAt = some c → InCaps env r (zonedTimeToUtc tz s.dateStr o, zonedTimeToUtc tz s.dateStr c)

variable {env r start finish}

theorem wholeDay_iff : WholeDay (utcToZonedWallClock (env.timezone r.tenantId) start)
    (utcToZonedWallClock (env.timezone r.tenantId) finish) ↔
      OneDay env r start finish ∨ MidnightSpan env r start finish := by
  have hlt := minutes_lt (env.timezone r.tenantId) finish
  have h : ∀ sd ed : ℤ, ∀ sm em : ℕ, em < 24 * 60 →
      (sm = 0 ∧ (ed ≠ sd ∧ em = 0 ∨ ed = sd ∧ 23 * 60 + 59 ≤ em) ↔
        sm = 0 ∧ (ed = sd ∧ em = 23 * 60 + 59 ∨ ed = sd + 1 ∧ em = 0) ∨
          sm = 0 ∧ em = 0 ∧ ed ≠ sd ∧ ed ≠ sd + 1) := by omega
  exact h _ _ _ _ hlt

theorem inCaps_iff_hours {now : Instant} {w : Instant × Instant} (h : Fits env now r start finish w)
    (hall : WholeDay (utcToZonedWallClock (env.timezone r.tenantId) start)
      (utcToZonedWallClock (env.timezone r.tenantId) finish)) :
    InCaps env r w ↔ HoursInCaps env r start finish := by
  obtain ⟨s, e⟩ := w
  cases hoh : r.operatingHours with
  | none =>
    simp only [HoursInCaps, hoh]
    have hmap := @mapAllDay_of_closed env r.tenantId r start finish fun oh h => by
      rw [hoh] at h
      cases h
    obtain rfl := Option.some.inj (hmap.1.symm.trans h.startMapped)
    obtain rfl := Option.some.inj (hmap.2.symm.trans h.finishMapped)
    exact Iff.rfl
  | some oh =>
    cases hwin : windowForWeekday oh (utcToZonedWallClock (env.timezone r.tenantId) start).weekday with
    | none =>
      have hmap := @mapAllDay_of_closed env r.tenantId r start finish fun oh' h' => by
        obtain rfl := Option.some.inj (hoh.symm.trans h')
        exact hwin
      obtain rfl := Option.some.inj (hmap.1.symm.trans h.startMapped)
      obtain ⟨win, hwin', -⟩ := h.hours oh hoh
      rw [hwin] at hwin'
      cases hwin'
    | some win =>
      have hs := h.startMapped
      have he := h.finishMapped
      rw [mapAllDay_of_open hoh hwin hall] at hs he
      obtain ⟨o, ho, rfl⟩ := Option.map_eq_some_iff.1 hs
      obtain ⟨c, hc, rfl⟩ := Option.map_eq_some_iff.1 he
      simp only [HoursInCaps, hoh]
      constructor
      · intro hin win' o' c' hwin' ho' hc'
        obtain rfl := Option.some.inj (hwin.symm.trans hwin')
        obtain rfl := Option.some.inj (ho.symm.trans ho')
        obtain rfl := Option.some.inj (hc.symm.trans hc')
        exact hin
      · exact fun hin => hin win o c hwin ho hc

/-- **Limits on the length.** An accepted booking is within the limits or for one day, if and only if it is not asked
for from a midnight to that of another day than the next, or the hours of the room on its first day are within the
limits. -/
theorem caps_bind_iff {now : Instant} {row : Booking} (h : Accepts env now r start finish row) :
    (InCaps env r (row.startTime, row.endTime) ∨ OneDay env r start finish) ↔
      (MidnightSpan env r start finish → HoursInCaps env r start finish) := by
  have hfits := h.fits
  constructor
  · intro hkeeps hspan
    rw [← inCaps_iff_hours hfits (wholeDay_iff.2 (.inr hspan))]
    refine hkeeps.resolve_right ?_
    rintro ⟨-, ⟨hsame, -⟩ | ⟨hnext, -⟩⟩
    · exact hspan.2.2.1 hsame
    · exact hspan.2.2.2 hnext
  · intro hspan
    rcases hfits.rules.length with hall | hin
    · have hday := wasAllDay_iff.1 hall
      rcases wholeDay_iff.1 hday with hone | hmany
      · exact .inr hone
      · exact .inl ((inCaps_iff_hours hfits hday).2 (hspan hmany))
    · exact .inl hin

end Limits

/-! ### Three days at a stretch -/

def studio : Resource := { id := "r", tenantId := "t" }

def studioOnly : Env := office ⟨[studio], by decide⟩ .empty .empty

def asked (start finish : Instant) : CreateBookingDto := { resourceId := "r", startTime := start, endTime := finish }

/-- An hour in the studio is within the limits. -/
theorem caps_bind_iff_hour : ∃ st row,
    create studioOnly 0 ⟨"b", fun _ => "", ""⟩ "t" "u" (asked 0 3600000) .empty = .ok (st, row) ∧
      (InCaps studioOnly studio (row.startTime, row.endTime) ∨ OneDay studioOnly studio 0 3600000) := by
  obtain ⟨⟨st, row⟩, h⟩ :
    ∃ out, create studioOnly 0 ⟨"b", fun _ => "", ""⟩ "t" "u" (asked 0 3600000) .empty = .ok out := ⟨_, rfl⟩
  have hacc : Accepts studioOnly 0 studio 0 3600000 row := @Accepts.create _ _ _ _ _ (asked 0 3600000) _ _ _ _ rfl h
  exact ⟨st, row, h, (caps_bind_iff hacc).2 fun hspan => absurd hspan.2.1 (by decide)⟩

/-- The studio is booked from one midnight to the third after it, nine times the limit of a tenant that has set
none. -/
theorem three_days_booked : ∃ st row,
    create studioOnly 0 ⟨"b", fun _ => "", ""⟩ "t" "u" (asked msPerDay (4 * msPerDay)) .empty = .ok (st, row) ∧
      ¬ (InCaps studioOnly studio (row.startTime, row.endTime) ∨
        OneDay studioOnly studio msPerDay (4 * msPerDay)) := by
  refine ⟨_, _, rfl, ?_⟩
  rintro (hin | hone)
  · exact absurd hin.2 (by decide)
  · revert hone
    unfold OneDay
    decide

end BookingSystem.Contracts.DurationCaps
