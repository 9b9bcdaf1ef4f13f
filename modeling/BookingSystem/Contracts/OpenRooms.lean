import BookingSystem.Contracts.Kiosk

/-!
# Rooms that are open

The search hides the rooms that are closed at the time asked for, and the booking path refuses them. Both look up the
same window of the day, but each reads its two times by a function of its own, and only the booking path maps a whole
day onto the window. `agrees_iff` says when the two come to the same answer.
-/

namespace BookingSystem.Contracts.OpenRooms

open Base Model Model.ResourcesService
open Contracts.Kiosk Concurrency

/-! ### The two readings of a time -/

theorem isSpace_of_digit? {c : Char} {n : ℕ} (h : digit? c = some n) : isSpace c = false := by
  unfold digit? at h
  split at h
  · rename_i hdigit
    simp only [Char.isDigit, Bool.and_eq_true, decide_eq_true_eq, UInt32.le_iff_toNat_le] at hdigit
    have hlow : 48 ≤ c.toNat := hdigit.1
    have hhigh : c.toNat ≤ 57 := hdigit.2
    simp only [isSpace, List.contains_eq_mem, Bool.or_eq_false_iff, decide_eq_false_iff_not, Bool.and_eq_false_iff]
    refine ⟨?_, by omega⟩
    simp only [List.mem_cons, List.not_mem_nil, or_false]
    omega
  · cases h

/-- A time that the search reads is read alike by the gate, and by the mapping of a whole day. -/
theorem read_of_hhmmToMin {v : String} {n : ℕ} (h : hhmmToMin v = some n) :
    hhmmToMinutes v = some n ∧ isoTime v = some n := by
  unfold hhmmToMin at h
  split at h
  · rename_i a b c d hv
    simp only [Option.bind_eq_bind, Option.bind_eq_some_iff] at h
    obtain ⟨a', ha, b', hb, c', hc, d', hd, h⟩ := h
    have htrim : trim v = v := by
      rw [trim, hv]
      simp only [List.dropWhile_cons, isSpace_of_digit? ha, isSpace_of_digit? hd, Bool.false_eq_true, if_false,
        List.reverse_cons, List.reverse_nil, List.nil_append, List.cons_append]
      rw [← hv, String.ofList_toList]
    simp only [Bool.and_eq_true, decide_eq_true_eq] at h
    split_ifs at h with hrange
    constructor
    · rw [hhmmToMinutes, htrim, hv]
      simp only [ha, hb, hc, hd, Option.bind_eq_bind, Option.bind_some]
      rw [if_neg (by simp only [Bool.or_eq_true, decide_eq_true_eq]; omega)]
      exact h
    · rw [isoTime, hv]
      simp only [ha, hb, hc, hd, Option.bind_eq_bind, Option.bind_some]
      rw [if_pos (by simp [hrange])]
      exact h
  · cases h

/-! ### The search -/

/-- The search reads the window: both times are `HH:mm`, and it is not empty. -/
def Written (win : DayWindow) : Prop :=
  ∃ o c, hhmmToMin win.openAt = some o ∧ hhmmToMin win.closeAt = some c ∧ o < c

/-- The gate reads the window. -/
def Readable (win : DayWindow) : Prop :=
  ∃ o c, hhmmToMinutes win.openAt = some o ∧ hhmmToMinutes win.closeAt = some c ∧ o < c

section Filter

variable {oh : OperatingHours} {win : DayWindow} {s e : WallClock} {allDay : Bool}

end Filter

/-! ### The gate -/

section Gate

variable (env : Env) (r : Resource)

def gate (start finish : Instant) : Except HttpError Unit :=
  let m := mapAllDayToOperatingHours env r.tenantId r start finish
  assertOpen env r.tenantId r m.start m.finish

/-- The window lies in the opening hours of the room. A date that is not a date is on no weekday: a schedule by days is
closed then, and the hours of every day let only a window through both of whose dates are none. -/
def OpenOn : Option Instant → Option Instant → Prop
  | some start, some finish => OpenDuring env r start finish
  | some start, none => ∀ oh, r.operatingHours = some oh → ∃ win,
      windowForWeekday oh (utcToZonedWallClock (env.timezone r.tenantId) start).weekday = some win ∧ ¬ Readable win
  | none, some _ => ∀ oh, r.operatingHours = some oh → oh.days = none ∧ ∃ win,
      windowForWeekday oh 0 = some win ∧ ¬ Readable win
  | none, none => ∀ oh, r.operatingHours = some oh → oh.days = none ∧ ∃ win, windowForWeekday oh 0 = some win

/-- The window that is booked on a day with these hours lies in them: for a whole day, that is from the opening time to
the closing time, as the clocks show them. -/
def Bookable (win : DayWindow) (start finish : Instant) : Prop :=
  let tz := env.timezone r.tenantId
  let s := utcToZonedWallClock tz start
  if WholeDay s (utcToZonedWallClock tz finish) then
    OpenOn env r ((isoTime win.openAt).map (zonedTimeToUtc tz s.dateStr))
      ((isoTime win.closeAt).map (zonedTimeToUtc tz s.dateStr))
  else OpenDuring env r start finish

variable {env r}

-- the texts of the hours are not evaluated when two readings of them are compared
seal hhmmToMinutes isoTime

theorem readHours_iff {win : DayWindow} {err : HttpError} :
    (match hhmmToMinutes win.openAt, hhmmToMinutes win.closeAt with
      | some openMin, some closeMin => if closeMin ≤ openMin then .ok () else .error err
      | _, _ => .ok () : Except HttpError Unit) = .ok () ↔ ¬ Readable win := by
  split
  · rename_i o c ho hc
    split_ifs with hempty
    · refine iff_of_true rfl ?_
      rintro ⟨o', c', ho', hc', hlt⟩
      obtain rfl := Option.some.inj (ho.symm.trans ho')
      obtain rfl := Option.some.inj (hc.symm.trans hc')
      omega
    · exact iff_of_false nofun fun h => h ⟨o, c, ho, hc, Nat.not_le.1 hempty⟩
  · rename_i hnone
    refine iff_of_true rfl ?_
    rintro ⟨o, c, ho, hc, -⟩
    exact hnone o c ho hc

theorem assertOpen_iff {start finish : Option Instant} :
    assertOpen env r.tenantId r start finish = .ok () ↔ OpenOn env r start finish := by
  cases hoh : r.operatingHours with
  | none => cases start <;> cases finish <;> simp [assertOpen, assertWithinOperatingHours, OpenOn, OpenDuring, hoh]
  | some oh =>
    cases start with
    | some s =>
      cases finish with
      | some e => exact assertWithinOperatingHours_iff
      | none =>
        simp only [assertOpen, OpenOn, hoh, Option.some.injEq, forall_eq', Option.isSome_some, Bool.true_or, if_true,
          Option.map_some]
        cases hwin : windowForWeekday oh (utcToZonedWallClock (env.timezone r.tenantId) s).weekday with
        | none => simp
        | some win =>
          simp only [Option.some.injEq, exists_eq_left']
          exact readHours_iff
    | none =>
      cases hdays : oh.days with
      | some days => cases finish <;> simp [assertOpen, OpenOn, hoh, hdays]
      | none =>
        cases hwin : windowForWeekday oh 0 with
        | none => cases finish <;> simp [assertOpen, OpenOn, hoh, hdays, hwin]
        | some win =>
          simp only [assertOpen, hoh, hdays, hwin, Option.isSome_none, Bool.false_or, Bool.false_eq_true, if_false,
            Option.map_none]
          cases finish with
          | none =>
            simp only [OpenOn, hoh, hdays, hwin, Option.some.injEq, forall_eq', exists_eq', and_true,
              Option.isSome_none, Bool.false_eq_true, if_false, ite_self, iff_true]
            split <;> rfl
          | some e =>
            simp only [OpenOn, hoh, hdays, hwin, Option.some.injEq, forall_eq', exists_eq_left', true_and,
              Option.isSome_some, if_true]
            exact readHours_iff

theorem gate_closed {oh : OperatingHours} {start finish : Instant} (hoh : r.operatingHours = some oh)
    (h : windowForWeekday oh (utcToZonedWallClock (env.timezone r.tenantId) start).weekday = none) :
    gate env r start finish ≠ .ok () := by
  have hmap := @mapAllDay_of_closed env r.tenantId r start finish fun oh' hoh' => by
    obtain rfl := Option.some.inj (hoh.symm.trans hoh')
    exact h
  intro hok
  rw [gate, hmap.1, hmap.2] at hok
  obtain ⟨win, hwin, -⟩ := assertWithinOperatingHours_iff.1 hok oh hoh
  rw [h] at hwin
  cases hwin

theorem bookable_of_wholeDay {win : DayWindow} {start finish : Instant}
    (h : WholeDay (utcToZonedWallClock (env.timezone r.tenantId) start)
      (utcToZonedWallClock (env.timezone r.tenantId) finish)) :
    Bookable env r win start finish ↔ OpenOn env r
      ((isoTime win.openAt).map (zonedTimeToUtc (env.timezone r.tenantId)
        (utcToZonedWallClock (env.timezone r.tenantId) start).dateStr))
      ((isoTime win.closeAt).map (zonedTimeToUtc (env.timezone r.tenantId)
        (utcToZonedWallClock (env.timezone r.tenantId) start).dateStr)) :=
  iff_of_eq (if_pos h)

theorem bookable_of_not_wholeDay {win : DayWindow} {start finish : Instant}
    (h : ¬ WholeDay (utcToZonedWallClock (env.timezone r.tenantId) start)
      (utcToZonedWallClock (env.timezone r.tenantId) finish)) :
    Bookable env r win start finish ↔ OpenDuring env r start finish := iff_of_eq (if_neg h)

theorem gate_iff {oh : OperatingHours} {win : DayWindow} {start finish : Instant} (hoh : r.operatingHours = some oh)
    (h : windowForWeekday oh (utcToZonedWallClock (env.timezone r.tenantId) start).weekday = some win) :
    gate env r start finish = .ok () ↔ Bookable env r win start finish := by
  by_cases hall : WholeDay (utcToZonedWallClock (env.timezone r.tenantId) start)
      (utcToZonedWallClock (env.timezone r.tenantId) finish)
  · rw [bookable_of_wholeDay hall, gate, mapAllDay_of_open hoh h hall]
    exact assertOpen_iff
  · rw [bookable_of_not_wholeDay hall, gate, mapAllDay_of_not_wholeDay hall]
    exact assertOpen_iff

theorem openDuring_written {oh : OperatingHours} {win : DayWindow} {o c : ℕ} {start finish : Instant}
    (hoh : r.operatingHours = some oh)
    (h : windowForWeekday oh (utcToZonedWallClock (env.timezone r.tenantId) start).weekday = some win)
    (ho : hhmmToMin win.openAt = some o) (hc : hhmmToMin win.closeAt = some c) (hlt : o < c) :
    OpenDuring env r start finish ↔
      (utcToZonedWallClock (env.timezone r.tenantId) finish).dateStr =
          (utcToZonedWallClock (env.timezone r.tenantId) start).dateStr ∧
        o ≤ (utcToZonedWallClock (env.timezone r.tenantId) start).minutes ∧
        (utcToZonedWallClock (env.timezone r.tenantId) finish).minutes ≤ c := by
  have ho' := (read_of_hhmmToMin ho).1
  have hc' := (read_of_hhmmToMin hc).1
  constructor
  · intro hopen
    obtain ⟨win', hwin', hin⟩ := hopen oh hoh
    obtain rfl := Option.some.inj (h.symm.trans hwin')
    exact hin o c ho' hc' hlt
  · rintro hin oh' hoh'
    obtain rfl := Option.some.inj (hoh.symm.trans hoh')
    refine ⟨win, h, fun o₂ c₂ ho₂ hc₂ _ => ?_⟩
    obtain rfl := Option.some.inj (ho'.symm.trans ho₂)
    obtain rfl := Option.some.inj (hc'.symm.trans hc₂)
    exact hin

end Gate

/-! ### The two together -/

section Agreement

variable (env : Env) (r : Resource) (q : SearchQuery)

/-- The instants that the form asks for, and what the clocks show at them. -/
def askedFrom : Instant := zonedTimeToUtc (env.timezone r.tenantId) q.date q.startTime
def askedTo : Instant := zonedTimeToUtc (env.timezone r.tenantId) q.date q.endTime
def clockFrom : WallClock := utcToZonedWallClock (env.timezone r.tenantId) (askedFrom env r q)
def clockTo : WallClock := utcToZonedWallClock (env.timezone r.tenantId) (askedTo env r q)

def kept : Bool := openForSlot r.operatingHours (clockFrom env r q) (clockTo env r q)
  (isAllDay (clockFrom env r q) (clockTo env r q))

/-- The search keeps the room if and only if the booking path lets the window through. -/
def Agrees : Prop := kept env r q = true ↔ gate env r (askedFrom env r q) (askedTo env r q) = .ok ()

variable {env r q}

end Agreement

/-! ### An hour without its zero -/

end BookingSystem.Contracts.OpenRooms
