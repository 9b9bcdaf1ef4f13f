import BookingSystem.Contracts.OpenRooms
import BookingSystem.Contracts.ClosedDays
import BookingSystem.Contracts.WallClocks

/-!
# Opening hours, instant by instant

The gate looks at the wall clocks of the start and of the end, to the minute. A booking that it lets through is open at
every instant if and only if the clocks show an open time just before the end, and just before and at every change of
the clocks in between.
-/

namespace BookingSystem.Contracts.OpenInstants

open Base Model Model.ResourcesService
open Contracts.Kiosk Contracts.OpenRooms Contracts.ClosedDays
open Contracts.WallClocks

/-! ### Regular hours -/

theorem written_of_validateWindow {win win' : DayWindow} {label : String} (h : validateWindow win label = .ok win') :
    Written win := by
  simp only [validateWindow, bind_eq_ok, found_eq_ok, require_eq_ok, decide_eq_true_eq] at h
  obtain ⟨o, ho, c, hc, -, hlt, -⟩ := h
  exact ⟨o, c, ho, hc, hlt⟩

theorem written_of_normalize {oh : OperatingHours} {n : Option OperatingHours}
    (h : normalizeOperatingHours (some oh) = .ok n) {weekday : ℕ} (hday : weekday < 7) {win : DayWindow}
    (hwin : windowForWeekday oh weekday = some win) : Written win := by
  simp only [normalizeOperatingHours, bind_eq_ok] at h
  obtain ⟨source, hsource, h⟩ := h
  unfold scheduleSource at hsource
  unfold windowForWeekday at hwin
  cases hdays : oh.days with
  | some days =>
    rw [hdays] at hsource hwin
    have hwin : days weekday = some win := hwin
    obtain rfl := Except.ok.inj hsource
    obtain ⟨ys, hys, -⟩ := bind_eq_ok.1 h
    obtain ⟨y, hy⟩ := ok_of_mapM_ok hys (List.mem_range.2 hday)
    rw [hwin] at hy
    obtain ⟨win', hvalid, -⟩ := bind_eq_ok.1 hy
    exact written_of_validateWindow hvalid
  | none =>
    rw [hdays] at hsource hwin
    dsimp only at hsource hwin
    split at hwin
    · rename_i o c ho hc
      split_ifs at hwin with hset
      obtain rfl := Option.some.inj hwin
      rw [ho, hc, if_pos (by simp_all)] at hsource
      obtain ⟨win', hvalid, -⟩ := bind_eq_ok.1 hsource
      exact written_of_validateWindow hvalid
    · cases hwin

/-! ### The instants of a window -/

section Instants

variable (tz : Zone) (o c : ℕ) (s e : ℤ)

/-- The clocks show the day of `s`, and a time from `o` on and before `c`. -/
def Inside (t : ℤ) : Prop :=
  (utcToZonedWallClock tz t).dateStr = (utcToZonedWallClock tz s).dateStr ∧
    o ≤ (utcToZonedWallClock tz t).minutes ∧ (utcToZonedWallClock tz t).minutes < c

/-- Just before the end, and just before and at every change of the clocks, the clocks are inside. -/
def InsideAtChanges : Prop :=
  ∀ x, s < x → x ≤ e → (x = e ∨ tz x ≠ tz (x - 1)) → Inside tz o c s (x - 1) ∧ (x < e → Inside tz o c s x)

def opening : ℤ := asUtc (utcToZonedWallClock tz s).dateStr o
def closing : ℤ := asUtc (utcToZonedWallClock tz s).dateStr c

variable {tz o c s e} {t : ℤ}

theorem inside_iff (hc : c ≤ 24 * 60) :
    Inside tz o c s t ↔ opening tz o s ≤ t + tz t ∧ t + tz t < closing tz c s := by
  have h : ∀ d shown : ℤ, (shown / 86400000 = d ∧ o ≤ (shown % 86400000 / 60000).toNat ∧
      (shown % 86400000 / 60000).toNat < c) ↔
        d * 86400000 + o * 60000 ≤ shown ∧ shown < d * 86400000 + c * 60000 := by omega
  exact h _ (t + tz t)

theorem opening_le (hc : c ≤ 24 * 60) (hs : opening tz o s ≤ s + tz s) (h : InsideAtChanges tz o c s e) (ht : s ≤ t) :
    t < e → opening tz o s ≤ t + tz t := by
  induction t, ht using Int.leInduction with
  | base => exact fun _ => hs
  | succ t ht ih =>
    intro hte
    by_cases hsame : tz (t + 1) = tz t
    · have ih := ih (by omega)
      omega
    · have hprev : t + 1 - 1 = t := by omega
      have hx := h (t + 1) (by omega) hte.le (.inr (by rwa [hprev]))
      exact ((inside_iff hc).1 (hx.2 hte)).1

theorem lt_closing (hc : c ≤ 24 * 60) (hse : s < e) (h : InsideAtChanges tz o c s e) (ht : t ≤ e - 1) :
    s ≤ t → t + tz t < closing tz c s := by
  induction t, ht using Int.leInductionDown with
  | base => exact fun _ => ((inside_iff hc).1 (h e hse le_rfl (.inl rfl)).1).2
  | pred t ht ih =>
    intro hst
    by_cases hsame : tz t = tz (t - 1)
    · have ih := ih (by omega)
      omega
    · have hx := h t (by omega) (by omega) (.inr hsame)
      exact ((inside_iff hc).1 hx.1).2

/-- **A booking is open throughout** iff it is at the end and at the changes of the clocks. -/
theorem insideAtChanges_iff (hc : c ≤ 24 * 60) (hs : opening tz o s ≤ s + tz s) :
    InsideAtChanges tz o c s e ↔ ∀ t ∈ Set.Ico s e, Inside tz o c s t := by
  constructor
  · rintro h t ⟨hst, hte⟩
    exact (inside_iff hc).2 ⟨opening_le hc hs h hst hte, lt_closing hc (by omega) h (by omega) hst⟩
  · intro h x hsx hxe _
    exact ⟨h (x - 1) ⟨by omega, by omega⟩, fun hlt => h x ⟨hsx.le, hlt⟩⟩

theorem insideAtChanges_iff_of_steady (hc : c ≤ 24 * 60) (hs : opening tz o s ≤ s + tz s) (hse : s < e)
    (h : Steady tz s e) : InsideAtChanges tz o c s e ↔ e + tz e ≤ closing tz c s := by
  have hse' : s ≤ e - 1 := by omega
  have hlast : tz (e - 1) = tz e := (h (e - 1) hse' (Int.sub_le_self e (by decide))).trans (h e hse.le le_rfl).symm
  constructor
  · intro hin
    have hend := ((inside_iff hc).1 (hin e hse le_rfl (.inl rfl)).1).2
    omega
  · intro hend
    rw [insideAtChanges_iff hc hs]
    rintro t ⟨hst, hte⟩
    have ht := h t hst hte.le
    have he := h e hse.le le_rfl
    rw [inside_iff hc]
    omega

end Instants

/-! ### Accepted windows -/

section Accepted

variable {env : Env} {r : Resource} {oh : OperatingHours} {n : Option OperatingHours} {start finish : Instant}

theorem hhmmToMin_lt {v : String} {m : ℕ} (h : hhmmToMin v = some m) : m < 24 * 60 := by
  unfold hhmmToMin at h
  split at h
  · simp only [Option.bind_eq_bind, Option.bind_eq_some_iff, Bool.and_eq_true, decide_eq_true_eq] at h
    obtain ⟨a, -, b, -, c, -, d, -, h⟩ := h
    split_ifs at h with hrange
    obtain rfl := Option.some.inj h
    omega
  · cases h

theorem weekday_lt (tz : Zone) (t : Instant) : (utcToZonedWallClock tz t).weekday < 7 := by
  have h : ∀ d : ℤ, ((d + 4) % 7).toNat < 7 := by omega
  exact h _

/-- The hours of the room on a weekday. -/
def HoursOn (r : Resource) (weekday : ℕ) (o c : ℕ) : Prop :=
  ∃ oh win, r.operatingHours = some oh ∧ windowForWeekday oh weekday = some win ∧
    hhmmToMin win.openAt = some o ∧ hhmmToMin win.closeAt = some c

theorem openDuring_of_gate (hoh : r.operatingHours = some oh) (hnorm : normalizeOperatingHours (some oh) = .ok n)
    (hacc : gate env r start finish = .ok ()) :
    ∃ s e, (mapAllDayToOperatingHours env r.tenantId r start finish).start = some s ∧
      (mapAllDayToOperatingHours env r.tenantId r start finish).finish = some e ∧ OpenDuring env r s e := by
  cases hwin : windowForWeekday oh (utcToZonedWallClock (env.timezone r.tenantId) start).weekday with
  | none => exact absurd hacc (gate_closed hoh hwin)
  | some win =>
    have hbook := (gate_iff hoh hwin).1 hacc
    by_cases hall : WholeDay (utcToZonedWallClock (env.timezone r.tenantId) start)
        (utcToZonedWallClock (env.timezone r.tenantId) finish)
    · obtain ⟨o, c, ho, hc, -⟩ := written_of_normalize hnorm (weekday_lt _ _) hwin
      rw [bookable_of_wholeDay hall, (read_of_hhmmToMin ho).2, (read_of_hhmmToMin hc).2] at hbook
      rw [mapAllDay_of_open hoh hwin hall, (read_of_hhmmToMin ho).2, (read_of_hhmmToMin hc).2]
      exact ⟨_, _, rfl, rfl, hbook⟩
    · rw [mapAllDay_of_not_wholeDay hall]
      exact ⟨start, finish, rfl, rfl, (bookable_of_not_wholeDay hall).1 hbook⟩

/-- **Opening hours.** An accepted booking of a room with regular hours lies in the hours of its first day at every
instant, if and only if the clocks show a time in these hours just before its end, and just before and at every change
of the clocks in between. While the clocks are not changed, this says that it does not end after the closing time, be
it by a second. -/
theorem accepted_inside_iff (hoh : r.operatingHours = some oh) (hnorm : normalizeOperatingHours (some oh) = .ok n)
    (hacc : gate env r start finish = .ok ()) :
    ∃ s e o c, (mapAllDayToOperatingHours env r.tenantId r start finish).start = some s ∧
      (mapAllDayToOperatingHours env r.tenantId r start finish).finish = some e ∧
      HoursOn r (utcToZonedWallClock (env.timezone r.tenantId) s).weekday o c ∧
      ((∀ t ∈ Set.Ico s e, Inside (env.timezone r.tenantId) o c s t) ↔
        InsideAtChanges (env.timezone r.tenantId) o c s e) ∧
      (s < e → Steady (env.timezone r.tenantId) s e → (InsideAtChanges (env.timezone r.tenantId) o c s e ↔
        e + env.timezone r.tenantId e ≤ closing (env.timezone r.tenantId) c s)) := by
  obtain ⟨s, e, hs, he, hopen⟩ := openDuring_of_gate hoh hnorm hacc
  obtain ⟨win, hwin, -⟩ := hopen oh hoh
  obtain ⟨o, c, ho, hc, hlt⟩ := written_of_normalize hnorm (weekday_lt _ _) hwin
  have hc24 : c ≤ 24 * 60 := (hhmmToMin_lt hc).le
  have hstart : opening (env.timezone r.tenantId) o s ≤ s + env.timezone r.tenantId s := by
    have h : ∀ shown : ℤ, o ≤ (shown % 86400000 / 60000).toNat →
        shown / 86400000 * 86400000 + o * 60000 ≤ shown := by omega
    exact h _ ((openDuring_written hoh hwin ho hc hlt).1 hopen).2.1
  exact ⟨s, e, o, c, hs, he, ⟨oh, win, hoh, hwin, ho, hc⟩, (insideAtChanges_iff hc24 hstart).symm,
    insideAtChanges_iff_of_steady hc24 hstart⟩

end Accepted

/-! ### Half a minute after closing time -/

def nineToSix : Resource :=
  { id := "r", tenantId := "t", operatingHours := some { openAt := some "09:00", closeAt := some "18:00" } }

def utcOffice : Env := office ⟨[nineToSix], by decide⟩ .empty .empty

/-- The last hour before closing time. -/
theorem accepted_inside_iff_hour : Set.Ico 61200000 64800000 ⊆
    {t | Inside (utcOffice.timezone "t") (9 * 60) (18 * 60) 61200000 t} := by
  obtain ⟨s, e, o, c, hs, he, ⟨oh, win, hoh, hwin, ho, hc⟩, hiff, hsteady⟩ :=
    @accepted_inside_iff utcOffice nineToSix _ _ 61200000 64800000 rfl rfl (by decide +kernel)
  obtain rfl : 61200000 = s := Option.some.inj hs
  obtain rfl : 64800000 = e := Option.some.inj he
  obtain rfl := Option.some.inj hoh
  obtain rfl : ⟨"09:00", "18:00"⟩ = win := Option.some.inj hwin
  obtain rfl : 9 * 60 = o := Option.some.inj ho
  obtain rfl : 18 * 60 = c := Option.some.inj hc
  exact hiff.2 ((hsteady (by decide) fun _ _ _ => rfl).2 (by decide +kernel))

/-- An hour and a half minute is booked up to half a minute after six. -/
theorem half_minute_over : (∃ n, normalizeOperatingHours nineToSix.operatingHours = .ok n) ∧
    gate utcOffice nineToSix 61200000 64830000 = .ok () ∧
    ¬ Inside (utcOffice.timezone "t") (9 * 60) (18 * 60) 61200000 64815000 := by
  refine ⟨⟨_, rfl⟩, by decide +kernel, fun h => ?_⟩
  exact absurd h.2.2 (by decide +kernel)

end BookingSystem.Contracts.OpenInstants
