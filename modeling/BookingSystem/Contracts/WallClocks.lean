import BookingSystem.Model.Bookings

/-!
# Wall clocks and instants

`zonedTimeToUtc` takes the offset of the zone at a guess, the wall clock read as UTC, and not at the instant it looks
for. The two conversions are inverse to each other where these two offsets are the same, and nowhere else; so is the
shift of an occurrence by wall clocks, which is built from them.
-/

namespace BookingSystem.Contracts.WallClocks

open Base Model Model.BookingsService

/-- Every offset of the zone is a number of minutes. -/
def WholeMinutes (tz : Zone) : Prop := ∀ t, msPerMinute ∣ tz t

def asUtc (d : Day) (t : ℕ) : ℤ := d * msPerDay + t * msPerMinute

/-- The wall clock is shown at the instant, and at no other. -/
def Denotes (tz : Zone) (d : Day) (t : ℕ) (u : Instant) : Prop := ∀ v, v + tz v = asUtc d t ↔ v = u

/-- The instant found for a wall clock shows that wall clock. -/
def RoundTrips (tz : Zone) (d : Day) (t : ℕ) : Prop :=
  (utcToZonedWallClock tz (zonedTimeToUtc tz d t)).dateStr = d ∧
    (utcToZonedWallClock tz (zonedTimeToUtc tz d t)).minutes = t

section Clocks

variable {tz : Zone} {d : Day} {t : ℕ} {u v : Instant}

theorem zonedTimeToUtc_eq : zonedTimeToUtc tz d t = asUtc d t - tz (asUtc d t) := rfl

theorem clock_eq_iff (ht : t < 24 * 60) :
    ((utcToZonedWallClock tz u).dateStr = d ∧ (utcToZonedWallClock tz u).minutes = t) ↔
      asUtc d t ≤ u + tz u ∧ u + tz u < asUtc d t + msPerMinute := by
  have h : ∀ shown d : ℤ, (shown / 86400000 = d ∧ (shown % 86400000 / 60000).toNat = t) ↔
      d * 86400000 + t * 60000 ≤ shown ∧ shown < d * 86400000 + t * 60000 + 60000 := by omega
  exact h (u + tz u) d

theorem clock_eq_iff_of_dvd (hz : WholeMinutes tz) (hu : msPerMinute ∣ u) (ht : t < 24 * 60) :
    ((utcToZonedWallClock tz u).dateStr = d ∧ (utcToZonedWallClock tz u).minutes = t) ↔ u + tz u = asUtc d t := by
  have h : ∀ shown d : ℤ, 60000 ∣ shown →
      (d * 86400000 + t * 60000 ≤ shown ∧ shown < d * 86400000 + t * 60000 + 60000 ↔
        shown = d * 86400000 + t * 60000) := by omega
  rw [clock_eq_iff ht]
  exact h (u + tz u) d (Int.dvd_add hu (hz u))

theorem minutes_lt (tz : Zone) (u : Instant) : (utcToZonedWallClock tz u).minutes < 24 * 60 := by
  have h : ∀ shown : ℤ, (shown % 86400000 / 60000).toNat < 24 * 60 := by omega
  exact h (u + tz u)

theorem asUtc_clock (hz : WholeMinutes tz) (hu : msPerMinute ∣ u) :
    asUtc (utcToZonedWallClock tz u).dateStr (utcToZonedWallClock tz u).minutes = u + tz u :=
  ((clock_eq_iff_of_dvd hz hu (minutes_lt tz u)).1 ⟨rfl, rfl⟩).symm

theorem dvd_asUtc : msPerMinute ∣ asUtc d t := by
  have h : ∀ d : ℤ, (60000 : ℤ) ∣ d * 86400000 + t * 60000 := by omega
  exact h d

theorem dvd_zonedTimeToUtc (hz : WholeMinutes tz) : msPerMinute ∣ zonedTimeToUtc tz d t :=
  Int.dvd_sub dvd_asUtc (hz _)

theorem zonedTimeToUtc_eq_iff (hu : u + tz u = asUtc d t) : zonedTimeToUtc tz d t = u ↔ tz (asUtc d t) = tz u := by
  have h : ∀ u a b : ℤ, u + b - a = u ↔ a = b := by omega
  rw [zonedTimeToUtc_eq, ← hu]
  exact h u _ _

theorem roundTrips_iff (hz : WholeMinutes tz) (ht : t < 24 * 60) (hu : Denotes tz d t u) :
    RoundTrips tz d t ↔ tz (asUtc d t) = tz u := by
  rw [RoundTrips, clock_eq_iff_of_dvd hz (dvd_zonedTimeToUtc hz) ht, hu]
  exact zonedTimeToUtc_eq_iff ((hu u).2 rfl)

theorem applyWallShift_wallShift (old new : Instant) : applyWallShift tz old (wallShift tz old new) =
    zonedTimeToUtc tz (utcToZonedWallClock tz new).dateStr (utcToZonedWallClock tz new).minutes := by
  rw [applyWallShift, wallShift]
  have h : ∀ o n : ℤ, o + (n - o) = n := by omega
  exact congrArg (zonedTimeToUtc tz · _) (h _ _)

theorem shift_iff (hz : WholeMinutes tz) (hv : msPerMinute ∣ v) :
    applyWallShift tz u (wallShift tz u v) = v ↔ tz (v + tz v) = tz v := by
  rw [applyWallShift_wallShift, zonedTimeToUtc_eq_iff (asUtc_clock hz hv).symm, asUtc_clock hz hv]

/-- **Conversions.** A wall clock that stands for one instant is shown again at the instant that is found for it, if
and only if the offset at that instant is the offset at the wall clock read as UTC; and the shift from one instant to
another leads there if and only if this holds of the other. -/
theorem conversions_iff (hz : WholeMinutes tz) :
    (∀ d t u, t < 24 * 60 → Denotes tz d t u → (RoundTrips tz d t ↔ tz (asUtc d t) = tz u)) ∧
      ∀ old new, msPerMinute ∣ new →
        (applyWallShift tz old (wallShift tz old new) = new ↔ tz (new + tz new) = tz new) :=
  ⟨fun _ _ _ ht hu => roundTrips_iff hz ht hu, fun _ _ hnew => shift_iff hz hnew⟩

end Clocks

/-! ### A spring morning -/

def newYork : Zone := fun t => if 1772953200000 ≤ t ∧ t < 1793512800000 then -14400000 else -18000000

theorem newYork_wholeMinutes : WholeMinutes newYork := by
  intro t
  unfold newYork msPerMinute
  split <;> decide

theorem denotes_halfPastThree : Denotes newYork 20520 210 1772955000000 := by
  intro v
  have h : ∀ v o : ℤ, o = (if 1772953200000 ≤ v ∧ v < 1793512800000 then -14400000 else -18000000) →
      (v + o = 1772940600000 ↔ v = 1772955000000) := by
    intro v o ho
    split at ho <;> omega
  exact h v (newYork v) rfl

/-- The day before, all four are the same. -/
theorem conversions_iff_saturday : RoundTrips newYork 20519 210 ∧
    applyWallShift newYork 1772872200000 (wallShift newYork 1772872200000 1772868600000) = 1772868600000 := by
  have h := conversions_iff newYork_wholeMinutes
  refine ⟨(h.1 20519 210 1772872200000 (by decide) ?_).2 (by decide), (h.2 _ _ (by decide)).2 (by decide)⟩
  intro v
  have h : ∀ v o : ℤ, o = (if 1772953200000 ≤ v ∧ v < 1793512800000 then -14400000 else -18000000) →
      (v + o = 1772854200000 ↔ v = 1772872200000) := by
    intro v o ho
    split at ho <;> omega
  exact h v (newYork v) rfl

/-- Half past three is put at half past four, and a series that is moved to half past three goes there too. -/
theorem halfPastThree_lost : Denotes newYork 20520 210 1772955000000 ∧ ¬ RoundTrips newYork 20520 210 ∧
    applyWallShift newYork 1772951400000 (wallShift newYork 1772951400000 1772955000000) = 1772958600000 :=
  ⟨denotes_halfPastThree, by unfold RoundTrips; decide, by decide⟩

end BookingSystem.Contracts.WallClocks
