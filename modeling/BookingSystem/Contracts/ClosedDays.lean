import BookingSystem.Contracts.Kiosk

/-!
# Closed days

`validate` lists the days from that of the start to that of the end and looks each of them up in the blackouts and the
holidays. A window occupies a day if the clocks show it at some instant from the start on and before the end. Whether
the two come to the same is a matter of the window and the clocks alone, and not of the days that are closed.
-/

namespace BookingSystem.Contracts.ClosedDays

open Base Model Contracts.Kiosk

/-! ### The days that are listed -/

section Days

variable (tz : Zone) (start finish : Instant)

def firstDay : Day := (utcToZonedWallClock tz start).dateStr

/-- The last day that is listed, unless the list gets too long: that of the end, or the day before if the end is in the
first minute of another day than the first. -/
def lastDay : Day :=
  let e := utcToZonedWallClock tz finish
  if e.minutes = 0 ∧ e.dateStr ≠ firstDay tz start then e.dateStr - 1 else e.dateStr

/-- The clocks show the day at some instant of the window. -/
def Occupied (d : Day) : Prop := ∃ t ∈ Set.Ico start finish, (utcToZonedWallClock tz t).dateStr = d

/-- The days that the clocks show during the window are those from the first to the last, and 366 at most. -/
structure DaysKept : Prop where
  first : ∀ d, Occupied tz start finish d → firstDay tz start ≤ d
  last : ∀ d, Occupied tz start finish d → d ≤ lastDay tz start finish
  atMost : ∀ d, Occupied tz start finish d → d < firstDay tz start + 366
  noneSkipped : ∀ d, firstDay tz start ≤ d → d ≤ lastDay tz start finish → d < firstDay tz start + 366 →
    Occupied tz start finish d

/-- The clocks are not changed from the start to the end. -/
def Steady : Prop := ∀ t, start ≤ t → t ≤ finish → tz t = tz start

variable {tz start finish}

theorem mem_daysUpTo {n : ℕ} {cur last d : Day} :
    d ∈ BookingValidator.daysUpTo n cur last ↔ cur ≤ d ∧ d ≤ last ∧ d < cur + n := by
  induction n generalizing cur with
  | zero =>
    simp only [BookingValidator.daysUpTo, List.not_mem_nil, false_iff]
    unfold Day at *
    omega
  | succ n ih =>
    unfold BookingValidator.daysUpTo
    split_ifs with hle hlast
    · simp only [List.mem_cons, List.not_mem_nil, or_false]
      unfold Day at *
      omega
    · rw [List.mem_cons, ih]
      unfold Day at *
      omega
    · simp only [List.not_mem_nil, false_iff]
      unfold Day at *
      omega

theorem mem_localDatesSpanned {d : Day} : d ∈ BookingValidator.localDatesSpanned start finish tz ↔
    firstDay tz start ≤ d ∧ d ≤ lastDay tz start finish ∧ d < firstDay tz start + 366 := mem_daysUpTo

theorem daysKept_iff : DaysKept tz start finish ↔
    ∀ d, d ∈ BookingValidator.localDatesSpanned start finish tz ↔ Occupied tz start finish d := by
  simp only [mem_localDatesSpanned]
  constructor
  · rintro ⟨hfirst, hlast, hmost, hnone⟩ d
    exact ⟨fun h => hnone d h.1 h.2.1 h.2.2, fun h => ⟨hfirst d h, hlast d h, hmost d h⟩⟩
  · intro h
    exact ⟨fun d hd => ((h d).2 hd).1, fun d hd => ((h d).2 hd).2.1, fun d hd => ((h d).2 hd).2.2,
      fun d h₁ h₂ h₃ => (h d).1 ⟨h₁, h₂, h₃⟩⟩

theorem occupied_iff_of_steady (h : Steady tz start finish) {d : Day} : Occupied tz start finish d ↔
    start < finish ∧ (start + tz start) / msPerDay ≤ d ∧ d ≤ (finish - 1 + tz start) / msPerDay := by
  have hday : ∀ t ∈ Set.Ico start finish, (utcToZonedWallClock tz t).dateStr = (t + tz start) / msPerDay := by
    intro t ht
    rw [utcToZonedWallClock, h t ht.1 ht.2.le]
  unfold Occupied
  constructor
  · rintro ⟨t, ht, rfl⟩
    rw [hday t ht]
    obtain ⟨hlow, hhigh⟩ := ht
    unfold msPerDay Instant Day at *
    omega
  · rintro ⟨hlt, hlow, hhigh⟩
    -- the first instant of the day, or the start if that is later
    have hmem : max start (d * msPerDay - tz start) ∈ Set.Ico start finish := by
      refine ⟨le_max_left _ _, max_lt hlt ?_⟩
      unfold msPerDay Instant Day at *
      omega
    refine ⟨_, hmem, ?_⟩
    rw [hday _ hmem]
    unfold msPerDay Instant Day at *
    omega

theorem cut_iff {first last last' : ℤ} (h : first ≤ last') :
    (∀ d, first ≤ d ∧ d ≤ last ∧ d < first + 366 ↔ first ≤ d ∧ d ≤ last') ↔ last' = min last (first + 365) := by
  constructor
  · intro hd
    have hin := (hd last').2 ⟨h, le_rfl⟩
    have hout := mt (hd (last' + 1)).1
    omega
  · rintro rfl d
    omega

theorem daysKept_iff_of_steady (hlt : start < finish) (h : Steady tz start finish) : DaysKept tz start finish ↔
    ((utcToZonedWallClock tz finish).minutes = 0 → (utcToZonedWallClock tz finish).dateStr ≠ firstDay tz start →
        (finish + tz finish) % msPerDay = 0) ∧
      lastDay tz start finish < firstDay tz start + 366 := by
  have harith : ∀ a b last : ℤ, a < b →
      last = (if (b % 86400000 / 60000).toNat = 0 ∧ b / 86400000 ≠ a / 86400000 then b / 86400000 - 1
        else b / 86400000) →
      ((b - 1) / 86400000 = min last (a / 86400000 + 365) ↔
        ((b % 86400000 / 60000).toNat = 0 → b / 86400000 ≠ a / 86400000 → b % 86400000 = 0) ∧
          last < a / 86400000 + 366) := by
    intro a b last hab hlast
    split_ifs at hlast with hminute <;> omega
  have hle : (start + tz start) / msPerDay ≤ (finish - 1 + tz start) / msPerDay := by
    unfold msPerDay Instant at *
    omega
  rw [daysKept_iff]
  simp only [mem_localDatesSpanned, occupied_iff_of_steady h, hlt, true_and]
  refine (cut_iff hle).trans ?_
  have hfin := h finish hlt.le le_rfl
  have hsub : ∀ f o : ℤ, f - 1 + o = f + o - 1 := by omega
  have hbefore : finish - 1 + tz start = finish + tz finish - 1 := by
    rw [hfin]
    exact hsub _ _
  have hshown : start + tz start < finish + tz finish := by
    rw [hfin]
    exact Int.add_lt_add_right hlt _
  rw [hbefore]
  exact harith (start + tz start) (finish + tz finish) _ hshown rfl

end Days

/-! ### The check -/

section Check

variable (env : Env) (r : Resource) (now : Instant) (allDay : Bool) (start finish : Instant)

/-- The rules besides the closed days. -/
structure OtherRules : Prop where
  past : now - BookingValidator.pastGraceMs ≤ start
  horizon : start ≤ now + horizonDays env r * msPerDay
  length : allDay = true ∨
    (minMinutes env r * msPerMinute ≤ finish - start ∧ finish - start ≤ maxMinutes env r * msPerMinute)

/-- The window is rejected if and only if a day that it occupies is closed. -/
def Exact : Prop :=
  BookingValidator.validate env r.tenantId start finish now r.ruleOverrides r.region allDay ≠ .ok () ↔
    ∃ d, Occupied (env.timezone r.tenantId) start finish d ∧ ClosedOn env r d

def oneBlackout (tz : Zone) (d : Day) : Env :=
  { office .empty .empty .empty with
    customization := fun _ => { blackoutDates := [d] }
    zones := fun _ => some tz }

def room : Resource := { id := "r", tenantId := "t" }

variable {env r now allDay start finish} {tz : Zone}

theorem rejects_iff (hlt : start < finish) (h : OtherRules env r now allDay start finish) :
    BookingValidator.validate env r.tenantId start finish now r.ruleOverrides r.region allDay ≠ .ok () ↔
      ∃ d ∈ BookingValidator.localDatesSpanned start finish (env.timezone r.tenantId), ClosedOn env r d := by
  rw [Ne, validate_iff]
  constructor
  · intro hnot
    by_contra hclosed
    exact hnot ⟨hlt, h.past, h.horizon, h.length, fun d hd hc => hclosed ⟨d, hd, hc⟩⟩
  · rintro ⟨d, hd, hc⟩ hrules
    exact hrules.days d hd hc

theorem timezone_oneBlackout (d : Day) : (oneBlackout tz d).timezone room.tenantId = tz := rfl

theorem closedOn_oneBlackout {d d' : Day} : ClosedOn (oneBlackout tz d) room d' ↔ d' = d := by
  constructor
  · rintro (h | ⟨_, h, -⟩)
    · exact List.mem_singleton.1 h
    · cases h
  · rintro rfl
    exact .inl (List.mem_singleton_self d')

theorem otherRules_oneBlackout {d : Day} : OtherRules (oneBlackout tz d) room start true start finish where
  past := by
    unfold BookingValidator.pastGraceMs
    exact Int.sub_le_self _ (by decide)
  horizon := by
    have h : ∀ s : ℤ, s ≤ s + 180 * 86400000 := by omega
    exact h start
  length := .inl rfl

/-- **Closed days.** The check of a window is exact, whichever days are closed, if and only if the days that the clocks
show during the window run from that of the start to that of the end without a gap, 366 at most, where an end in the
first minute of another day counts to the day before. While the clocks are not changed, this says that such an end is
at midnight, and that there are not more days. -/
theorem exact_iff (hlt : start < finish) :
    ((∀ (env : Env) (r : Resource) (now : Instant) (allDay : Bool), env.timezone r.tenantId = tz →
        OtherRules env r now allDay start finish → Exact env r now allDay start finish) ↔ DaysKept tz start finish) ∧
      (Steady tz start finish → (DaysKept tz start finish ↔
        ((utcToZonedWallClock tz finish).minutes = 0 → (utcToZonedWallClock tz finish).dateStr ≠ firstDay tz start →
          (finish + tz finish) % msPerDay = 0) ∧
        lastDay tz start finish < firstDay tz start + 366)) := by
  refine ⟨⟨fun hall => daysKept_iff.2 fun d => ?_, fun hkept env r now allDay htz hrules => ?_⟩,
    daysKept_iff_of_steady hlt⟩
  · -- the one day `d` is closed
    have hd := hall (oneBlackout tz d) room start true rfl otherRules_oneBlackout
    rw [Exact, rejects_iff hlt otherRules_oneBlackout] at hd
    simpa only [closedOn_oneBlackout, exists_eq_right, timezone_oneBlackout] using hd
  · subst htz
    rw [Exact, rejects_iff hlt hrules]
    simp only [daysKept_iff.1 hkept]

end Check

/-! ### Half a minute past midnight -/

/-- A window of an hour is checked exactly. -/
theorem exact_iff_hour : Exact (oneBlackout (fun _ => 0) 0) room 0 true 0 3600000 := by
  have h := @exact_iff 0 3600000 (fun _ => 0) (by decide)
  refine h.1.2 ((h.2 fun _ _ _ => rfl).2 ⟨fun hmin => ?_, by decide⟩) _ room 0 true rfl otherRules_oneBlackout
  revert hmin
  decide

/-- A window ends half a minute after midnight, on a day that is blacked out, and is accepted. -/
theorem half_minute_missed : OtherRules (oneBlackout (fun _ => 0) 1) room 0 false 85200000 86430000 ∧
    ¬ Exact (oneBlackout (fun _ => 0) 1) room 0 false 85200000 86430000 := by
  refine ⟨⟨by decide, by decide, .inr (by decide)⟩, fun h => h.2 ⟨1, ⟨86400000, by decide, by decide⟩, ?_⟩ ?_⟩
  · exact closedOn_oneBlackout.2 rfl
  · rfl

end BookingSystem.Contracts.ClosedDays
