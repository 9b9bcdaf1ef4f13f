import BookingSystem.Contracts.SeriesInUtc
import Mathlib.Data.String.Basic
import Mathlib.Data.Int.Interval
import Mathlib.Data.Finset.Dedup

/-!
# Weekly series

What a weekly series is (`Recurs`), apart from how `expand` goes about it: the instants from the first start on that
have its time of day, fall on one of the weekdays, and lie a number of intervals of weeks after its week. The loop of
`expand` compares the midnight of a day with the first start, and sets the time without its seconds, and after the last
date it comes to Invalid Dates; it finds the series for every request if and only if `Plain` and `InRange` hold
(`weekly_exact_iff`).
-/

namespace BookingSystem.Contracts.WeeklySeries

open Base Model Model.RecurrenceService Contracts.Recurrence
open Contracts.SeriesInUtc

section Series

variable (dto : CreateRecurringDto) (firstStart : ℤ)

def weekdays : List ℤ := if dto.byday.isEmpty then [weekdayOf firstStart] else dto.byday

def weekOf (t : ℤ) : ℤ := (dayOf t + 4) / 7

/-- The instant belongs to the series, which goes on for ever. -/
structure Recurs (t : ℤ) : Prop where
  notBefore : firstStart ≤ t
  time : timeInDay t = timeInDay firstStart
  weekday : weekdayOf t ∈ weekdays dto firstStart
  week : intervalOf dto ∣ weekOf t - weekOf firstStart

/-- No weekday is listed twice, the first start is at a whole minute, and at midnight unless its day is none of the
series. -/
structure Plain : Prop where
  nodup : dto.byday.Nodup
  wholeMinute : timeInDay firstStart % 60000 = 0
  first : timeInDay firstStart = 0 ∨ weekdayOf firstStart ∉ weekdays dto firstStart

/-- The week of the first start begins at a date, and the first hundred instants of the series are dates. -/
structure InRange : Prop where
  week : IsDate ((dayOf firstStart - weekdayOf firstStart) * dayMs)
  starts : ∀ starts, FirstOf (Recurs dto firstStart) maxOccurrences starts → ∀ t ∈ starts, IsDate t

def dayIn (k : ℕ) (wd : ℤ) : ℤ := dayOf firstStart - weekdayOf firstStart + k * (7 * intervalOf dto) + wd

def minuteOf (t : ℤ) : ℤ := timeInDay t - timeInDay t % 60000

/-- The start that the loop comes to in a week for a weekday, in a calendar without an end. -/
def startIn (k : ℕ) (wd : ℤ) : Option ℤ :=
  if dayIn dto firstStart k wd * dayMs < firstStart then none
  else some (dayIn dto firstStart k wd * dayMs + minuteOf firstStart)

def starts : List ℤ :=
  rounds (startIn dto firstStart) (· + 1) (weeklyDays utcServer dto firstStart) (maxExpansionIterations + 1) 0

def weekStart (k : ℕ) : Date :=
  (fun w => addDays utcServer w (times 7 (intervalOf dto)))^[k] (startOfWeek utcServer firstStart)

variable {dto firstStart}

/-! ### The starts that the loop comes to -/

theorem starts_eq : starts dto firstStart =
    (List.range (maxExpansionIterations + 1) ×ˢ weeklyDays utcServer dto firstStart).filterMap
      fun x => startIn dto firstStart x.1 x.2 := by
  rw [starts, rounds_eq_filterMap]
  refine congrArg (List.filterMap · _) (funext fun x => ?_)
  rw [iterate_next, Nat.zero_add]

theorem mem_weeklyDays {wd : ℤ} : wd ∈ weeklyDays utcServer dto firstStart ↔ wd ∈ weekdays dto firstStart := by
  unfold weeklyDays weekdays
  split
  · rw [TimeZone.getDay, shown_utcServer]
  · exact List.mem_insertionSort _

theorem startIn_eq_some {k : ℕ} {wd t : ℤ} : startIn dto firstStart k wd = some t ↔
    firstStart ≤ dayIn dto firstStart k wd * dayMs ∧ t = dayIn dto firstStart k wd * dayMs + minuteOf firstStart := by
  rw [startIn, Option.ite_none_left_eq_some, Option.some.injEq, not_lt, @eq_comm _ t]

theorem mem_starts {t : ℤ} : t ∈ starts dto firstStart ↔
    ∃ k < maxExpansionIterations + 1, ∃ wd ∈ weekdays dto firstStart,
      firstStart ≤ dayIn dto firstStart k wd * dayMs ∧ t = dayIn dto firstStart k wd * dayMs + minuteOf firstStart := by
  rw [starts, mem_rounds]
  refine exists_congr fun k => and_congr_right fun _ => exists_congr fun wd => ?_
  rw [mem_weeklyDays, iterate_next, Nat.zero_add, startIn_eq_some]

/-! ### The dates that the loop comes to -/

theorem timeInDay_range (t : ℤ) : 0 ≤ timeInDay t ∧ timeInDay t < dayMs :=
  ⟨Int.emod_nonneg _ (by decide), Int.emod_lt_of_pos _ (by decide)⟩

theorem dayIn_zero (k : ℕ) : dayIn dto firstStart k 0 * dayMs =
    (dayOf firstStart - weekdayOf firstStart) * dayMs + k * (7 * intervalOf dto) * dayMs := by
  rw [dayIn]
  ring

theorem times_seven {m : ℤ} (h : times 7 (intervalOf dto) = some m) : m = 7 * intervalOf dto := times_eq_some h

theorem weekStart_eq {k : ℕ} {w : ℤ} (h : weekStart dto firstStart k = some w) :
    w = dayIn dto firstStart k 0 * dayMs := by
  have hfirst : ∀ x, startOfWeek utcServer firstStart = some x →
      x = (dayOf firstStart - weekdayOf firstStart) * dayMs := by
    intro x hx
    rw [startOfWeek_utcServer] at hx
    obtain ⟨-, -, hx⟩ := Option.bind_eq_some_iff.1 hx
    exact (timeClip_eq_some.1 hx).2.symm
  rw [iterate_addDays (fun _ => times_seven) hfirst h, dayIn_zero]

theorem weekStart_of_isDate (hs : IsDate firstStart)
    (hweek : IsDate ((dayOf firstStart - weekdayOf firstStart) * dayMs))
    {k : ℕ} (h : IsDate (dayIn dto firstStart k 0 * dayMs)) :
    weekStart dto firstStart k = some (dayIn dto firstStart k 0 * dayMs) := by
  have htime := timeInDay_range firstStart
  have hsplit := dayOf_add_timeInDay firstStart
  have hwd : 0 ≤ weekdayOf firstStart := Int.emod_nonneg _ (by decide)
  have hback : IsDate (firstStart - weekdayOf firstStart * dayMs) := by
    rw [sub_mul] at hweek
    unfold dayMs at *
    exact ⟨by omega, by omega⟩
  have hfirst : startOfWeek utcServer firstStart = some ((dayOf firstStart - weekdayOf firstStart) * dayMs) := by
    rw [startOfWeek_utcServer, timeClip, if_pos hback]
    exact if_pos hweek
  have hpos := intervalOf_pos dto
  rw [dayIn_zero] at h ⊢
  rw [weekStart, hfirst, iterate_of_isDate (by omega) ?_ hweek h]
  rcases Nat.eq_zero_or_pos k with hk | hk
  · exact .inl hk
  · refine .inr (if_pos ?_)
    have hmul : 7 * intervalOf dto ≤ k * (7 * intervalOf dto) := le_mul_of_one_le_left (by omega) (by omega)
    have hlarge : (17280000001 : ℤ) < infinity := by decide +kernel
    unfold dayMs at *
    omega

theorem weeklyDate_utcServer (k : ℕ) (wd : ℤ) : weeklyDate utcServer firstStart (weekStart dto firstStart k) wd =
    if (weekStart dto firstStart k).isSome ∧ IsDate (dayIn dto firstStart k wd * dayMs) then
      (startIn dto firstStart k wd).map timeClip
    else some none := by
  have hsum : dayIn dto firstStart k 0 * dayMs + wd * dayMs = dayIn dto firstStart k wd * dayMs := by
    unfold dayIn
    ring
  have htime : utcServer.getHours firstStart * 3600000 + utcServer.getMinutes firstStart * 60000 =
      minuteOf firstStart := by
    simp only [TimeZone.getHours, TimeZone.getMinutes, shown_utcServer, minuteOf]
    omega
  have hday : dayOf (dayIn dto firstStart k wd * dayMs) = dayIn dto firstStart k wd :=
    Int.mul_ediv_cancel _ (by decide)
  rw [weeklyDate, addDays_utcServer]
  cases hw : weekStart dto firstStart k with
  | none => simp [isBefore]
  | some w =>
    rw [weekStart_eq hw]
    simp only [Option.bind_some, hsum, Option.isSome_some, true_and]
    by_cases hdate : IsDate (dayIn dto firstStart k wd * dayMs)
    · rw [if_pos hdate, timeClip, if_pos hdate, startIn]
      simp only [isBefore, Option.any_some, decide_eq_true_eq, Option.bind_some, TimeZone.setHours, TimeZone.withHours,
        utc_utcServer, shown_utcServer, hday, htime]
      split <;> rfl
    · rw [if_neg hdate, timeClip, if_neg hdate]
      rfl

theorem dates_weekly (hw : dto.pattern = .weekly) : dates utcServer dto firstStart =
    (List.range (maxExpansionIterations + 1) ×ˢ weeklyDays utcServer dto firstStart).filterMap
      fun x => weeklyDate utcServer firstStart (weekStart dto firstStart x.1) x.2 := by
  rw [dates, named_weekly hw, ← rounds_map weeklyDate_eq, rounds_eq_filterMap]
  rfl

/-! ### Days and weeks -/

abbrev InWeek (dto : CreateRecurringDto) : Prop := ∀ d ∈ dto.byday, 0 ≤ d ∧ d < 7

theorem weekdays_range (hrange : InWeek dto) {wd : ℤ} (h : wd ∈ weekdays dto firstStart) :
    0 ≤ wd ∧ wd < 7 := by
  unfold weekdays at h
  split at h
  · rw [List.mem_singleton.1 h, weekdayOf]
    omega
  · exact hrange wd h

theorem weekdays_ne_nil : weekdays dto firstStart ≠ [] := by
  unfold weekdays
  split
  · exact List.cons_ne_nil _ _
  · rename_i h
    exact fun hnil => h (List.isEmpty_iff.2 hnil)

theorem dayIn_eq (k : ℕ) (wd : ℤ) :
    dayIn dto firstStart k wd = 7 * (weekOf firstStart + k * intervalOf dto) + wd - 4 := by
  have hweeks : (k : ℤ) * (7 * intervalOf dto) = 7 * (k * intervalOf dto) := by ring
  rw [dayIn, hweeks, weekdayOf, weekOf]
  omega

theorem dayOf_add_time {d x : ℤ} (h0 : 0 ≤ x) (h1 : x < dayMs) : dayOf (d * dayMs + x) = d := by
  rw [dayOf_add_days, dayOf, Int.ediv_eq_zero_of_lt h0 h1, add_zero]

/-- The instants of the series, by their weeks and weekdays. -/
theorem recurs_iff (hrange : InWeek dto) {t : ℤ} : Recurs dto firstStart t ↔
    ∃ (k : ℕ), ∃ wd ∈ weekdays dto firstStart,
      firstStart ≤ t ∧ t = dayIn dto firstStart k wd * dayMs + timeInDay firstStart := by
  have htime := timeInDay_range firstStart
  constructor
  · rintro ⟨hle, hsame, hwd, c, hweek⟩
    have hlater : weekOf firstStart ≤ weekOf t := by
      unfold weekOf
      have hday : dayOf firstStart ≤ dayOf t := Int.ediv_le_ediv (by decide) hle
      omega
    have hc : 0 ≤ c := by
      by_contra hneg
      have := Int.mul_neg_of_pos_of_neg (intervalOf_pos dto) (not_le.1 hneg)
      omega
    refine ⟨c.toNat, weekdayOf t, hwd, hle, ?_⟩
    have hday : dayOf t = dayIn dto firstStart c.toNat (weekdayOf t) := by
      have hweeks : weekOf firstStart + c * intervalOf dto = weekOf t := by
        rw [mul_comm]
        omega
      rw [dayIn_eq, Int.toNat_of_nonneg hc, hweeks, weekdayOf, weekOf]
      omega
    rw [← hday, ← hsame, dayOf_add_timeInDay]
  · rintro ⟨k, wd, hwd, hle, rfl⟩
    have hwd' := weekdays_range hrange hwd
    have hday := @dayOf_add_time (dayIn dto firstStart k wd) _ htime.1 htime.2
    refine ⟨hle, ?_, ?_, ⟨k, ?_⟩⟩
    · rw [timeInDay_add_days, timeInDay_timeInDay]
    · have hwd'' : weekdayOf (dayIn dto firstStart k wd * dayMs + timeInDay firstStart) = wd := by
        rw [weekdayOf, hday, dayIn_eq]
        omega
      rwa [hwd'']
    · have hweeks : (k : ℤ) * intervalOf dto = intervalOf dto * k := mul_comm _ _
      rw [weekOf, hday, dayIn_eq, hweeks]
      omega

theorem not_before_iff (hrange : InWeek dto) (hplain : Plain dto firstStart) (k : ℕ) {wd : ℤ}
    (hwd : wd ∈ weekdays dto firstStart) : firstStart ≤ dayIn dto firstStart k wd * dayMs ↔
      firstStart ≤ dayIn dto firstStart k wd * dayMs + timeInDay firstStart := by
  have htime := timeInDay_range firstStart
  have hsplit := dayOf_add_timeInDay firstStart
  constructor
  · intro h
    omega
  · intro h
    rcases hplain.first with hzero | hother
    · omega
    · have hne : dayIn dto firstStart k wd ≠ dayOf firstStart := by
        intro heq
        have hwd' := weekdays_range hrange hwd
        have hday := @dayIn_eq dto firstStart k wd
        refine hother ?_
        have hsame : weekdayOf firstStart = wd := by
          rw [weekdayOf, ← heq, hday]
          omega
        rwa [hsame]
      unfold dayMs at *
      omega

theorem mem_starts_iff (hrange : InWeek dto) (hplain : Plain dto firstStart) {t : ℤ} :
    t ∈ starts dto firstStart ↔ ∃ k < maxExpansionIterations + 1, ∃ wd ∈ weekdays dto firstStart,
      firstStart ≤ t ∧ t = dayIn dto firstStart k wd * dayMs + timeInDay firstStart := by
  have hminute : minuteOf firstStart = timeInDay firstStart := by
    rw [minuteOf, hplain.wholeMinute, sub_zero]
  rw [mem_starts]
  refine exists_congr fun k => and_congr_right fun _ => exists_congr fun wd => and_congr_right fun hwd => ?_
  rw [hminute, not_before_iff hrange hplain k hwd]
  constructor
  · rintro ⟨h, rfl⟩
    exact ⟨h, rfl⟩
  · rintro ⟨h, rfl⟩
    exact ⟨h, rfl⟩

theorem dayIn_mono (k : ℕ) {wd wd' : ℤ} (h : wd ≤ wd') :
    dayIn dto firstStart k wd * dayMs ≤ dayIn dto firstStart k wd' * dayMs := by
  unfold dayIn dayMs
  omega

theorem week_le (k : ℕ) {wd : ℤ} (h : 0 ≤ wd) :
    (dayOf firstStart - weekdayOf firstStart) * dayMs ≤ dayIn dto firstStart k wd * dayMs := by
  have hpos := mul_nonneg (Int.natCast_nonneg k) (intervalOf_pos dto).le
  have hweeks : (k : ℤ) * (7 * intervalOf dto) = 7 * (k * intervalOf dto) := by ring
  unfold dayIn dayMs
  omega

/-- **The loop.** -/
theorem comes_weekly (hw : dto.pattern = .weekly) (hrange : InWeek dto) (hs : IsDate firstStart) :
    Comes dto firstStart (List.range (maxExpansionIterations + 1) ×ˢ weeklyDays utcServer dto firstStart)
      (fun x => weeklyDate utcServer firstStart (weekStart dto firstStart x.1) x.2)
      (fun x => startIn dto firstStart x.1 x.2) IsDate
      (IsDate ((dayOf firstStart - weekdayOf firstStart) * dayMs)) where
  dates_eq := dates_weekly hw
  skipped x _ h := by
    rw [weeklyDate_utcServer] at h
    split at h
    · exact Option.map_eq_none_iff.1 h
    · cases h
  valid x _ t h := by
    rw [weeklyDate_utcServer] at h
    split at h
    · obtain ⟨u, hu, ht⟩ := Option.map_eq_some_iff.1 h
      obtain ⟨hdate, rfl⟩ := timeClip_eq_some.1 ht
      exact ⟨hu, hdate⟩
    · cases h
  before hweek x hx h := by
    have hwd := weekdays_range hrange (mem_weeklyDays.1 (List.mem_product.1 hx).2)
    have hbefore : dayIn dto firstStart x.1 x.2 * dayMs < firstStart := by
      by_contra hnot
      rw [startIn, if_neg hnot] at h
      cases h
    have hle := @dayIn_mono dto firstStart x.1 _ _ hwd.1
    have hfirst := @week_le dto firstStart x.1 0 le_rfl
    have hstart := weekStart_of_isDate hs hweek (show IsDate (dayIn dto firstStart x.1 0 * dayMs) from
      ⟨by omega, by omega⟩)
    rw [weeklyDate_utcServer, if_pos ⟨by rw [hstart]; rfl, by omega, by omega⟩, h]
    rfl
  reached hweek x hx t h ht := by
    have hwd := weekdays_range hrange (mem_weeklyDays.1 (List.mem_product.1 hx).2)
    obtain ⟨-, rfl⟩ := startIn_eq_some.1 h
    have hminute : 0 ≤ minuteOf firstStart := by
      have htime := timeInDay_range firstStart
      unfold minuteOf
      omega
    have hle := @dayIn_mono dto firstStart x.1 _ _ hwd.1
    have hfirst := @week_le dto firstStart x.1 0 le_rfl
    have hstart := weekStart_of_isDate hs hweek (show IsDate (dayIn dto firstStart x.1 0 * dayMs) from
      ⟨by omega, by omega⟩)
    rw [weeklyDate_utcServer, if_pos ⟨by rw [hstart]; rfl, by omega, by omega⟩, h, Option.map_some, timeClip, if_pos ht]

/-- A loop that comes to a date has begun with one. -/
theorem week_of_take {ts : List ℤ} (hw : dto.pattern = .weekly) (hrange : InWeek dto)
    (hs : IsDate firstStart) (hlong : maxOccurrences ≤ (starts dto firstStart).length)
    (htake : (dates utcServer dto firstStart).take maxOccurrences = ts.map some) :
    IsDate ((dayOf firstStart - weekdayOf firstStart) * dayMs) := by
  have hlen := (comes_weekly hw hrange hs).length_le
  rw [← starts_eq] at hlen
  have hts : ts ≠ [] := by
    rintro rfl
    have hnil := congrArg List.length htake
    rw [List.length_take_of_le (hlong.trans hlen), List.map_nil, List.length_nil] at hnil
    exact absurd hnil (by decide)
  obtain ⟨t, ht⟩ := List.exists_mem_of_ne_nil ts hts
  have hmem : some t ∈ dates utcServer dto firstStart :=
    List.mem_of_mem_take (htake ▸ List.mem_map_of_mem ht)
  rw [dates_weekly hw] at hmem
  obtain ⟨x, -, hx⟩ := List.mem_filterMap.1 hmem
  rw [weeklyDate_utcServer] at hx
  split at hx
  · rename_i hsome
    by_contra hweek
    have hnone : startOfWeek utcServer firstStart = none := by
      rw [startOfWeek_utcServer, timeClip, timeClip, if_neg hweek]
      split <;> rfl
    rw [weekStart, hnone, iterate_addDays_none] at hsome
    cases hsome.1
  · cases hx

/-! ### The loop comes to the series -/

theorem le_of_text : ∀ a b : Fin 7, toString (a.val : ℤ) ≤ toString (b.val : ℤ) → a ≤ b := by decide

theorem weeklyDays_sorted (hrange : InWeek dto) :
    (weeklyDays utcServer dto firstStart).Pairwise (· ≤ ·) := by
  unfold weeklyDays
  split
  · exact List.pairwise_singleton _ _
  · refine (List.pairwise_insertionSort (fun a b : ℤ => toString a ≤ toString b) _).imp_of_mem ?_
    intro a b ha hb hab
    obtain ⟨ha0, ha7⟩ := hrange a ((List.mem_insertionSort _).1 ha)
    obtain ⟨hb0, hb7⟩ := hrange b ((List.mem_insertionSort _).1 hb)
    obtain ⟨a, rfl⟩ := Int.eq_ofNat_of_zero_le ha0
    obtain ⟨b, rfl⟩ := Int.eq_ofNat_of_zero_le hb0
    have hle := le_of_text ⟨a, by omega⟩ ⟨b, by omega⟩ hab
    exact_mod_cast hle

theorem nodup_weeklyDays_iff : (weeklyDays utcServer dto firstStart).Nodup ↔ dto.byday.Nodup := by
  unfold weeklyDays
  split
  · rename_i h
    rw [List.isEmpty_iff.1 h]
    exact iff_of_true (List.nodup_singleton _) List.nodup_nil
  · exact (List.perm_insertionSort _ _).nodup_iff

theorem weeklyDays_strict (hrange : InWeek dto) (h : dto.byday.Nodup) :
    (weeklyDays utcServer dto firstStart).Pairwise (· < ·) :=
  ((weeklyDays_sorted hrange).and (nodup_weeklyDays_iff.2 h)).imp fun h => lt_of_le_of_ne h.1 h.2

theorem seven_le_weeks (dto : CreateRecurringDto) (k : ℕ) : 7 ≤ ((k + 1 : ℕ) : ℤ) * (7 * intervalOf dto) := by
  have hpos : 0 < ((k + 1 : ℕ) : ℤ) * intervalOf dto := mul_pos (by omega) (intervalOf_pos dto)
  have hweeks : ((k + 1 : ℕ) : ℤ) * (7 * intervalOf dto) = 7 * (((k + 1 : ℕ) : ℤ) * intervalOf dto) := by ring
  omega

theorem starts_sorted (hrange : InWeek dto) (h : dto.byday.Nodup) :
    (starts dto firstStart).Pairwise (· < ·) := by
  refine pairwise_rounds (fun b => ?_) (fun b k d hd a ha d' hd' a' ha' => ?_) _ _
  · rw [List.pairwise_filterMap]
    refine (weeklyDays_strict hrange h).imp fun {d d'} hlt a ha a' ha' => ?_
    rw [(startIn_eq_some.1 ha).2, (startIn_eq_some.1 ha').2]
    unfold dayIn dayMs
    omega
  · have hr := weekdays_range hrange (mem_weeklyDays.1 hd)
    have hr' := weekdays_range hrange (mem_weeklyDays.1 hd')
    rw [iterate_next] at ha'
    rw [(startIn_eq_some.1 ha).2, (startIn_eq_some.1 ha').2]
    have hround := seven_le_weeks dto k
    have hsum : ((b + (k + 1) : ℕ) : ℤ) * (7 * intervalOf dto) =
        b * (7 * intervalOf dto) + ((k + 1 : ℕ) : ℤ) * (7 * intervalOf dto) := by
      push_cast
      ring
    unfold dayIn dayMs
    omega

theorem later_day (k : ℕ) {wd : ℤ} (h : 0 ≤ wd) : firstStart < dayIn dto firstStart (k + 1) wd * dayMs := by
  have hweeks := seven_le_weeks dto k
  have hsplit := dayOf_add_timeInDay firstStart
  have htime := timeInDay_range firstStart
  have hday : dayOf firstStart + 1 ≤ dayIn dto firstStart (k + 1) wd := by
    unfold dayIn weekdayOf
    omega
  unfold dayMs at *
  omega

theorem round_eq (k : ℕ) (hrange : InWeek dto) :
    (weeklyDays utcServer dto firstStart).filterMap (startIn dto firstStart (k + 1)) =
      (weeklyDays utcServer dto firstStart).map fun wd =>
        dayIn dto firstStart (k + 1) wd * dayMs + minuteOf firstStart := by
  rw [← List.filterMap_eq_map]
  refine List.filterMap_congr fun wd hwd => ?_
  have hr := weekdays_range hrange (mem_weeklyDays.1 hwd)
  rw [startIn, if_neg (not_lt.2 (later_day k hr.1).le)]
  rfl

theorem length_starts (hrange : InWeek dto) : maxOccurrences ≤ (starts dto firstStart).length := by
  have hdays : weeklyDays utcServer dto firstStart ≠ [] := by
    obtain ⟨wd, hwd⟩ := List.exists_mem_of_ne_nil _ (@weekdays_ne_nil dto firstStart)
    exact List.ne_nil_of_mem (mem_weeklyDays.2 hwd)
  have hrounds : maxExpansionIterations ≤ (starts dto firstStart).length := by
    rw [starts, rounds, List.length_append]
    refine (le_length_rounds fun k => ?_).trans (Nat.le_add_left _ _)
    rw [iterate_next, Nat.zero_add, Nat.add_comm 1 k, round_eq k hrange]
    exact mt List.map_eq_nil_iff.1 hdays
  exact le_trans (by decide) hrounds

theorem enumerates (hrange : InWeek dto) (hplain : Plain dto firstStart) :
    Enumerates (Recurs dto firstStart) (starts dto firstStart) where
  sorted := starts_sorted hrange hplain.nodup
  holds t ht := by
    obtain ⟨k, -, wd, hwd, hle, ht⟩ := (mem_starts_iff hrange hplain).1 ht
    exact (recurs_iff hrange).2 ⟨k, wd, hwd, hle, ht⟩
  rest t ht hnot s hs := by
    obtain ⟨k, wd, hwd, hle, ht⟩ := (recurs_iff hrange).1 ht
    obtain ⟨j, hj, wd', hwd', -, hs⟩ := (mem_starts_iff hrange hplain).1 hs
    have hk : maxExpansionIterations + 1 ≤ k := by
      by_contra hlt
      exact hnot ((mem_starts_iff hrange hplain).2 ⟨k, not_le.1 hlt, wd, hwd, hle, ht⟩)
    obtain ⟨n, rfl⟩ : ∃ n, k = j + (n + 1) := ⟨k - j - 1, by omega⟩
    have hweeks := seven_le_weeks dto n
    have hr := weekdays_range hrange hwd
    have hr' := weekdays_range hrange hwd'
    have hsum : ((j + (n + 1) : ℕ) : ℤ) * (7 * intervalOf dto) =
        j * (7 * intervalOf dto) + ((n + 1 : ℕ) : ℤ) * (7 * intervalOf dto) := by
      push_cast
      ring
    rw [hs, ht, dayIn, dayIn, hsum]
    unfold dayMs
    omega

/-! ### The condition is needed -/

theorem length_le_seven {l : List ℤ} {k : ℕ} (hsorted : l.Pairwise (· < ·))
    (hl : ∀ t ∈ l, ∃ wd, 0 ≤ wd ∧ wd < 7 ∧ t = dayIn dto firstStart k wd * dayMs + minuteOf firstStart) :
    l.length ≤ 7 := by
  have hsub : l.toFinset ⊆ (Finset.Ico (0 : ℤ) 7).image fun wd =>
      dayIn dto firstStart k wd * dayMs + minuteOf firstStart := by
    intro t ht
    obtain ⟨wd, h0, h7, rfl⟩ := hl t (List.mem_toFinset.1 ht)
    exact Finset.mem_image_of_mem _ (Finset.mem_Ico.2 ⟨h0, h7⟩)
  have hnodup : l.Nodup := hsorted.imp ne_of_lt
  calc l.length = l.toFinset.card := (List.toFinset_card_of_nodup hnodup).symm
    _ ≤ _ := Finset.card_le_card hsub
    _ ≤ (Finset.Ico (0 : ℤ) 7).card := Finset.card_image_le
    _ = 7 := rfl

theorem nodup_of_sorted (hrange : InWeek dto)
    (hsorted : ((starts dto firstStart).take 100).Pairwise (· < ·)) : dto.byday.Nodup := by
  rw [starts, maxExpansionIterations, rounds, rounds, List.take_append, List.pairwise_append,
    List.take_append, List.pairwise_append] at hsorted
  obtain ⟨hfirst, ⟨hsecond, -⟩, -⟩ := hsorted
  have hlen := @length_le_seven dto firstStart _ 0 hfirst fun t ht => by
    obtain ⟨wd, hwd, ht⟩ := List.mem_filterMap.1 (List.mem_of_mem_take ht)
    have hr := weekdays_range hrange (mem_weeklyDays.1 hwd)
    exact ⟨wd, hr.1, hr.2, (startIn_eq_some.1 ht).2⟩
  rw [round_eq 0 hrange] at hsecond
  have hlen' := @length_le_seven dto firstStart _ 1 hsecond fun t ht => by
    obtain ⟨wd, hwd, rfl⟩ := List.mem_map.1 (List.mem_of_mem_take ht)
    have hr := weekdays_range hrange (mem_weeklyDays.1 hwd)
    exact ⟨wd, hr.1, hr.2, rfl⟩
  rw [List.length_take] at hlen
  rw [List.length_take, List.length_map] at hlen'
  rw [List.take_of_length_le (by rw [List.length_map]; omega)] at hsecond
  have hnodup := hsecond.imp fun h => ne_of_lt h
  exact nodup_weeklyDays_iff.1 (List.Nodup.of_map _ hnodup)

theorem wholeMinute_of_first {n : ℕ} (hrange : InWeek dto) (hn : 0 < n)
    (h : FirstOf (Recurs dto firstStart) n ((starts dto firstStart).take n)) :
    timeInDay firstStart % 60000 = 0 := by
  have htime := timeInDay_range firstStart
  obtain ⟨wd, hwd⟩ := List.exists_mem_of_ne_nil _ (@weekdays_ne_nil dto firstStart)
  have hlater : firstStart < dayIn dto firstStart 1 wd * dayMs := later_day 0 (weekdays_range hrange hwd).1
  have hsome : Recurs dto firstStart (dayIn dto firstStart 1 wd * dayMs + timeInDay firstStart) :=
    (recurs_iff hrange).2 ⟨1, wd, hwd, by omega, rfl⟩
  obtain ⟨t, ht⟩ := List.exists_mem_of_ne_nil _ (h.ne_nil hn hsome)
  have hsame := (h.holds t ht).time
  obtain ⟨k, -, wd', -, -, rfl⟩ := mem_starts.1 (List.mem_of_mem_take ht)
  rw [timeInDay_add_days, minuteOf] at hsame
  unfold timeInDay dayMs at *
  omega

theorem midnight_of_first {n : ℕ} (hn : 0 < n)
    (h : FirstOf (Recurs dto firstStart) n ((starts dto firstStart).take n)) :
    timeInDay firstStart = 0 ∨ weekdayOf firstStart ∉ weekdays dto firstStart := by
  by_contra hnot
  obtain ⟨htime, hday⟩ := not_or.1 hnot
  have hself : Recurs dto firstStart firstStart := ⟨le_rfl, rfl, not_not.1 hday, by rw [sub_self]; exact dvd_zero _⟩
  have hmem := h.mem_of_least hn hself fun t ht => ht.notBefore
  obtain ⟨k, -, wd, -, hle, heq⟩ := mem_starts.1 (List.mem_of_mem_take hmem)
  have hmidnight : timeInDay firstStart = timeInDay (dayIn dto firstStart k wd * dayMs + 0) := by
    refine congrArg timeInDay ?_
    unfold minuteOf at heq
    have hrange := timeInDay_range firstStart
    omega
  rw [timeInDay_add_days] at hmidnight
  exact htime hmidnight

theorem firstOf_iff_plain (hrange : InWeek dto) :
    FirstOf (Recurs dto firstStart) maxOccurrences ((starts dto firstStart).take maxOccurrences) ↔
      Plain dto firstStart := by
  constructor
  · intro hfirst
    exact ⟨nodup_of_sorted hrange hfirst.sorted, wholeMinute_of_first hrange (by decide) hfirst,
      midnight_of_first (by decide) hfirst⟩
  · intro hplain
    exact (enumerates hrange hplain).take_firstOf (length_starts hrange)

/-- **Weekly series.** The expansion of a weekly request is the series, whatever the count, the end date, the excluded
dates and the length of the meetings are, if and only if no weekday is listed twice, the first start is at a whole
minute, and at midnight unless its day is none of the series, and the first hundred instants of the series are dates, as
the Sunday before the first start is. -/
theorem weekly_exact_iff (hw : dto.pattern = .weekly) (hrange : ∀ d ∈ dto.byday, 0 ≤ d ∧ d < 7)
    (hs : IsDate firstStart) :
    (∀ (count : Option ℤ) (untilDate : Option Date) (exDates : List Date) (firstEnd : Instant),
      Expands { dto with count, untilDate } firstStart (Recurs dto firstStart) exDates firstEnd) ↔
      Plain dto firstStart ∧ InRange dto firstStart := by
  have hcomes := comes_weekly hw hrange hs
  have hlong := @length_starts dto firstStart hrange
  rw [starts_eq] at hlong
  rw [hcomes.expands_all_iff (.inl hw) hlong fun _ => week_of_take hw hrange hs (length_starts hrange), ← starts_eq,
    firstOf_iff_plain hrange]
  refine and_congr_right fun hplain => ?_
  have hfirst := (firstOf_iff_plain hrange).2 hplain
  constructor
  · rintro ⟨hweek, hgood⟩
    exact ⟨hweek, fun starts hstarts => hstarts.unique hfirst ▸ hgood⟩
  · rintro ⟨hweek, hgood⟩
    exact ⟨hweek, hgood _ hfirst⟩

/-- The calendar is long enough for a start within 60,000 years of 1970 and intervals up to 100,000 weeks. -/
theorem inRange_of_small (hrange : InWeek dto) (hi : intervalOf dto ≤ 100000)
    (hlo : -2000000000000000 ≤ firstStart) (hhi : firstStart ≤ 2000000000000000) : InRange dto firstStart := by
  have htime := timeInDay_range firstStart
  have hsplit := dayOf_add_timeInDay firstStart
  have hday : 0 ≤ weekdayOf firstStart ∧ weekdayOf firstStart < 7 :=
    ⟨Int.emod_nonneg _ (by decide), Int.emod_lt_of_pos _ (by decide)⟩
  refine ⟨?_, fun starts hstarts t ht => ?_⟩
  · rw [sub_mul]
    unfold dayMs at *
    exact ⟨by omega, by omega⟩
  · obtain ⟨wd, hwd⟩ := List.exists_mem_of_ne_nil _ (@weekdays_ne_nil dto firstStart)
    have hr := weekdays_range hrange hwd
    have hmono : StrictMono fun i : ℕ => dayIn dto firstStart (i + 1) wd * dayMs + timeInDay firstStart := by
      refine strictMono_nat_of_lt_succ fun i => ?_
      have hpos := intervalOf_pos dto
      have hsum : ((i + 1 + 1 : ℕ) : ℤ) * (7 * intervalOf dto) =
          ((i + 1 : ℕ) : ℤ) * (7 * intervalOf dto) + 7 * intervalOf dto := by
        push_cast
        ring
      unfold dayIn dayMs
      omega
    have hrecurs : ∀ i : ℕ, Recurs dto firstStart (dayIn dto firstStart (i + 1) wd * dayMs + timeInDay firstStart) :=
      fun i => (recurs_iff hrange).2 ⟨i + 1, wd, hwd, by have := @later_day dto firstStart i wd hr.1; omega, rfl⟩
    obtain ⟨i, hlt, hle⟩ := hstarts.exists_le hmono hrecurs ht
    have hsteps : ((i + 1 : ℕ) : ℤ) * (7 * intervalOf dto) ≤ 100 * (7 * 100000) :=
      mul_le_mul (by unfold maxOccurrences at hlt; omega) (by omega) (by have := intervalOf_pos dto; omega) (by decide)
    have hnot := (hstarts.holds t ht).notBefore
    unfold dayIn at hle
    unfold dayMs at *
    exact ⟨by omega, by omega⟩

end Series

/-! ### A meeting on Fridays -/

/-- Four meetings, a week apart. -/
def fridays : CreateRecurringDto :=
  { firstStart := none, firstEnd := none, pattern := .weekly, count := some 4
    booking := { resourceId := "r", startTime := 0, endTime := 0 } }

/-- From a midnight on, the series is found. -/
theorem weekly_exact_iff_midnight :
    Expands { fridays with count := some 4, untilDate := none } 1780012800000 (Recurs fridays 1780012800000) []
      1780016400000 :=
  (@weekly_exact_iff fridays 1780012800000 rfl (fun _ h => nomatch h) (by decide)).2
    ⟨⟨.nil, by decide, .inl (by decide)⟩, inRange_of_small (fun _ h => nomatch h) (by decide) (by decide)
      (by decide)⟩ (some 4) none [] 1780016400000

/-- Twenty million weeks on there is no date. -/
example : weekStart { fridays with interval := some 20000000 } 1780012800000 1 = none := by decide +kernel

/-- From seven o'clock on the 29th of May 2026 on, it is not: the first meeting is left out. -/
theorem first_friday_lost : Recurs fridays 1780038000000 1780038000000 ∧
    ¬ Expands fridays 1780038000000 (Recurs fridays 1780038000000) [] 1780041600000 := by
  refine ⟨⟨le_rfl, rfl, by decide, by decide⟩, fun h => ?_⟩
  obtain ⟨ts, hfirst, htake⟩ := firstOf_of_expands (.inr (.inl rfl)) rfl h
  have hcomes := @comes_weekly fridays 1780038000000 rfl (fun _ h => nomatch h) (by decide)
  rw [hcomes.dates_eq] at htake
  obtain ⟨rfl, -⟩ := take_start hcomes.skipped hcomes.valid htake
  rw [← starts_eq] at hfirst
  revert hfirst
  exact fun hfirst => absurd (midnight_of_first (by decide) hfirst) (by decide)

end BookingSystem.Contracts.WeeklySeries
