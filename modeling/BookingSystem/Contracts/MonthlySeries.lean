import BookingSystem.Base.Calendar
import BookingSystem.Contracts.SeriesInUtc

/-!
# Monthly series

What a monthly series is (`Recurs`), apart from how `expand` goes about it: the instants from the first start on that
have its time of day, lie a number of intervals of months after its month, and fall on one of the listed days, or on the
last day of a shorter month. The loop of `expand` takes the days of every month in the order of the list, and after the
last date it comes to Invalid Dates; it finds the series for every request if and only if `Plain` and `InRange` hold
(`monthly_exact_iff`).
-/

namespace BookingSystem.Contracts.MonthlySeries

open Base Model Model.RecurrenceService Contracts.Recurrence
open Contracts.SeriesInUtc

section Series

variable (dto : CreateRecurringDto) (firstStart : ℤ)

def monthDays : List ℤ := if dto.bymonth.isEmpty then [dayOfMonth (dayOf firstStart)] else dto.bymonth

/-- The instant belongs to the series, which goes on for ever. -/
structure Recurs (t : ℤ) : Prop where
  notBefore : firstStart ≤ t
  time : timeInDay t = timeInDay firstStart
  month : intervalOf dto ∣ monthOf (dayOf t) - monthOf (dayOf firstStart)
  day : ∃ d ∈ monthDays dto firstStart, dayOfMonth (dayOf t) = min d (monthLength (monthOf (dayOf t)))

def startOn (n d : ℤ) : ℤ := (firstDay n + d - 1) * dayMs + timeInDay firstStart

def monthNo (k : ℕ) : ℤ := monthOf (dayOf firstStart) + k * intervalOf dto

def due (k : ℕ) : List ℤ :=
  (monthDays dto firstStart).filter fun d => firstStart ≤ startOn firstStart (monthNo dto firstStart k) d

def taken (k : ℕ) : List ℤ :=
  (due dto firstStart k).take (maxOccurrences - ((List.range k).flatMap (due dto firstStart)).length)

/-- No two of the days come to the last one of the month, and none to the 29th of February of the year `0`, which is
taken for 1900. -/
structure Apart (n : ℤ) (days : List ℤ) : Prop where
  last : ∀ d ∈ days.dropLast, d < monthLength n
  leap : n = 1 → ∀ d ∈ days, d ≤ 28

/-- The days are listed in increasing order, and no two come to the same one in any month. -/
structure Plain : Prop where
  sorted : (monthDays dto firstStart).Pairwise (· < ·)
  apart : ∀ k, Apart (monthNo dto firstStart k) (taken dto firstStart k)

def lastOf (n : ℤ) : ℤ := (firstDay (n + 1) - 1) * dayMs

/-- The interval is a number, and the month of the first start and those of the first hundred instants of the series end
at a date, as it begins and as they are. -/
structure InRange : Prop where
  interval : intervalOf dto < infinity
  first : IsDate (startOn firstStart (monthOf (dayOf firstStart)) 1)
  last : IsDate (lastOf (monthOf (dayOf firstStart)))
  starts : ∀ starts, FirstOf (Recurs dto firstStart) maxOccurrences starts →
    ∀ t ∈ starts, IsDate t ∧ IsDate (lastOf (monthOf (dayOf t)))

/-- The length of a month as `maxDom` counts it. -/
def countedLength (n : ℤ) : ℤ := monthLength (if 0 ≤ n / 12 ∧ n / 12 ≤ 99 then n + 22800 else n)

/-- The start that the loop comes to on a day of a month, in a calendar without an end. -/
def startIn (k : ℕ) (d : ℤ) : Option ℤ :=
  let start := startOn firstStart (monthNo dto firstStart k) (min d (countedLength (monthNo dto firstStart k)))
  if start < firstStart then none else some start

def found (k : ℕ) : List ℤ := (monthDays dto firstStart).filterMap (startIn dto firstStart k)

def starts : List ℤ := (List.range (maxExpansionIterations + 1)).flatMap (found dto firstStart)

variable {dto firstStart}

/-! ### Months -/

theorem march_century {y : ℤ} (h0 : -1 ≤ y) (h1 : y ≤ 98) :
    marchOf (y + 1901) - marchOf (y + 1900) = marchOf (y + 1) - marchOf y - if y = -1 then 1 else 0 := by
  unfold marchOf
  split <;> omega

theorem monthLength_century {n : ℤ} (h0 : 0 ≤ n) (h1 : n < 1200) :
    monthLength (n + 22800) = monthLength n - if n = 1 then 1 else 0 := by
  have hyear : (n + 22800 - 2) / 12 = (n - 2) / 12 + 1900 := by omega
  have hmonth : (n + 22800 - 2) % 12 = (n - 2) % 12 := by omega
  have hmonth' : (n + 22800 + 1 - 2) % 12 = (n + 1 - 2) % 12 := by omega
  rw [monthLength, monthLength, firstDay_eq, firstDay_eq, firstDay_eq, firstDay_eq, hyear, hmonth, hmonth']
  by_cases hfebruary : (n - 2) % 12 = 11
  · have hnext : (n + 22800 + 1 - 2) / 12 = (n - 2) / 12 + 1901 := by omega
    have hnext' : (n + 1 - 2) / 12 = (n - 2) / 12 + 1 := by omega
    have hstep := march_century (y := (n - 2) / 12) (by omega) (by omega)
    rw [hnext, hnext']
    split at hstep <;> split <;> omega
  · have hnext : (n + 22800 + 1 - 2) / 12 = (n - 2) / 12 + 1900 := by omega
    have hnext' : (n + 1 - 2) / 12 = (n - 2) / 12 := by omega
    rw [hnext, hnext', if_neg (by omega)]
    omega

theorem monthLength_one : monthLength 1 = 29 := by decide

theorem countedLength_eq (n : ℤ) : countedLength n = if n = 1 then 28 else monthLength n := by
  unfold countedLength
  by_cases h : 0 ≤ n / 12 ∧ n / 12 ≤ 99
  · rw [if_pos h, monthLength_century (by omega) (by omega)]
    split
    · rename_i hone
      rw [hone, monthLength_one]
      rfl
    · exact sub_zero _
  · rw [if_neg h, if_neg fun h1 => h (by omega)]

theorem countedLength_range (n : ℤ) : 28 ≤ countedLength n ∧ countedLength n ≤ monthLength n := by
  have hlen := monthLength_range n
  rw [countedLength_eq]
  split <;> omega

theorem startOn_strictMono (n : ℤ) : StrictMono (startOn firstStart n) := by
  intro d d' h
  unfold startOn dayMs
  omega

theorem dayOf_startOn (n d : ℤ) : dayOf (startOn firstStart n d) = firstDay n + d - 1 := by
  have htime : dayOf (timeInDay firstStart) = 0 :=
    Int.ediv_eq_zero_of_lt (Int.emod_nonneg _ (by decide)) (Int.emod_lt_of_pos _ (by decide))
  rw [startOn, dayOf_add_days, htime, add_zero]

theorem timeInDay_startOn (n d : ℤ) : timeInDay (startOn firstStart n d) = timeInDay firstStart := by
  rw [startOn, timeInDay_add_days, timeInDay_timeInDay]

theorem monthOf_startOn {n d : ℤ} (h1 : 1 ≤ d) (hd : d ≤ monthLength n) :
    monthOf (dayOf (startOn firstStart n d)) = n := by
  unfold monthLength at hd
  rw [dayOf_startOn]
  exact monthOf_eq (by omega) (by omega)

theorem dayOfMonth_startOn {n d : ℤ} (h1 : 1 ≤ d) (hd : d ≤ monthLength n) :
    dayOfMonth (dayOf (startOn firstStart n d)) = d := by
  rw [dayOfMonth_eq, monthOf_startOn h1 hd, dayOf_startOn]
  omega

theorem le_startOn_iff {n d : ℤ} : firstStart ≤ startOn firstStart n d ↔ dayOf firstStart ≤ firstDay n + d - 1 := by
  have hsplit := dayOf_add_timeInDay firstStart
  unfold startOn dayMs at *
  omega

theorem monthNo_succ (k : ℕ) : monthNo dto firstStart (k + 1) = monthNo dto firstStart k + intervalOf dto := by
  unfold monthNo
  push_cast
  ring

theorem monthNo_lt (k : ℕ) : monthNo dto firstStart k < monthNo dto firstStart (k + 1) := by
  have hpos := intervalOf_pos dto
  rw [monthNo_succ]
  omega

theorem le_monthNo (k : ℕ) : monthOf (dayOf firstStart) ≤ monthNo dto firstStart k := by
  have hpos := mul_nonneg (Int.natCast_nonneg k) (intervalOf_pos dto).le
  unfold monthNo
  omega

theorem not_before_last (k : ℕ) :
    dayOf firstStart ≤ firstDay (monthNo dto firstStart k) + monthLength (monthNo dto firstStart k) - 1 := by
  have hlt := (firstDay_monthOf (dayOf firstStart)).2
  have hmono := firstDay_strictMono.monotone (Int.add_le_add_right (@le_monthNo dto firstStart k) 1)
  unfold monthLength
  omega

theorem le_startOn_min (k : ℕ) {d : ℤ} :
    firstStart ≤ startOn firstStart (monthNo dto firstStart k) (min d (monthLength (monthNo dto firstStart k))) ↔
      firstStart ≤ startOn firstStart (monthNo dto firstStart k) d := by
  have hlast := @not_before_last dto firstStart k
  rw [le_startOn_iff, le_startOn_iff]
  omega

theorem le_startOn_later (k : ℕ) {d : ℤ} (h1 : 1 ≤ d) :
    firstStart ≤ startOn firstStart (monthNo dto firstStart (k + 1)) d := by
  have hlast := @not_before_last dto firstStart k
  have hmono := firstDay_strictMono.monotone (show monthNo dto firstStart k + 1 ≤ monthNo dto firstStart (k + 1) from
    monthNo_lt k)
  rw [le_startOn_iff]
  unfold monthLength at hlast
  omega

/-! ### The starts that the loop comes to -/

theorem monthlyDays_utcServer : monthlyDays utcServer dto firstStart = monthDays dto firstStart := by
  unfold monthlyDays monthDays TimeZone.getDate
  rw [shown_utcServer]

theorem firstOfMonth_yearMonth (day n : ℤ) :
    firstOfMonth (yearMonth day).1 ((yearMonth day).2 + n) = firstDay (monthOf day + n) := by
  rw [firstOfMonth_eq, ← add_assoc, monthOf]

theorem isDate_lastOf_century {n : ℤ} (h0 : 0 ≤ n) (h1 : n < 1200) :
    IsDate (lastOf (n + 22800)) ∧ IsDate (lastOf n) := by
  have hmono := firstDay_strictMono.monotone
  have hlow := hmono (show 1 ≤ n + 1 by omega)
  have hhigh := hmono (show n + 22800 + 1 ≤ 24000 by omega)
  have hbetween := hmono (show n + 1 ≤ n + 22800 + 1 by omega)
  have hfirst : firstDay 1 = -719497 := by decide
  have hlast : firstDay 24000 = 10957 := by decide
  unfold lastOf dayMs
  exact ⟨⟨by omega, by omega⟩, by omega, by omega⟩

theorem maxDom_utcServer (s : ℤ) : maxDom utcServer s =
    if IsDate (lastOf (monthOf (dayOf s))) then some (countedLength (monthOf (dayOf s))) else none := by
  have hlast : ∀ n, dayOfMonth (dayOf (lastOf n)) = monthLength n := fun n => by
    have hlen := (monthLength_range n).1
    unfold lastOf
    rw [dayOf, Int.mul_ediv_cancel _ (by decide)]
    unfold monthLength at hlen ⊢
    rw [@dayOfMonth_of_mem n (firstDay (n + 1) - 1) (by omega) (by omega)]
    omega
  have hmonth : 0 ≤ (yearMonth (dayOf s)).2 ∧ (yearMonth (dayOf s)).2 < 12 := by
    unfold yearMonth
    dsimp only
    omega
  have hyear : monthOf (dayOf s) / 12 = (yearMonth (dayOf s)).1 := by
    unfold monthOf
    omega
  have hnew : utcServer.newDate (utcServer.getFullYear s) (utcServer.getMonth s + 1) 0 =
      lastOf (if 0 ≤ monthOf (dayOf s) / 12 ∧ monthOf (dayOf s) / 12 ≤ 99 then monthOf (dayOf s) + 22800
        else monthOf (dayOf s)) := by
    rw [TimeZone.newDate, utc_utcServer, firstOfMonth_eq, TimeZone.getFullYear, TimeZone.getMonth, shown_utcServer,
      add_zero, ← add_assoc, hyear, lastOf]
    split
    · rw [monthOf]
      congr 4
      ring
    · rw [monthOf]
  rw [maxDom, hnew, countedLength, timeClip]
  split
  · rename_i hcentury
    have hdates := @isDate_lastOf_century (monthOf (dayOf s)) (by omega) (by omega)
    rw [if_pos hdates.1, if_pos hdates.2, Option.map_some, TimeZone.getDate, shown_utcServer, hlast]
  · split
    · rw [Option.map_some, TimeZone.getDate, shown_utcServer, hlast]
    · rfl

theorem monthStart_utcServer (k : ℕ) : monthStart utcServer dto firstStart k =
    if intervalOf dto < infinity then timeClip (startOn firstStart (monthNo dto firstStart k) 1) else none := by
  rw [monthStart, times]
  split
  · rw [Option.bind_some, TimeZone.setMonth, utc_utcServer, TimeZone.withMonth, TimeZone.getMonth,
      TimeZone.getFullYear, shown_utcServer, firstOfMonth_yearMonth, startOn, monthNo]
  · rfl

theorem monthOf_first (k : ℕ) :
    monthOf (dayOf (startOn firstStart (monthNo dto firstStart k) 1)) = monthNo dto firstStart k :=
  monthOf_startOn le_rfl (by have := (monthLength_range (monthNo dto firstStart k)).1; omega)

theorem setDate_first (k : ℕ) (day : ℤ) : utcServer.setDate (startOn firstStart (monthNo dto firstStart k) 1) day =
    startOn firstStart (monthNo dto firstStart k) day := by
  have hfirst := firstOfMonth_yearMonth (dayOf (startOn firstStart (monthNo dto firstStart k) 1)) 0
  rw [add_zero, add_zero, monthOf_first] at hfirst
  rw [TimeZone.setDate, utc_utcServer, TimeZone.withDate, TimeZone.getFullYear, TimeZone.getMonth, shown_utcServer,
    hfirst, timeInDay_startOn, startOn]

/-- The months, and the days in them, of which the loop makes dates. -/
structure Valid (dto : CreateRecurringDto) (firstStart : ℤ) (k : ℕ) (d : ℤ) : Prop where
  interval : intervalOf dto < infinity
  first : IsDate (startOn firstStart (monthNo dto firstStart k) 1)
  last : IsDate (lastOf (monthNo dto firstStart k))
  day : IsDate (startOn firstStart (monthNo dto firstStart k) (min d (countedLength (monthNo dto firstStart k))))

theorem monthlyDate_of_valid {k : ℕ} {d : ℤ} (h : Valid dto firstStart k d) :
    monthlyDate utcServer dto firstStart k d = (startIn dto firstStart k d).map some := by
  rw [monthlyDate, monthStart_utcServer, if_pos h.interval, timeClip, if_pos h.first, Option.bind_some,
    maxDom_utcServer, monthOf_first, if_pos h.last, Option.bind_some, setDate_first, timeClip, if_pos h.day, startIn]
  simp only [isBefore, Option.any_some, decide_eq_true_eq]
  split <;> rfl

theorem monthlyDate_of_not {k : ℕ} {d : ℤ} (h : ¬ Valid dto firstStart k d) :
    monthlyDate utcServer dto firstStart k d = some none := by
  have hdate : ((monthStart utcServer dto firstStart k).bind fun t =>
      (maxDom utcServer t).bind fun last => timeClip (utcServer.setDate t (min d last))) = none := by
    rw [Option.bind_eq_none_iff, monthStart_utcServer]
    intro t ht
    obtain ⟨hinterval, ht⟩ := Option.ite_none_right_eq_some.1 ht
    obtain ⟨hfirst, rfl⟩ := timeClip_eq_some.1 ht
    rw [Option.bind_eq_none_iff, maxDom_utcServer, monthOf_first]
    intro last hlast
    obtain ⟨hmonth, hlast⟩ := Option.ite_none_right_eq_some.1 hlast
    rw [← Option.some.inj hlast, setDate_first]
    exact if_neg fun hday => h ⟨hinterval, hfirst, hmonth, hday⟩
  rw [monthlyDate, hdate]
  rfl

/-- The days of a month are due as the last ones of a shorter month are. -/
theorem recurs_iff (hrange : ∀ d ∈ monthDays dto firstStart, 1 ≤ d) {t : ℤ} : Recurs dto firstStart t ↔
    ∃ k, ∃ d ∈ due dto firstStart k,
      startOn firstStart (monthNo dto firstStart k) (min d (monthLength (monthNo dto firstStart k))) = t := by
  constructor
  · rintro ⟨hle, htime, ⟨c, hmonth⟩, d, hd, hday⟩
    have hlater : monthOf (dayOf firstStart) ≤ monthOf (dayOf t) := by
      have hlt := lt_of_le_of_lt (firstDay_monthOf (dayOf firstStart)).1
        (lt_of_le_of_lt (Int.ediv_le_ediv (by decide) hle) (firstDay_monthOf (dayOf t)).2)
      exact Int.lt_add_one_iff.1 (firstDay_strictMono.lt_iff_lt.1 hlt)
    have hc : 0 ≤ c := by
      by_contra hneg
      have := Int.mul_neg_of_pos_of_neg (intervalOf_pos dto) (not_le.1 hneg)
      omega
    have hno : monthNo dto firstStart c.toNat = monthOf (dayOf t) := by
      rw [monthNo, Int.toNat_of_nonneg hc, mul_comm]
      omega
    have hstart : startOn firstStart (monthOf (dayOf t)) (min d (monthLength (monthOf (dayOf t)))) = t := by
      have hsplit := dayOf_add_timeInDay t
      rw [dayOfMonth_eq] at hday
      rw [← hday, startOn, ← htime]
      have hback : firstDay (monthOf (dayOf t)) + (dayOf t - firstDay (monthOf (dayOf t)) + 1) - 1 = dayOf t := by ring
      rw [hback, hsplit]
    refine ⟨c.toNat, d, List.mem_filter.2 ⟨hd, decide_eq_true ?_⟩, hno ▸ hstart⟩
    rw [← le_startOn_min, hno, hstart]
    exact hle
  · rintro ⟨k, d, hd, rfl⟩
    obtain ⟨hmem, hle⟩ := List.mem_filter.1 hd
    have hlen := (monthLength_range (monthNo dto firstStart k)).1
    have hmin : 1 ≤ min d (monthLength (monthNo dto firstStart k)) := le_min (hrange d hmem) (by omega)
    have hmonth := @monthOf_startOn firstStart _ _ hmin (min_le_right ..)
    refine ⟨(le_startOn_min k).2 (of_decide_eq_true hle), timeInDay_startOn _ _, ?_, d, hmem, ?_⟩
    · rw [hmonth, monthNo, add_sub_cancel_left]
      exact dvd_mul_left _ _
    · rw [hmonth, dayOfMonth_startOn hmin (min_le_right ..)]

theorem startIn_eq_some {k : ℕ} {d t : ℤ} : startIn dto firstStart k d = some t ↔ firstStart ≤ t ∧
    startOn firstStart (monthNo dto firstStart k) (min d (countedLength (monthNo dto firstStart k))) = t := by
  rw [startIn, Option.ite_none_left_eq_some, Option.some.injEq, not_lt]
  exact and_congr_left fun h => by rw [h]

theorem startIn_eq_none {k : ℕ} {d : ℤ} : startIn dto firstStart k d = none ↔
    startOn firstStart (monthNo dto firstStart k) (min d (countedLength (monthNo dto firstStart k))) < firstStart := by
  rw [startIn, ite_eq_left_iff]
  constructor
  · intro h
    by_contra hnot
    cases h hnot
  · intro h hnot
    exact absurd h hnot

theorem mem_found {k : ℕ} {t : ℤ} : t ∈ found dto firstStart k ↔ ∃ d ∈ monthDays dto firstStart,
    firstStart ≤ t ∧
      startOn firstStart (monthNo dto firstStart k) (min d (countedLength (monthNo dto firstStart k))) = t := by
  rw [found, List.mem_filterMap]
  exact exists_congr fun d => and_congr_right fun _ => startIn_eq_some

theorem starts_eq : starts dto firstStart =
    (List.range (maxExpansionIterations + 1) ×ˢ monthDays dto firstStart).filterMap
      fun x => startIn dto firstStart x.1 x.2 := by
  rw [starts, filterMap_product]
  rfl

theorem dates_monthly (hm : dto.pattern = .monthly) : dates utcServer dto firstStart =
    (List.range (maxExpansionIterations + 1) ×ˢ monthDays dto firstStart).filterMap
      fun x => monthlyDate utcServer dto firstStart x.1 x.2 := by
  rw [dates, named_monthly hm, ← rounds_map monthlyDate_eq, rounds_eq_filterMap, monthlyDays_utcServer]
  refine congrArg (List.filterMap · _) (funext fun x => ?_)
  rw [iterate_next, Nat.zero_add]

theorem found_eq {k : ℕ} (h : ∀ d ∈ due dto firstStart k, firstStart ≤
      startOn firstStart (monthNo dto firstStart k) (min d (countedLength (monthNo dto firstStart k)))) :
    found dto firstStart k = ((due dto firstStart k).map (min · (countedLength (monthNo dto firstStart k)))).map
      (startOn firstStart (monthNo dto firstStart k)) := by
  rw [found, due, List.map_map, ← List.filterMap_eq_map, List.filterMap_filter]
  refine List.filterMap_congr fun d hd => ?_
  rw [startIn]
  by_cases hle : firstStart ≤ startOn firstStart (monthNo dto firstStart k) d
  · rw [if_neg (not_lt.2 (h d (List.mem_filter.2 ⟨hd, decide_eq_true hle⟩))), if_pos (decide_eq_true hle)]
    rfl
  · have hmin := (@startOn_strictMono firstStart (monthNo dto firstStart k)).monotone
      (min_le_left d (countedLength (monthNo dto firstStart k)))
    rw [if_pos (lt_of_le_of_lt hmin (not_le.1 hle)), if_neg (mt of_decide_eq_true hle)]

theorem due_later (hrange : ∀ d ∈ monthDays dto firstStart, 1 ≤ d) (k : ℕ) :
    due dto firstStart (k + 1) = monthDays dto firstStart :=
  List.filter_eq_self.2 fun d hd => decide_eq_true (le_startOn_later k (hrange d hd))

theorem found_later (hrange : ∀ d ∈ monthDays dto firstStart, 1 ≤ d) (k : ℕ) : found dto firstStart (k + 1) =
    ((monthDays dto firstStart).map (min · (countedLength (monthNo dto firstStart (k + 1))))).map
      (startOn firstStart (monthNo dto firstStart (k + 1))) := by
  have hlen := (countedLength_range (monthNo dto firstStart (k + 1))).1
  rw [found_eq, due_later hrange]
  intro d hd
  rw [due_later hrange] at hd
  exact le_startOn_later k (le_min (hrange d hd) (by omega))

/-! ### The days of one month -/

theorem pairwise_min_iff {l : List ℤ} {L : ℤ} (hsorted : l.Pairwise (· < ·)) :
    (l.map (min · L)).Pairwise (· < ·) ↔ ∀ d ∈ l.dropLast, d < L := by
  induction l with
  | nil => simp
  | cons d l ih =>
    rw [List.pairwise_cons] at hsorted
    rw [List.map_cons, List.pairwise_cons, ih hsorted.2]
    cases l with
    | nil => simp
    | cons d' l =>
      rw [List.dropLast_cons_cons, List.forall_mem_cons]
      refine and_congr_left fun _ => ⟨fun h => ?_, fun h a ha => ?_⟩
      · have hlt := h _ (List.mem_map_of_mem List.mem_cons_self)
        omega
      · obtain ⟨e, he, rfl⟩ := List.mem_map.1 ha
        have hlt := hsorted.1 e he
        omega

/-- The days that the loop takes in a month are the first ones that are due, iff no two come to the same one. -/
theorem month_iff {n : ℤ} {m : ℕ} {l : List ℤ} (hsorted : l.Pairwise (· < ·)) :
    FirstOf (fun a => ∃ d ∈ l, min d (monthLength n) = a) m ((l.map (min · (countedLength n))).take m) ↔
      Apart n (l.take m) := by
  have hlen := countedLength_eq n
  have htake : (l.take m).Pairwise (· < ·) := hsorted.sublist (List.take_sublist m l)
  rw [← List.map_take]
  constructor
  · intro h
    have hleap : n = 1 → ∀ d ∈ l.take m, d ≤ 28 := by
      rintro rfl d hd
      by_contra hlate
      rw [if_pos rfl] at hlen
      have hfeb := monthLength_one
      -- the day is counted as the 28th, so that this is one of the series
      have hmem : (28 : ℤ) ∈ (l.take m).map (min · (countedLength 1)) :=
        List.mem_map.2 ⟨d, hd, by omega⟩
      obtain ⟨e, he, heq⟩ := h.holds 28 hmem
      obtain rfl : e = 28 := by omega
      have he' : (28 : ℤ) ∈ l.take m := by
        by_contra hnot
        have hlt := (Enumerates.rest_take hsorted he hnot).2 d hd
        omega
      have hnodup : ((l.take m).map (min · (countedLength 1))).Nodup := h.sorted.imp ne_of_lt
      have hsame := List.inj_on_of_nodup_map hnodup hd he' (by omega)
      omega
    refine ⟨fun d hd => ?_, hleap⟩
    by_cases hn : n = 1
    · have hle := hleap hn d (List.dropLast_subset _ hd)
      have hfeb := monthLength_one
      rw [hn]
      omega
    · rw [if_neg hn] at hlen
      rw [hlen] at h
      exact (pairwise_min_iff htake).1 h.sorted d hd
  · rintro ⟨hlast, hleap⟩
    have hcounted : (l.take m).map (min · (countedLength n)) = (l.take m).map (min · (monthLength n)) := by
      refine List.map_congr_left fun d hd => ?_
      by_cases hn : n = 1
      · have hle := hleap hn d hd
        have hfeb := monthLength_one
        rw [if_pos hn] at hlen
        rw [hlen, hn]
        omega
      · rw [hlen, if_neg hn]
    have hmem : (fun a => ∃ d ∈ l, min d (monthLength n) = a) = (· ∈ l.map (min · (monthLength n))) :=
      funext fun a => propext List.mem_map.symm
    rw [hcounted, hmem, List.map_take, FirstOf.take_iff, ← List.map_take, ← List.map_drop]
    refine ⟨(pairwise_min_iff htake).2 hlast, fun b hb => ?_⟩
    obtain ⟨d, hd, rfl⟩ := List.mem_map.1 hb
    rw [or_iff_not_imp_left]
    intro hnot a ha
    obtain ⟨e, he, rfl⟩ := List.mem_map.1 ha
    have hlt : e < d := by
      rw [← List.take_append_drop m l, List.pairwise_append] at hsorted
      exact hsorted.2.2 e he d hd
    refine lt_of_le_of_ne (min_le_min_right _ hlt.le) fun heq => hnot ?_
    rw [← heq]
    exact ha

theorem counted_early {k : ℕ} {d : ℤ} (hd : d ∈ due dto firstStart k) (hover : startOn firstStart
      (monthNo dto firstStart k) (min d (countedLength (monthNo dto firstStart k))) < firstStart) :
    monthNo dto firstStart k = 1 ∧ dayOf firstStart = firstDay 1 + 28 := by
  have hle := (le_startOn_min k).2 (of_decide_eq_true (List.mem_filter.1 hd).2)
  have hlen := countedLength_eq (monthNo dto firstStart k)
  by_cases hn : monthNo dto firstStart k = 1
  · have hfeb := monthLength_one
    rw [← not_le, le_startOn_iff] at hover
    rw [le_startOn_iff] at hle
    rw [hn] at hlen hover hle
    rw [if_pos rfl] at hlen
    exact ⟨hn, by omega⟩
  · rw [hlen, if_neg hn] at hover
    exact absurd hle (not_le.2 hover)

/-- The starts that the loop comes to in a month are the first ones of the series there iff no two of the days come to
the same one. -/
theorem found_iff (hsorted : (monthDays dto firstStart).Pairwise (· < ·)) (k m : ℕ) :
    FirstOf (fun t => ∃ d ∈ due dto firstStart k,
        startOn firstStart (monthNo dto firstStart k) (min d (monthLength (monthNo dto firstStart k))) = t) m
      ((found dto firstStart k).take m) ↔ Apart (monthNo dto firstStart k) ((due dto firstStart k).take m) := by
  have hdue : (due dto firstStart k).Pairwise (· < ·) := hsorted.sublist List.filter_sublist
  by_cases hwhole : ∀ d ∈ due dto firstStart k, firstStart ≤
      startOn firstStart (monthNo dto firstStart k) (min d (countedLength (monthNo dto firstStart k)))
  · have hmonth := @FirstOf.map_iff _ _ (fun a => ∃ d ∈ due dto firstStart k,
      min d (monthLength (monthNo dto firstStart k)) = a) m
      (((due dto firstStart k).map (min · (countedLength (monthNo dto firstStart k)))).take m) _ _ _
      (@startOn_strictMono firstStart (monthNo dto firstStart k))
    rw [month_iff hdue] at hmonth
    rw [found_eq hwhole, ← List.map_take, ← hmonth]
    have hsame : (fun t => ∃ a, (∃ d ∈ due dto firstStart k, min d (monthLength (monthNo dto firstStart k)) = a) ∧
        startOn firstStart (monthNo dto firstStart k) a = t) = fun t => ∃ d ∈ due dto firstStart k,
        startOn firstStart (monthNo dto firstStart k) (min d (monthLength (monthNo dto firstStart k))) = t := by
      funext t
      simp
    rw [hsame]
  · simp only [not_forall, not_le] at hwhole
    obtain ⟨d, hd, hover⟩ := hwhole
    obtain ⟨hn, hday⟩ := counted_early hd hover
    -- the first start is on that day: it is the only one that is due, and the loop comes to none
    have hnone : found dto firstStart k = [] := List.eq_nil_iff_forall_not_mem.2 fun t ht => by
      obtain ⟨e, -, hle, rfl⟩ := mem_found.1 ht
      have hlen := countedLength_eq 1
      rw [if_pos rfl] at hlen
      rw [le_startOn_iff, hn] at hle
      omega
    rw [hnone, List.take_nil]
    constructor
    · intro h
      obtain rfl : 0 = m := (h.rest _ ⟨d, hd, rfl⟩ List.not_mem_nil).1
      exact ⟨fun _ hd => (nomatch hd), fun _ _ hd => (nomatch hd)⟩
    · rintro ⟨-, hleap⟩
      cases m with
      | zero => exact FirstOf.zero
      | succ m =>
        obtain ⟨e, he⟩ : ∃ e, e ∈ (due dto firstStart k).take (m + 1) :=
          List.exists_mem_of_ne_nil _ fun hnil => by
            rcases List.take_eq_nil_iff.1 hnil with h | h
            · exact absurd h (Nat.succ_ne_zero m)
            · rw [h] at hd
              cases hd
        have hle := of_decide_eq_true (List.mem_filter.1 (List.mem_of_mem_take he)).2
        have h28 := hleap hn e he
        rw [le_startOn_iff, hn] at hle
        omega

/-! ### All months -/

theorem monthDays_range (hrange : ∀ d ∈ dto.bymonth, 1 ≤ d ∧ d ≤ 31) {d : ℤ} (h : d ∈ monthDays dto firstStart) :
    1 ≤ d ∧ d ≤ 31 := by
  unfold monthDays at h
  split at h
  · have hday := firstDay_monthOf (dayOf firstStart)
    have hlen := (monthLength_range (monthOf (dayOf firstStart))).2
    unfold monthLength at hlen
    rw [List.mem_singleton.1 h, dayOfMonth_eq]
    omega
  · exact hrange d h

theorem monthDays_ne_nil : monthDays dto firstStart ≠ [] := by
  unfold monthDays
  split
  · exact List.cons_ne_nil _ _
  · rename_i h
    exact fun hnil => h (List.isEmpty_iff.2 hnil)

theorem startOn_range (k : ℕ) {d : ℤ} (h1 : 1 ≤ d) (hd : d ≤ monthLength (monthNo dto firstStart k)) :
    firstDay (monthNo dto firstStart k) * dayMs ≤ startOn firstStart (monthNo dto firstStart k) d ∧
      startOn firstStart (monthNo dto firstStart k) d < firstDay (monthNo dto firstStart (k + 1)) * dayMs := by
  have hmono := firstDay_strictMono.monotone (show monthNo dto firstStart k + 1 ≤ monthNo dto firstStart (k + 1) from
    monthNo_lt k)
  have htime : 0 ≤ timeInDay firstStart ∧ timeInDay firstStart < dayMs :=
    ⟨Int.emod_nonneg _ (by decide), Int.emod_lt_of_pos _ (by decide)⟩
  unfold monthLength at hd
  unfold startOn
  unfold dayMs at *
  omega

theorem length_starts (hrange : ∀ d ∈ monthDays dto firstStart, 1 ≤ d ∧ d ≤ 31) :
    maxOccurrences ≤ (starts dto firstStart).length := by
  have hrounds : maxExpansionIterations ≤ (starts dto firstStart).length := by
    have hrounds : starts dto firstStart =
        rounds (startIn dto firstStart) (· + 1) (monthDays dto firstStart) (maxExpansionIterations + 1) 0 := by
      rw [starts_eq, rounds_eq_filterMap]
      refine congrArg (List.filterMap · _) (funext fun x => ?_)
      rw [iterate_next, Nat.zero_add]
    rw [hrounds, rounds, List.length_append]
    refine (le_length_rounds fun k => ?_).trans (Nat.le_add_left _ _)
    have hfound := @found_later dto firstStart (fun d hd => (hrange d hd).1) k
    rw [iterate_next, Nat.zero_add, Nat.add_comm 1 k]
    rw [found] at hfound
    rw [hfound]
    exact mt List.map_eq_nil_iff.1 (mt List.map_eq_nil_iff.1 monthDays_ne_nil)
  exact le_trans (by decide) hrounds

/-- The loop comes to the first hundred instants of the series iff in every month it comes to the first ones there. -/
theorem firstOf_iff (hrange : ∀ d ∈ monthDays dto firstStart, 1 ≤ d ∧ d ≤ 31) :
    FirstOf (Recurs dto firstStart) maxOccurrences ((starts dto firstStart).take maxOccurrences) ↔
      ∀ k < maxExpansionIterations + 1, FirstOf (fun t => ∃ d ∈ due dto firstStart k,
          startOn firstStart (monthNo dto firstStart k) (min d (monthLength (monthNo dto firstStart k))) = t)
        (maxOccurrences - ((List.range k).flatMap (found dto firstStart)).length)
        ((found dto firstStart k).take (maxOccurrences - ((List.range k).flatMap (found dto firstStart)).length)) := by
  have hlong := length_starts hrange
  have hrecurs : Recurs dto firstStart = fun t => ∃ k, ∃ d ∈ due dto firstStart k,
      startOn firstStart (monthNo dto firstStart k) (min d (monthLength (monthNo dto firstStart k))) = t :=
    funext fun t => propext (recurs_iff fun d hd => (hrange d hd).1)
  rw [starts] at hlong ⊢
  rw [hrecurs]
  refine FirstOf.blocks_iff (x := fun k => firstDay (monthNo dto firstStart k) * dayMs) (fun k => ?_) ?_ ?_ hlong
  · have hlt := firstDay_strictMono (@monthNo_lt dto firstStart k)
    unfold dayMs
    omega
  · intro k t ht
    obtain ⟨d, hd, -, rfl⟩ := mem_found.1 ht
    have hlen := countedLength_range (monthNo dto firstStart k)
    have hd1 := (hrange d hd).1
    exact startOn_range k (by omega) (by omega)
  · rintro k _ ⟨d, hd, rfl⟩
    have hlen := (monthLength_range (monthNo dto firstStart k)).1
    have hd1 := (hrange d (List.mem_filter.1 hd).1).1
    exact startOn_range k (by omega) (by omega)

theorem length_le_of_sorted {l : List ℤ} (hsorted : l.Pairwise (· < ·)) (hl : ∀ d ∈ l, 1 ≤ d ∧ d ≤ 31) :
    l.length ≤ 31 := by
  have hle := @length_le_of_pairwise_lt l 1 32 (by decide) hsorted fun d hd => by
    have := hl d hd
    omega
  omega

theorem length_found_le {k m : ℕ} (hrange : ∀ d ∈ monthDays dto firstStart, 1 ≤ d ∧ d ≤ 31) (hm : 31 < m)
    (hsorted : ((found dto firstStart k).take m).Pairwise (· < ·)) : (found dto firstStart k).length ≤ 31 := by
  have hlen : ((found dto firstStart k).take m).length ≤ 31 := by
    have hdays := @length_le_of_sorted (((found dto firstStart k).take m).map fun t => dayOfMonth (dayOf t)) ?_ ?_
    · rwa [List.length_map] at hdays
    · rw [List.pairwise_map]
      refine hsorted.imp_of_mem fun {s t} hs ht hlt => ?_
      obtain ⟨d, hd, -, rfl⟩ := mem_found.1 (List.mem_of_mem_take hs)
      obtain ⟨e, he, -, rfl⟩ := mem_found.1 (List.mem_of_mem_take ht)
      have hlen := countedLength_range (monthNo dto firstStart k)
      have hd1 := (hrange d hd).1
      have he1 := (hrange e he).1
      rw [dayOfMonth_startOn (by omega) (by omega), dayOfMonth_startOn (by omega) (by omega)]
      exact (startOn_strictMono _).lt_iff_lt.1 hlt
    · intro d hd
      obtain ⟨t, ht, rfl⟩ := List.mem_map.1 hd
      obtain ⟨e, he, -, rfl⟩ := mem_found.1 (List.mem_of_mem_take ht)
      have hlen := countedLength_range (monthNo dto firstStart k)
      have hlen' := monthLength_range (monthNo dto firstStart k)
      have he1 := (hrange e he).1
      rw [dayOfMonth_startOn (by omega) (by omega)]
      omega
  rw [List.length_take] at hlen
  omega

theorem sorted_of_first (hrange : ∀ d ∈ monthDays dto firstStart, 1 ≤ d ∧ d ≤ 31)
    (hfirst : ((found dto firstStart 0).take 100).Pairwise (· < ·))
    (hsecond : ((found dto firstStart 1).take (100 - (found dto firstStart 0).length)).Pairwise (· < ·)) :
    (monthDays dto firstStart).Pairwise (· < ·) := by
  have hlen := length_found_le hrange (by decide) hfirst
  have hlen' := length_found_le hrange (by omega) hsecond
  have hfound := @found_later dto firstStart (fun d hd => (hrange d hd).1) 0
  rw [List.take_of_length_le (by omega), hfound, List.pairwise_map, List.pairwise_map] at hsecond
  refine hsecond.imp fun {d e} hlt => ?_
  have hmin := (startOn_strictMono _).lt_iff_lt.1 hlt
  omega

theorem length_found (hrange : ∀ d ∈ monthDays dto firstStart, 1 ≤ d ∧ d ≤ 31)
    (hsorted : (monthDays dto firstStart).Pairwise (· < ·))
    (hfirst : Apart (monthNo dto firstStart 0) ((due dto firstStart 0).take 100)) (k : ℕ) :
    ((List.range k).flatMap (found dto firstStart)).length = ((List.range k).flatMap (due dto firstStart)).length := by
  have hlen := length_le_of_sorted hsorted hrange
  have hdue : (due dto firstStart 0).length ≤ (monthDays dto firstStart).length := List.length_filter_le ..
  rw [List.take_of_length_le (by omega)] at hfirst
  have hall : ∀ j, (found dto firstStart j).length = (due dto firstStart j).length := by
    intro j
    cases j with
    | zero =>
      rw [found_eq, List.length_map, List.length_map]
      intro d hd
      by_contra hover
      obtain ⟨hn, hday⟩ := counted_early hd (not_le.1 hover)
      have h28 := hfirst.leap hn d hd
      have hle := of_decide_eq_true (List.mem_filter.1 hd).2
      rw [le_startOn_iff, hn] at hle
      omega
    | succ j =>
      have hpos : ∀ d ∈ monthDays dto firstStart, 1 ≤ d := fun d hd => (hrange d hd).1
      rw [found_later hpos, due_later hpos, List.length_map, List.length_map]
  rw [List.length_flatMap, List.length_flatMap, funext hall]

theorem taken_eq_nil (hrange : ∀ d ∈ monthDays dto firstStart, 1 ≤ d ∧ d ≤ 31) {k : ℕ}
    (hk : maxExpansionIterations < k) : taken dto firstStart k = [] := by
  have hpos : ∀ d ∈ monthDays dto firstStart, 1 ≤ d := fun d hd => (hrange d hd).1
  have hmany : ∀ j, j ≤ ((List.range (j + 1)).flatMap (due dto firstStart)).length := by
    intro j
    induction j with
    | zero => exact Nat.zero_le _
    | succ j ih =>
      have hone := List.length_pos_of_ne_nil (@monthDays_ne_nil dto firstStart)
      rw [List.range_succ, List.flatMap_append, List.length_append, List.flatMap_singleton, due_later hpos]
      omega
  obtain ⟨j, rfl⟩ : ∃ j, k = j + 1 := ⟨k - 1, by omega⟩
  have hj := hmany j
  have hleft : maxOccurrences - ((List.range (j + 1)).flatMap (due dto firstStart)).length = 0 := by
    unfold maxExpansionIterations at hk
    unfold maxOccurrences
    omega
  rw [taken, hleft, List.take_zero]

theorem firstOf_iff_plain (hdays : ∀ d ∈ monthDays dto firstStart, 1 ≤ d ∧ d ≤ 31) :
    FirstOf (Recurs dto firstStart) maxOccurrences ((starts dto firstStart).take maxOccurrences) ↔
      Plain dto firstStart := by
  rw [firstOf_iff hdays]
  constructor
  · intro h
    have hfirst := h 0 (by decide)
    have hsecond := (h 1 (by decide)).sorted
    rw [List.range_one, List.flatMap_singleton] at hsecond
    have hsorted := sorted_of_first hdays hfirst.sorted hsecond
    have hlen := length_found hdays hsorted ((found_iff hsorted 0 100).1 hfirst)
    refine ⟨hsorted, fun k => ?_⟩
    by_cases hk : k < maxExpansionIterations + 1
    · have hmonth := (found_iff hsorted k _).1 (h k hk)
      rwa [hlen] at hmonth
    · rw [taken_eq_nil hdays (by omega)]
      exact ⟨fun _ hd => (nomatch hd), fun _ _ hd => (nomatch hd)⟩
  · rintro ⟨hsorted, hapart⟩ k -
    rw [length_found hdays hsorted (hapart 0), found_iff hsorted]
    exact hapart k

/-! ### The dates that the loop comes to -/

/-- **The loop.** -/
theorem comes_monthly (hm : dto.pattern = .monthly) (hdays : ∀ d ∈ monthDays dto firstStart, 1 ≤ d ∧ d ≤ 31)
    (hs : IsDate firstStart) :
    Comes dto firstStart (List.range (maxExpansionIterations + 1) ×ˢ monthDays dto firstStart)
      (fun x => monthlyDate utcServer dto firstStart x.1 x.2) (fun x => startIn dto firstStart x.1 x.2)
      (fun t => IsDate t ∧ IsDate (lastOf (monthOf (dayOf t))))
      (intervalOf dto < infinity ∧ IsDate (startOn firstStart (monthOf (dayOf firstStart)) 1) ∧
        IsDate (lastOf (monthOf (dayOf firstStart)))) := by
  have hpos : ∀ k, ∀ d ∈ monthDays dto firstStart, 1 ≤ min d (countedLength (monthNo dto firstStart k)) :=
    fun k d hd => le_min (hdays d hd).1 (by have := (countedLength_range (monthNo dto firstStart k)).1; omega)
  have hmonth : ∀ k, ∀ d ∈ monthDays dto firstStart, monthOf (dayOf (startOn firstStart (monthNo dto firstStart k)
      (min d (countedLength (monthNo dto firstStart k))))) = monthNo dto firstStart k := fun k d hd =>
    monthOf_startOn (hpos k d hd) ((min_le_right _ _).trans (countedLength_range _).2)
  have hfirst : ∀ k, ∀ d ∈ monthDays dto firstStart, startOn firstStart (monthNo dto firstStart k) 1 ≤
      startOn firstStart (monthNo dto firstStart k) (min d (countedLength (monthNo dto firstStart k))) := fun k d hd =>
    (startOn_strictMono _).monotone (hpos k d hd)
  have hzero : monthNo dto firstStart 0 = monthOf (dayOf firstStart) := by
    rw [monthNo, Nat.cast_zero, zero_mul, add_zero]
  refine ⟨dates_monthly hm, fun x _ h => ?_, fun x hx t h => ?_, fun hb x hx h => ?_, fun hb x hx t h ht => ?_⟩
  · by_cases hvalid : Valid dto firstStart x.1 x.2
    · rw [monthlyDate_of_valid hvalid] at h
      exact Option.map_eq_none_iff.1 h
    · rw [monthlyDate_of_not hvalid] at h
      cases h
  · by_cases hvalid : Valid dto firstStart x.1 x.2
    · rw [monthlyDate_of_valid hvalid] at h
      obtain ⟨u, hu, ht⟩ := Option.map_eq_some_iff.1 h
      obtain rfl := Option.some.inj ht
      refine ⟨hu, ?_⟩
      obtain ⟨-, rfl⟩ := startIn_eq_some.1 hu
      rw [hmonth x.1 x.2 (List.mem_product.1 hx).2]
      exact ⟨hvalid.day, hvalid.last⟩
    · rw [monthlyDate_of_not hvalid] at h
      cases h
  · -- only days of the first month are before the first start
    have hday := (List.mem_product.1 hx).2
    have hover := startIn_eq_none.1 h
    have hk : x.1 = 0 := by
      by_contra hk
      obtain ⟨k, hk⟩ := Nat.exists_eq_succ_of_ne_zero hk
      rw [hk] at hover
      exact absurd (le_startOn_later k (hpos (k + 1) x.2 hday)) (not_le.2 hover)
    have hle := hfirst x.1 x.2 hday
    have hvalid : Valid dto firstStart x.1 x.2 := by
      refine ⟨hb.1, ?_, ?_, ?_, hover.le.trans hs.2⟩
      · rw [hk, hzero]
        exact hb.2.1
      · rw [hk, hzero]
        exact hb.2.2
      · refine le_trans ?_ hle
        rw [hk, hzero]
        exact hb.2.1.1
    rw [monthlyDate_of_valid hvalid, h]
    rfl
  · have hday := (List.mem_product.1 hx).2
    obtain ⟨-, rfl⟩ := startIn_eq_some.1 h
    rw [hmonth x.1 x.2 hday] at ht
    have hle := (hfirst x.1 x.2 hday).trans ht.1.2
    have hvalid : Valid dto firstStart x.1 x.2 := by
      refine ⟨hb.1, ?_, ht.2, ht.1⟩
      rcases Nat.eq_zero_or_pos x.1 with hk | hk
      · rw [hk, hzero]
        exact hb.2.1
      · obtain ⟨k, hk⟩ := Nat.exists_eq_succ_of_ne_zero hk.ne'
        have hlater := @le_startOn_later dto firstStart k 1 le_rfl
        rw [hk] at hle ⊢
        exact ⟨hs.1.trans hlater, hle⟩
    rw [monthlyDate_of_valid hvalid, h]
    rfl

/-- A loop that comes to a date first has begun with one. -/
theorem begins_of_take {ts : List ℤ} (hm : dto.pattern = .monthly)
    (htake : (dates utcServer dto firstStart).take maxOccurrences = ts.map some) :
    intervalOf dto < infinity ∧ IsDate (startOn firstStart (monthOf (dayOf firstStart)) 1) ∧
      IsDate (lastOf (monthOf (dayOf firstStart))) := by
  by_contra hnot
  obtain ⟨d, ds, hds⟩ := List.exists_cons_of_ne_nil (@monthDays_ne_nil dto firstStart)
  have hzero : monthNo dto firstStart 0 = monthOf (dayOf firstStart) := by
    rw [monthNo, Nat.cast_zero, zero_mul, add_zero]
  have hinvalid : monthlyDate utcServer dto firstStart 0 d = some none :=
    monthlyDate_of_not fun h => hnot ⟨h.interval, hzero ▸ h.first, hzero ▸ h.last⟩
  have hhead : (dates utcServer dto firstStart).head? = some none := by
    rw [dates_monthly hm, List.range_succ_eq_map, List.product_cons, hds, List.map_cons, List.cons_append,
      List.filterMap_cons, hinvalid]
    rfl
  cases hdates : dates utcServer dto firstStart with
  | nil =>
    rw [hdates] at hhead
    cases hhead
  | cons s l =>
    rw [hdates, List.head?_cons, Option.some.injEq] at hhead
    have hmem : (none : Date) ∈ ts.map some := by
      rw [← htake, hdates, hhead]
      exact List.mem_cons_self
    obtain ⟨t, -, ht⟩ := List.mem_map.1 hmem
    cases ht

/-- **Monthly series.** The expansion of a monthly request is the series, whatever the count, the end date, the excluded
dates and the length of the meetings are, if and only if its days are listed in increasing order and, in every month of
its first hundred starts, no two of them come to the last day of the month, which is a date. -/
theorem monthly_exact_iff (hm : dto.pattern = .monthly) (hrange : ∀ d ∈ dto.bymonth, 1 ≤ d ∧ d ≤ 31)
    (hs : IsDate firstStart) :
    (∀ (count : Option ℤ) (untilDate : Option Date) (exDates : List Date) (firstEnd : Instant),
      Expands { dto with count, untilDate } firstStart (Recurs dto firstStart) exDates firstEnd) ↔
      Plain dto firstStart ∧ InRange dto firstStart := by
  have hdays : ∀ d ∈ monthDays dto firstStart, 1 ≤ d ∧ d ≤ 31 := fun d hd => monthDays_range hrange hd
  have hcomes := comes_monthly hm hdays hs
  have hlong := length_starts hdays
  rw [starts_eq] at hlong
  rw [hcomes.expands_all_iff (.inr hm) hlong fun _ => begins_of_take hm, ← starts_eq, firstOf_iff_plain hdays]
  refine and_congr_right fun hplain => ?_
  have hfirst := (firstOf_iff_plain hdays).2 hplain
  constructor
  · rintro ⟨⟨hinterval, hbegin, hlast⟩, hgood⟩
    exact ⟨hinterval, hbegin, hlast, fun starts hstarts => hstarts.unique hfirst ▸ hgood⟩
  · rintro ⟨hinterval, hbegin, hlast, hgood⟩
    exact ⟨⟨hinterval, hbegin, hlast⟩, hgood _ hfirst⟩

theorem plain_of_dropLast (hsorted : (monthDays dto firstStart).Pairwise (· < ·))
    (hearly : ∀ d ∈ (monthDays dto firstStart).dropLast, d < 28) (hlater : 1 < monthOf (dayOf firstStart)) :
    Plain dto firstStart := by
  refine ⟨hsorted, fun k => ⟨fun d hd => ?_, fun hn => ?_⟩⟩
  · have hsub : (taken dto firstStart k).Sublist (monthDays dto firstStart) :=
      (List.take_sublist ..).trans List.filter_sublist
    have hmin := ((pairwise_min_iff hsorted).2 hearly).sublist (hsub.map (min · 28))
    have hlt := (pairwise_min_iff (hsorted.sublist hsub)).1 hmin d hd
    exact lt_of_lt_of_le hlt (monthLength_range _).1
  · have hno := @le_monthNo dto firstStart k
    omega

/-- The calendar is long enough for a start within 60,000 years of 1970 and intervals up to 20,000 months. -/
theorem inRange_of_small (hrange : ∀ d ∈ dto.bymonth, 1 ≤ d ∧ d ≤ 31) (hi : intervalOf dto ≤ 20000)
    (hlo : -2000000000000000 ≤ firstStart) (hhi : firstStart ≤ 2000000000000000) : InRange dto firstStart := by
  have hdays : ∀ d ∈ monthDays dto firstStart, 1 ≤ d ∧ d ≤ 31 := fun d hd => monthDays_range hrange hd
  have hfirst : firstDay (-800000) = -25069029 := by decide
  have hmiddle : firstDay 800000 = 23629972 := by decide
  have hlast : firstDay 3000001 = 90591128 := by decide
  have hbetween : ∀ n : ℤ, -800000 ≤ n → n ≤ 3000000 → -25069029 ≤ firstDay n ∧ firstDay (n + 1) ≤ 90591128 := by
    intro n h0 h1
    have hlow := firstDay_strictMono.monotone h0
    have hhigh := firstDay_strictMono.monotone (show n + 1 ≤ 3000001 by omega)
    omega
  have htime : 0 ≤ timeInDay firstStart ∧ timeInDay firstStart < dayMs :=
    ⟨Int.emod_nonneg _ (by decide), Int.emod_lt_of_pos _ (by decide)⟩
  have hsplit := dayOf_add_timeInDay firstStart
  have hday := firstDay_monthOf (dayOf firstStart)
  have hmonth : -800000 ≤ monthOf (dayOf firstStart) ∧ monthOf (dayOf firstStart) < 800000 :=
    monthOf_mem (by unfold dayMs at *; omega) (by unfold dayMs at *; omega)
  obtain ⟨hmonthLow, hmonthHigh⟩ := hbetween _ hmonth.1 (by omega)
  have hlen := (monthLength_range (monthOf (dayOf firstStart))).1
  unfold monthLength at hlen
  refine ⟨lt_of_le_of_lt hi (by decide +kernel), ?_, ?_, fun starts hstarts t ht => ?_⟩
  · unfold startOn
    unfold dayMs at *
    exact ⟨by omega, by omega⟩
  · unfold lastOf
    unfold dayMs at *
    exact ⟨by omega, by omega⟩
  · obtain ⟨d, hd⟩ := List.exists_mem_of_ne_nil _ (@monthDays_ne_nil dto firstStart)
    have hin : ∀ k, firstDay (monthNo dto firstStart k) * dayMs ≤
        startOn firstStart (monthNo dto firstStart k) (min d (monthLength (monthNo dto firstStart k))) ∧
        startOn firstStart (monthNo dto firstStart k) (min d (monthLength (monthNo dto firstStart k))) <
          firstDay (monthNo dto firstStart (k + 1)) * dayMs := fun k =>
      startOn_range k (le_min (hdays d hd).1 (by have := (monthLength_range (monthNo dto firstStart k)).1; omega))
        (min_le_right ..)
    have hmono : StrictMono fun i : ℕ => startOn firstStart (monthNo dto firstStart (i + 1))
        (min d (monthLength (monthNo dto firstStart (i + 1)))) :=
      strictMono_nat_of_lt_succ fun i => lt_of_lt_of_le (hin (i + 1)).2 (hin (i + 2)).1
    have hpos : ∀ d ∈ monthDays dto firstStart, 1 ≤ d := fun d hd => (hdays d hd).1
    have hrecurs : ∀ i : ℕ, Recurs dto firstStart (startOn firstStart (monthNo dto firstStart (i + 1))
        (min d (monthLength (monthNo dto firstStart (i + 1))))) := fun i =>
      (recurs_iff hpos).2 ⟨i + 1, d, by rwa [due_later hpos], rfl⟩
    obtain ⟨i, hlt, hle⟩ := hstarts.exists_le hmono hrecurs ht
    have hupper := (hin (i + 1)).2
    have hnot := (hstarts.holds t ht).notBefore
    have hday' := firstDay_monthOf (dayOf t)
    have hsplit' := dayOf_add_timeInDay t
    have htime' : 0 ≤ timeInDay t ∧ timeInDay t < dayMs :=
      ⟨Int.emod_nonneg _ (by decide), Int.emod_lt_of_pos _ (by decide)⟩
    have hsteps : ((i + 1 + 1 : ℕ) : ℤ) * intervalOf dto ≤ 101 * 20000 :=
      mul_le_mul (by unfold maxOccurrences at hlt; omega) hi (intervalOf_pos dto).le (by decide)
    have hno : monthNo dto firstStart (i + 1 + 1) ≤ 3000000 := by
      unfold monthNo
      omega
    have hmonth' : -800000 ≤ monthOf (dayOf t) ∧ monthOf (dayOf t) < monthNo dto firstStart (i + 1 + 1) :=
      monthOf_mem (by unfold dayMs at *; omega) (by unfold dayMs at *; omega)
    obtain ⟨hlow, hhigh⟩ := hbetween _ hmonth'.1 (by omega)
    have hlen' := (monthLength_range (monthOf (dayOf t))).1
    unfold monthLength at hlen'
    unfold lastOf
    unfold dayMs at *
    exact ⟨⟨by omega, by omega⟩, by omega, by omega⟩

end Series

/-! ### The end of the month, and a list of days -/

/-- Four meetings, from nine o'clock on the 31st of January 2026 on. -/
def endOfMonth : CreateRecurringDto :=
  { firstStart := none, firstEnd := none, pattern := .monthly, count := some 4
    booking := { resourceId := "r", startTime := 0, endTime := 0 } }

/-- The end of the month is found in every month. -/
theorem monthly_exact_iff_endOfMonth :
    Expands { endOfMonth with count := some 4, untilDate := none } 1769850000000 (Recurs endOfMonth 1769850000000) []
      1769853600000 :=
  (@monthly_exact_iff endOfMonth 1769850000000 rfl (fun _ h => nomatch h) (by decide)).2
    ⟨plain_of_dropLast (by decide) (by decide) (by decide),
      inRange_of_small (fun _ h => nomatch h) (by decide) (by decide) (by decide)⟩ (some 4) none [] 1769853600000

def payDays : CreateRecurringDto := { endOfMonth with count := some 1, bymonth := [15, 1] }

/-- From the 1st of June 2026 on, the first of them is that day, but the 15th is found. -/
theorem first_of_june_lost : Recurs payDays 1780272000000 1780272000000 ∧
    ¬ Expands payDays 1780272000000 (Recurs payDays 1780272000000) [] 1780275600000 := by
  have hself : Recurs payDays 1780272000000 1780272000000 := ⟨le_rfl, rfl, by decide, by decide⟩
  refine ⟨hself, fun h => ?_⟩
  obtain ⟨ts, hfirst, htake⟩ := firstOf_of_expands (.inr (.inr rfl)) rfl h
  have hcomes := @comes_monthly payDays 1780272000000 rfl (by decide) (by decide)
  rw [hcomes.dates_eq] at htake
  obtain ⟨rfl, -⟩ := take_start hcomes.skipped hcomes.valid htake
  have hmem := hfirst.mem_of_least (by decide) hself fun t ht => ht.notBefore
  have hfound : found payDays 1780272000000 0 = [1781481600000, 1780272000000] := by decide
  have hcount : countOf payDays = 1 := by decide
  rw [← starts_eq, starts, List.range_succ_eq_map, List.flatMap_cons, hfound, hcount, List.cons_append,
    List.take_succ_cons, List.take_zero, List.mem_singleton] at hmem
  revert hmem
  decide

end BookingSystem.Contracts.MonthlySeries
