import BookingSystem.Contracts.MonthlySeries
import BookingSystem.Contracts.RuleText
import BookingSystem.Contracts.WeeklySeries

/-!
# Series that are given by a recurrence rule

`Faithful` asks of the expansion of a text that it is the recurrence that the text stands for as a rule of RFC 5545, or
an error. Under `Understood` and `InRange` it is: the rule has no parts that are left out, the series that it is read as
is the one that it describes, and the loop comes to no Invalid Date. The expansion of a text that is no rule never fails
(`rules_kept`).
-/

namespace BookingSystem.Contracts.RuleSeries

open Base Model Model.RecurrenceService Contracts.Recurrence
open Contracts.SeriesInUtc Contracts.RuleText
open Contracts.MonthlySeries (lastOf monthDays monthNo startOn)

section Conditions

variable (rule : Recur) (firstStart : ℤ)

/-- The expansion of the text is an error, or the recurrence: its first instants, as many as are wanted, less those
excluded. -/
def Faithful (server : TimeZone) (newDate : List Char → Date) (text : List Char) : Prop :=
  ∀ exDates firstEnd,
    (∃ e, expandRRule server newDate text firstStart exDates firstEnd = .error e) ∨
    ∃ rule starts, Recur.ofText text = some rule ∧
      FirstOf (fun t => rule.Occurs firstStart t ∧ rule.InTime t) (wanted rule) starts ∧
      expandRRule server newDate text firstStart exDates firstEnd =
        .ok (windows (firstEnd - firstStart) exDates (starts.map some))

/-- The rule names no days but weekdays, and no times. -/
structure Simple : Prop where
  bySecond : rule.bySecond = []
  byMinute : rule.byMinute = []
  byHour : rule.byHour = []
  byMonthDay : rule.byMonthDay = []
  byYearDay : rule.byYearDay = []
  byWeekNo : rule.byWeekNo = []
  byMonth : rule.byMonth = []
  bySetPos : rule.bySetPos = []

def ruleDays : List ℤ := if rule.byDay = [] then [weekdayOf firstStart] else rule.byDay.map (·.weekday)

/-- The first start of a weekly rule is not lost, no weekday is named twice, and weeks that begin on Sunday make no
difference. -/
structure WeeksKept : Prop where
  nodup : (rule.byDay.map (·.weekday)).Nodup
  wholeMinute : timeInDay firstStart % 60000 = 0
  first : timeInDay firstStart = 0 ∨ weekdayOf firstStart ∉ ruleDays rule firstStart
  weeks : rule.interval = 1 ∨ ∀ d ∈ ruleDays rule firstStart, d < rule.wkst ↔ weekdayOf firstStart < rule.wkst

/-- No month that a monthly rule comes to is too short for the day of the first start. -/
structure MonthsKept : Prop where
  long : ∀ k < wanted rule,
    let n := monthOf (dayOf firstStart) + k * rule.interval
    let d := dayOfMonth (dayOf firstStart)
    rule.InTime (startOn firstStart n (min d (monthLength n))) → d ≤ monthLength n
  leap : ∀ k : ℕ, monthOf (dayOf firstStart) + k * rule.interval = 1 → dayOfMonth (dayOf firstStart) ≤ 28

def monthStart (k : ℕ) : ℤ :=
  let n := monthOf (dayOf firstStart) + k * rule.interval
  startOn firstStart n (min (dayOfMonth (dayOf firstStart)) (monthLength n))

/-- One of the instants that are wanted, or the one after those that are in time. -/
def Reached (t : ℤ) : Prop :=
  ∃ starts, FirstOf (rule.Occurs firstStart) (starts.length + 1) (starts ++ [t]) ∧ starts.length < wanted rule ∧
    ∀ s ∈ starts, rule.InTime s

/-- What the expansion comes to before the end of the series are dates. -/
structure InRange : Prop where
  interval : (rule.interval : ℤ) < infinity
  dates : match rule.freq with
    | .monthly => IsDate (startOn firstStart (monthOf (dayOf firstStart)) 1) ∧
      IsDate (lastOf (monthOf (dayOf firstStart))) ∧
      ∀ k < wanted rule, (∀ j < k, rule.InTime (monthStart rule firstStart j)) →
        IsDate (monthStart rule firstStart k) ∧
          IsDate (lastOf (monthOf (dayOf (monthStart rule firstStart k))))
    | .weekly => IsDate ((dayOf firstStart - weekdayOf firstStart) * dayMs) ∧
      ∀ t, Reached rule firstStart t → IsDate t
    | _ => ∀ t, Reached rule firstStart t → IsDate t

/-- The rule is read as it is meant. -/
structure Understood : Prop where
  simple : Simple rule
  freq : match rule.freq with
    | .daily => rule.byDay = []
    | .weekly => WeeksKept rule firstStart
    | .monthly => rule.byDay = [] ∧ MonthsKept rule firstStart
    | _ => False

variable {rule firstStart} {t : ℤ}

/-! ### What a simple rule describes -/

theorem timeInDay_parts (t : ℤ) : timeInDay t =
    t / 3600000 % 24 * 3600000 + t / 60000 % 60 * 60000 + t / 1000 % 60 * 1000 + t % 1000 := by
  have hminutes : t / 60000 / 60 = t / 3600000 := by omega
  have hseconds : t / 1000 / 60 = t / 60000 := by omega
  unfold timeInDay dayMs
  omega

theorem timeInDay_eq_iff_parts : timeInDay t = timeInDay firstStart ↔
    t / 3600000 % 24 = firstStart / 3600000 % 24 ∧ t / 60000 % 60 = firstStart / 60000 % 60 ∧
      t / 1000 % 60 = firstStart / 1000 % 60 ∧ t % 1000 = firstStart % 1000 := by
  have hparts : ∀ h m s f h' m' s' f' : ℤ, 0 ≤ m ∧ m < 60 → 0 ≤ m' ∧ m' < 60 → 0 ≤ s ∧ s < 60 → 0 ≤ s' ∧ s' < 60 →
      0 ≤ f ∧ f < 1000 → 0 ≤ f' ∧ f' < 1000 →
      (h * 3600000 + m * 60000 + s * 1000 + f = h' * 3600000 + m' * 60000 + s' * 1000 + f' ↔
        h = h' ∧ m = m' ∧ s = s' ∧ f = f') := by omega
  rw [timeInDay_parts t, timeInDay_parts firstStart]
  exact hparts _ _ _ _ _ _ _ _ (by omega) (by omega) (by omega) (by omega) (by omega) (by omega)

theorem occurs_iff (hs : Simple rule) (hfreq : rule.freq = .daily ∨ rule.freq = .weekly ∨ rule.freq = .monthly) :
    rule.Occurs firstStart t ↔ firstStart ≤ t ∧ (rule.interval : ℤ) ∣ rule.period t - rule.period firstStart ∧
      timeInDay t = timeInDay firstStart ∧ rule.AllowsWeekday (dayOf t) ∧
      rule.SameDay (dayOf t) (dayOf firstStart) := by
  have hcoarse : rule.freq ≠ .hourly ∧ rule.freq ≠ .minutely ∧ rule.freq ≠ .secondly := by
    rcases hfreq with h | h | h <;> rw [h] <;> decide
  rw [timeInDay_eq_iff_parts]
  constructor
  · rintro ⟨hle, hperiod, ⟨hday, hsame, hhour, hminute, hsecond, hfraction⟩, -⟩
    simp only [Recur.AllowsTime, hs.byHour, hs.byMinute, hs.bySecond, if_true, List.mem_cons, List.not_mem_nil, hcoarse,
      or_false, decide_false, Bool.false_eq_true, false_or] at hhour hminute hsecond
    exact ⟨hle, hperiod, ⟨hhour, hminute, hsecond, hfraction⟩, hday.weekday, hsame⟩
  · rintro ⟨hle, hperiod, ⟨hhour, hminute, hsecond, hfraction⟩, hweekday, hsame⟩
    refine ⟨hle, hperiod, ⟨⟨.inl hs.byMonth, .inl hs.byWeekNo, .inl hs.byYearDay, .inl hs.byMonthDay, hweekday⟩, hsame,
      ?_, ?_, ?_, hfraction⟩, .inl hs.bySetPos⟩
    · rw [Recur.AllowsTime, if_pos hs.byHour]
      exact .inr hhour
    · rw [Recur.AllowsTime, if_pos hs.byMinute]
      exact .inr hminute
    · rw [Recur.AllowsTime, if_pos hs.bySecond]
      exact .inr hsecond

/-! ### The three frequencies -/

section Frequencies

variable {dto : CreateRecurringDto} (hreads : Reads rule dto)

include hreads in
theorem afterUntil_iff : (!afterUntil dto (some t)) = true ↔ rule.InTime t := by
  unfold afterUntil Recur.InTime
  rw [hreads.untilDate]
  cases rule.untilTime with
  | none => simp
  | some u => simp [isBefore]

/-- A daily rule goes on in steps of days. -/
theorem occurs_daily (hs : Simple rule) (hfreq : rule.freq = .daily) (hday : rule.byDay = []) :
    rule.Occurs firstStart t ↔ ∃ j : ℕ, t = firstStart + j * rule.interval * dayMs := by
  have hsplit := dayOf_add_timeInDay firstStart
  rw [occurs_iff hs (.inl hfreq)]
  simp only [Recur.period, Recur.SameDay, Recur.AllowsWeekday, hfreq, hday, true_or, and_true]
  constructor
  · rintro ⟨hle, ⟨c, hc⟩, htime⟩
    have hsplit' := dayOf_add_timeInDay t
    have hdays : dayOf firstStart ≤ dayOf t := Int.ediv_le_ediv (by decide) hle
    by_cases hzero : (rule.interval : ℤ) = 0
    · refine ⟨0, ?_⟩
      rw [hzero, zero_mul] at hc
      rw [hzero, mul_zero, zero_mul, add_zero, ← hsplit, ← hsplit', htime, show dayOf t = dayOf firstStart by omega]
    · have hpos : 0 ≤ c := by
        by_contra hneg
        have := Int.mul_neg_of_pos_of_neg (show (0 : ℤ) < rule.interval by omega) (not_le.1 hneg)
        omega
      refine ⟨c.toNat, ?_⟩
      have hsteps : c * rule.interval * dayMs = dayOf t * dayMs - dayOf firstStart * dayMs := by
        rw [mul_comm c, ← hc, sub_mul]
      rw [Int.toNat_of_nonneg hpos, hsteps]
      omega
  · rintro ⟨j, rfl⟩
    have hnonneg : 0 ≤ (j : ℤ) * rule.interval := mul_nonneg (Int.natCast_nonneg j) (Int.natCast_nonneg _)
    refine ⟨?_, ⟨j, ?_⟩, ?_⟩
    · unfold dayMs
      omega
    · rw [add_comm firstStart, dayOf_add_days, add_sub_cancel_right, mul_comm]
    · rw [add_comm, timeInDay_add_days]

theorem comes_daily (hd : dto.pattern = .daily) : Comes dto firstStart (List.range (countOf dto))
    (fun i => some (addDays utcServer firstStart (times i (intervalOf dto))))
    (fun i => some (firstStart + i * intervalOf dto * dayMs)) IsDate (intervalOf dto < infinity) := by
  have hday : ∀ i : ℕ, addDays utcServer firstStart (times i (intervalOf dto)) =
      if intervalOf dto < infinity then timeClip (firstStart + i * intervalOf dto * dayMs) else none := fun i => by
    rw [addDays_utcServer, Option.bind_some, times]
    split <;> rfl
  refine ⟨?_, fun i _ h => ?_, fun i _ t h => ?_, fun _ i _ h => ?_, fun hb i _ t h ht => ?_⟩
  · rw [dates_daily hd, ← List.filterMap_eq_map]
    rfl
  · cases h
  · rw [hday, Option.some.injEq] at h
    obtain ⟨-, h⟩ := Option.ite_none_right_eq_some.1 h
    obtain ⟨hdate, rfl⟩ := timeClip_eq_some.1 h
    exact ⟨rfl, hdate⟩
  · cases h
  · obtain rfl := Option.some.inj h
    rw [hday, if_pos hb, timeClip, if_pos ht]

include hreads in
theorem expands_daily (hs : Simple rule) (hfreq : rule.freq = .daily) (hday : rule.byDay = [])
    (hpos : 0 < rule.interval) (hin : InRange rule firstStart) (exDates : List Date) (firstEnd : Instant) :
    Expands dto firstStart (rule.Occurs firstStart) exDates firstEnd := by
  have hd : dto.pattern = .daily := by
    rw [hreads.pattern, hfreq]
    rfl
  obtain ⟨hinterval, hdates⟩ := hin
  rw [hfreq] at hdates
  have hcomes := @comes_daily firstStart dto hd
  have hlen : ((List.range (countOf dto)).filterMap
      fun i : ℕ => some (firstStart + i * intervalOf dto * dayMs)).length = countOf dto := by
    rw [List.filterMap_eq_map', List.length_map, List.length_range]
  have hstep : ∀ i j : ℕ, i < j → firstStart + i * rule.interval * dayMs < firstStart + j * rule.interval * dayMs := by
    intro i j hij
    have hmul : (i : ℤ) * rule.interval < j * rule.interval :=
      mul_lt_mul_of_pos_right (by omega) (by omega)
    unfold dayMs
    omega
  have henum : Enumerates (rule.Occurs firstStart)
      ((List.range (countOf dto)).filterMap fun i : ℕ => some (firstStart + i * intervalOf dto * dayMs)) := by
    rw [List.filterMap_eq_map', hreads.interval]
    refine ⟨?_, fun t ht => ?_, fun t ht hnot s hs' => ?_⟩
    · rw [List.pairwise_map]
      exact List.pairwise_lt_range.imp fun {i j} hij => hstep i j hij
    · obtain ⟨i, -, rfl⟩ := List.mem_map.1 ht
      exact (occurs_daily hs hfreq hday).2 ⟨i, rfl⟩
    · obtain ⟨i, hi, rfl⟩ := List.mem_map.1 hs'
      obtain ⟨j, rfl⟩ := (occurs_daily hs hfreq hday).1 ht
      refine hstep i j ?_
      by_contra hle
      refine hnot (List.mem_map.2 ⟨j, List.mem_range.2 ?_, rfl⟩)
      have := List.mem_range.1 hi
      omega
  refine hcomes.expands (.inl hd) (hreads.interval ▸ hinterval) le_rfl hlen.ge (henum.take_firstOf hlen.ge)
    fun starts t hpre hlt hall =>
      hdates t ⟨starts, ?_, hreads.count ▸ hlt, fun s hs => (afterUntil_iff hreads).1 (hall s hs)⟩
  exact (henum.take_firstOf hlen.ge).of_initial hpre hlt hlen.ge

include hreads in
theorem weekdays_eq (hplain : ∀ d ∈ rule.byDay, d.nth = none) :
    WeeklySeries.weekdays dto firstStart = ruleDays rule firstStart := by
  rw [WeeklySeries.weekdays, hreads.byday hplain, ruleDays]
  cases rule.byDay <;> rfl

theorem mem_ruleDays_iff (hfreq : rule.freq = .weekly) (hplain : ∀ d ∈ rule.byDay, d.nth = none) :
    rule.AllowsWeekday (dayOf t) ∧ rule.SameDay (dayOf t) (dayOf firstStart) ↔
      weekdayOf t ∈ ruleDays rule firstStart := by
  rw [Recur.allowsWeekday_iff hplain, Recur.SameDay, hfreq]
  by_cases hnil : rule.byDay = []
  · simp only [ruleDays, hnil, true_or, true_and, if_true, List.mem_singleton, forall_const]
    rfl
  · simp only [ruleDays, hnil, false_or, if_false, List.mem_map, false_implies, and_true]
    exact exists_congr fun d => and_congr_right fun _ => eq_comm

theorem weeks_sub {a b w : ℤ} (hw : 0 ≤ w ∧ w < 7) (hside : (a + 4) % 7 < w ↔ (b + 4) % 7 < w) :
    (a + 4 - w) / 7 - (b + 4 - w) / 7 = (a + 4) / 7 - (b + 4) / 7 := by
  by_cases h : (a + 4) % 7 < w
  · have h' := hside.1 h
    have ha : (a + 4 - w) / 7 = (a + 4) / 7 - 1 := by omega
    have hb : (b + 4 - w) / 7 = (b + 4) / 7 - 1 := by omega
    omega
  · have h' := mt hside.2 h
    have ha : (a + 4 - w) / 7 = (a + 4) / 7 := by omega
    have hb : (b + 4 - w) / 7 = (b + 4) / 7 := by omega
    omega

include hreads in
theorem occurs_weekly (hs : Simple rule) (hfreq : rule.freq = .weekly) (hplain : ∀ d ∈ rule.byDay, d.nth = none)
    (hw : 0 ≤ rule.wkst ∧ rule.wkst < 7) (hkept : WeeksKept rule firstStart) :
    rule.Occurs firstStart t ↔ WeeklySeries.Recurs dto firstStart t := by
  have hweeks : weekdayOf t ∈ ruleDays rule firstStart →
      ((rule.interval : ℤ) ∣ rule.period t - rule.period firstStart ↔
        intervalOf dto ∣ WeeklySeries.weekOf t - WeeklySeries.weekOf firstStart) := by
    intro hmem
    rw [hreads.interval]
    rcases hkept.weeks with hone | hsides
    · rw [hone]
      exact iff_of_true (one_dvd _) (one_dvd _)
    · have hsub := @weeks_sub (dayOf t) (dayOf firstStart) rule.wkst hw (hsides _ hmem)
      simp only [Recur.period, hfreq, hsub]
      rfl
  rw [occurs_iff hs (.inr (.inl hfreq)), mem_ruleDays_iff hfreq hplain]
  constructor
  · rintro ⟨hle, hperiod, htime, hday⟩
    exact ⟨hle, htime, (weekdays_eq hreads hplain).symm ▸ hday, (hweeks hday).1 hperiod⟩
  · rintro ⟨hle, htime, hday, hweek⟩
    rw [weekdays_eq hreads hplain] at hday
    exact ⟨hle, (hweeks hday).2 hweek, htime, hday⟩

include hreads in
theorem monthDays_eq : monthDays dto firstStart = [dayOfMonth (dayOf firstStart)] := by
  rw [monthDays, hreads.bymonth]
  rfl

include hreads in
theorem occurs_monthly (hs : Simple rule) (hfreq : rule.freq = .monthly) (hday : rule.byDay = []) :
    rule.Occurs firstStart t ↔ MonthlySeries.Recurs dto firstStart t ∧
      dayOfMonth (dayOf firstStart) ≤ monthLength (monthOf (dayOf t)) := by
  have hlen : ∀ day, dayOfMonth day ≤ monthLength (monthOf day) := fun day => by
    have hlt := (firstDay_monthOf day).2
    rw [dayOfMonth_eq, monthLength]
    omega
  rw [occurs_iff hs (.inr (.inr hfreq))]
  simp only [Recur.period, Recur.SameDay, Recur.AllowsWeekday, hfreq, hday, hs.byMonthDay, true_or, true_and,
    forall_const]
  constructor
  · rintro ⟨hle, hmonth, htime, hsame⟩
    have hfits := hlen (dayOf t)
    rw [hsame] at hfits
    refine ⟨⟨hle, htime, by rwa [hreads.interval], ?_⟩, hfits⟩
    rw [monthDays_eq hreads]
    exact ⟨_, List.mem_singleton_self _, by rw [hsame, min_eq_left hfits]⟩
  · rintro ⟨⟨hle, htime, hmonth, d, hd, hsame⟩, hfits⟩
    rw [monthDays_eq hreads, List.mem_singleton] at hd
    rw [hd, min_eq_left hfits] at hsame
    exact ⟨hle, by rwa [hreads.interval] at hmonth, htime, hsame⟩

/-! ### The months of a monthly rule -/

include hreads in
theorem monthNo_eq (k : ℕ) :
    monthNo dto firstStart k = monthOf (dayOf firstStart) + k * rule.interval := by
  rw [monthNo, hreads.interval]

include hreads in
theorem monthDays_range : ∀ d ∈ monthDays dto firstStart, 1 ≤ d ∧ d ≤ 31 := fun d hd =>
  MonthlySeries.monthDays_range (fun d hd => by rw [hreads.bymonth] at hd; cases hd) hd

include hreads in
theorem recurs_monthly_iff : MonthlySeries.Recurs dto firstStart t ↔ ∃ k, monthStart rule firstStart k = t := by
  have hrange : ∀ d ∈ monthDays dto firstStart, 1 ≤ d := fun d hd => (monthDays_range hreads d hd).1
  have hdays := @monthDays_eq rule firstStart dto hreads
  rw [MonthlySeries.recurs_iff hrange]
  refine exists_congr fun k => ?_
  have hdue : MonthlySeries.due dto firstStart k = [dayOfMonth (dayOf firstStart)] := by
    cases k with
    | zero =>
      have hfirst : firstStart ≤ startOn firstStart (monthNo dto firstStart 0)
          (dayOfMonth (dayOf firstStart)) := by
        rw [MonthlySeries.le_startOn_iff, dayOfMonth_eq, monthNo_eq hreads, Nat.cast_zero, zero_mul, add_zero]
        omega
      rw [MonthlySeries.due, hdays]
      exact List.filter_eq_self.2 fun d hd => decide_eq_true (List.mem_singleton.1 hd ▸ hfirst)
    | succ k => rw [MonthlySeries.due_later hrange, hdays]
  rw [hdue, monthNo_eq hreads]
  simp only [List.mem_singleton, exists_eq_left, monthStart]

include hreads in
theorem dayOfMonth_range : 1 ≤ dayOfMonth (dayOf firstStart) ∧ dayOfMonth (dayOf firstStart) ≤ 31 :=
  monthDays_range hreads _ (by
    rw [monthDays_eq hreads]
    exact List.mem_singleton_self _)

include hreads in
theorem monthOf_monthStart (k : ℕ) :
    monthOf (dayOf (monthStart rule firstStart k)) = monthOf (dayOf firstStart) + k * rule.interval := by
  have hd := @dayOfMonth_range rule firstStart dto hreads
  have hlen := (monthLength_range (monthOf (dayOf firstStart) + k * rule.interval)).1
  exact MonthlySeries.monthOf_startOn (le_min hd.1 (by omega)) (min_le_right ..)

include hreads in
theorem monthStart_strictMono : StrictMono (monthStart rule firstStart) := by
  refine strictMono_nat_of_lt_succ fun k => ?_
  have hd := @dayOfMonth_range rule firstStart dto hreads
  have hrange : ∀ j : ℕ, firstDay (monthNo dto firstStart j) * dayMs ≤ monthStart rule firstStart j ∧
      monthStart rule firstStart j < firstDay (monthNo dto firstStart (j + 1)) * dayMs := fun j => by
    have hlen := (monthLength_range (monthNo dto firstStart j)).1
    rw [monthStart, ← monthNo_eq hreads]
    exact MonthlySeries.startOn_range j (le_min hd.1 (by omega)) (min_le_right ..)
  exact lt_of_lt_of_le (hrange k).2 (hrange (k + 1)).1

include hreads in
theorem month_lt_of_mem {n : ℕ} {starts : List ℤ}
    (h : FirstOf (fun t => (∃ k, monthStart rule firstStart k = t) ∧ rule.InTime t) n starts) {k : ℕ}
    (hk : monthStart rule firstStart k ∈ starts) : k < n := by
  have hmono : StrictMono (monthStart rule firstStart) := monthStart_strictMono hreads
  have hsub : (List.range (k + 1)).map (monthStart rule firstStart) ⊆ starts := by
    intro s hs
    obtain ⟨j, hj, rfl⟩ := List.mem_map.1 hs
    have hle := hmono.monotone (Nat.lt_succ_iff.1 (List.mem_range.1 hj))
    by_contra hnot
    have hrest := (h.rest _ ⟨⟨j, rfl⟩, fun u hu => hle.trans ((h.holds _ hk).2 u hu)⟩ hnot).2 _ hk
    exact absurd hle (not_le.2 hrest)
  have hnodup : ((List.range (k + 1)).map (monthStart rule firstStart)).Nodup :=
    List.nodup_range.map hmono.injective
  have hlen := (hnodup.subperm hsub).length_le
  rw [List.length_map, List.length_range] at hlen
  exact lt_of_lt_of_le hlen h.length_le

include hreads in
theorem plain_monthly (hkept : MonthsKept rule firstStart) : MonthlySeries.Plain dto firstStart := by
  have hdays := @monthDays_eq rule firstStart dto hreads
  refine ⟨hdays ▸ List.pairwise_singleton _ _, fun k => ⟨fun d hd => ?_, fun hn d hd => ?_⟩⟩
  · have hlen : (MonthlySeries.taken dto firstStart k).length ≤ 1 := by
      have hsub : (MonthlySeries.taken dto firstStart k).Sublist (monthDays dto firstStart) :=
        (List.take_sublist ..).trans List.filter_sublist
      have hle := hsub.length_le
      rwa [hdays, List.length_singleton] at hle
    have hmem := List.length_pos_of_mem hd
    rw [List.length_dropLast] at hmem
    omega
  · have hmem := (List.mem_filter.1 (List.mem_of_mem_take hd)).1
    rw [hdays, List.mem_singleton] at hmem
    rw [hmem]
    exact hkept.leap k (by rw [← monthNo_eq hreads, hn])

end Frequencies

/-! ### The expansion -/

section Expansion

variable {text : List Char} {newDate : List Char → Date}

theorem faithful_of_expands (hrule : Recur.ofText text = some rule) (hend : PlainEnd text rule) {P : ℤ → Prop}
    (hexp : ∀ exDates firstEnd, Expands (rruleDto newDate text firstStart firstEnd) firstStart P exDates firstEnd)
    (hP : ∀ t, rule.Occurs firstStart t → P t)
    (hstarts : ∀ starts, FirstOf (fun t => P t ∧ rule.InTime t) (wanted rule) starts →
      ∀ t ∈ starts, rule.Occurs firstStart t) : Faithful firstStart utcServer newDate text := by
  intro exDates firstEnd
  obtain ⟨starts, hfirst, hexp⟩ := hexp exDates firstEnd
  have hreads := @reads_rule text rule newDate firstStart firstEnd hrule hend
  have hprop : (fun t => P t ∧ (!afterUntil (rruleDto newDate text firstStart firstEnd) (some t)) = true) =
      fun t => P t ∧ rule.InTime t := funext fun t => by rw [afterUntil_iff hreads]
  rw [hprop, hreads.count] at hfirst
  exact .inr ⟨rule, starts, hrule, hfirst.of_imp (fun t ht => ⟨hP t ht.1, ht.2⟩)
    fun t ht => ⟨hstarts starts hfirst t ht, (hfirst.holds t ht).2⟩, hexp⟩

theorem expands_weekly {dto : CreateRecurringDto} (hreads : Reads rule dto) (hs : Simple rule)
    (hfreq : rule.freq = .weekly) (hplain : ∀ d ∈ rule.byDay, d.nth = none) (hwkst : 0 ≤ rule.wkst ∧ rule.wkst < 7)
    (hrange : ∀ d ∈ dto.byday, 0 ≤ d ∧ d < 7) (hkept : WeeksKept rule firstStart) (hdate : IsDate firstStart)
    (hin : InRange rule firstStart) (exDates : List Date) (firstEnd : Instant) :
    Expands dto firstStart (rule.Occurs firstStart) exDates firstEnd := by
  have hw : dto.pattern = .weekly := by
    rw [hreads.pattern, hfreq]
    rfl
  obtain ⟨-, hdates⟩ := hin
  rw [hfreq] at hdates
  obtain ⟨hweek, hdates⟩ := hdates
  have hoccurs : rule.Occurs firstStart = WeeklySeries.Recurs dto firstStart :=
    funext fun t => propext (occurs_weekly hreads hs hfreq hplain hwkst hkept)
  have hkept' : WeeklySeries.Plain dto firstStart :=
    ⟨hreads.byday hplain ▸ hkept.nodup, hkept.wholeMinute, (weekdays_eq hreads hplain).symm ▸ hkept.first⟩
  have hlong := @WeeklySeries.length_starts dto firstStart hrange
  have hfirst := (WeeklySeries.firstOf_iff_plain hrange).2 hkept'
  rw [WeeklySeries.starts_eq] at hlong hfirst
  rw [← hoccurs] at hfirst
  have hcount := countOf_le dto
  refine (WeeklySeries.comes_weekly hw hrange hdate).expands (.inr (.inl hw)) hweek hcount hlong hfirst
    fun starts t hpre hlt hall =>
      hdates t ⟨starts, ?_, hreads.count ▸ hlt, fun s hs => (afterUntil_iff hreads).1 (hall s hs)⟩
  exact hfirst.of_initial hpre (lt_of_lt_of_le hlt hcount) hlong

theorem expands_monthly {dto : CreateRecurringDto} (hreads : Reads rule dto) (hfreq : rule.freq = .monthly)
    (hkept : MonthsKept rule firstStart) (hdate : IsDate firstStart) (hin : InRange rule firstStart)
    (exDates : List Date) (firstEnd : Instant) :
    Expands dto firstStart (fun t => ∃ k, monthStart rule firstStart k = t) exDates firstEnd := by
  have hm : dto.pattern = .monthly := by
    rw [hreads.pattern, hfreq]
    rfl
  obtain ⟨hinterval, hdates⟩ := hin
  rw [hfreq] at hdates
  obtain ⟨hbegin, hlast, hdates⟩ := hdates
  have hrange := @monthDays_range rule firstStart dto hreads
  have hlong := MonthlySeries.length_starts hrange
  have hfirst := (MonthlySeries.firstOf_iff_plain hrange).2 (plain_monthly hreads hkept)
  rw [MonthlySeries.starts_eq] at hlong hfirst
  rw [show MonthlySeries.Recurs dto firstStart = fun t => ∃ k, monthStart rule firstStart k = t from
    funext fun t => propext (recurs_monthly_iff hreads)] at hfirst
  have hcount := countOf_le dto
  have hmono : StrictMono (monthStart rule firstStart) := monthStart_strictMono hreads
  refine (MonthlySeries.comes_monthly hm hrange hdate).expands (.inr (.inr hm))
    ⟨hreads.interval ▸ hinterval, hbegin, hlast⟩ hcount hlong hfirst fun starts t hpre hlt hall => ?_
  have hinitial := hfirst.of_initial hpre (lt_of_lt_of_le hlt hcount) hlong
  have ht : t ∈ starts ++ [t] := List.mem_append_right _ (List.mem_singleton_self t)
  obtain ⟨k, rfl⟩ := hinitial.holds t ht
  obtain ⟨i, hi, hle⟩ := hinitial.exists_le hmono (fun i => ⟨i, rfl⟩) ht
  refine hdates k ?_ fun j hj => ?_
  · have hki := hmono.le_iff_le.1 hle
    rw [← hreads.count]
    omega
  · -- the months before it are among the starts
    have hlt' := hmono hj
    have hmem : monthStart rule firstStart j ∈ starts ++ [monthStart rule firstStart k] := by
      by_contra hnot
      exact absurd ((hinitial.rest _ ⟨j, rfl⟩ hnot).2 _ ht) (not_lt.2 hlt'.le)
    rcases List.mem_append.1 hmem with hmem | hmem
    · exact (afterUntil_iff hreads).1 (hall _ hmem)
    · exact absurd (List.mem_singleton.1 hmem) hlt'.ne

/-- A rule that is understood is expanded to the recurrence that it describes. -/
theorem faithful_of_understood (hrule : Recur.ofText text = some rule) (hend : PlainEnd text rule)
    (hunderstood : Understood rule firstStart) (hdate : IsDate firstStart) (hin : InRange rule firstStart) :
    Faithful firstStart utcServer newDate text := by
  obtain ⟨hs, hfreq⟩ := hunderstood
  have hreads := fun firstEnd => @reads_rule text rule newDate firstStart firstEnd hrule hend
  have hpos := interval_pos hrule
  split at hfreq
  · rename_i hdaily
    exact faithful_of_expands hrule hend
      (fun exDates firstEnd => expands_daily (hreads firstEnd) hs hdaily hfreq hpos hin exDates firstEnd)
      (fun _ h => h) fun starts hfirst t ht => (hfirst.holds t ht).1
  · rename_i hweekly
    exact faithful_of_expands hrule hend
      (fun exDates firstEnd => expands_weekly (hreads firstEnd) hs hweekly (nth_none hrule hweekly) (wkst_range hrule)
        (fun _ h => byday_range h) hfreq hdate hin exDates firstEnd)
      (fun _ h => h) fun starts hfirst t ht => (hfirst.holds t ht).1
  · rename_i hmonthly
    obtain ⟨hday, hkept⟩ := hfreq
    have hoccurs : ∀ t, rule.Occurs firstStart t ↔ (∃ k, monthStart rule firstStart k = t) ∧
        dayOfMonth (dayOf firstStart) ≤ monthLength (monthOf (dayOf t)) := fun t => by
      rw [occurs_monthly (hreads firstStart) hs hmonthly hday, recurs_monthly_iff (hreads firstStart)]
    refine faithful_of_expands hrule hend
      (fun exDates firstEnd => expands_monthly (hreads firstEnd) hmonthly hkept hdate hin exDates firstEnd)
      (fun t h => ((hoccurs t).1 h).1) fun starts hfirst t ht => ?_
    obtain ⟨⟨k, rfl⟩, hin⟩ := hfirst.holds t ht
    have hlong := hkept.long k (month_lt_of_mem (hreads firstStart) hfirst ht) hin
    refine (hoccurs _).2 ⟨⟨k, rfl⟩, ?_⟩
    rw [monthOf_monthStart (hreads firstStart)]
    exact hlong
  · exact absurd hfreq id

theorem pattern_regular {firstEnd : ℤ} (p : RecurrencePattern) (hp : p = .biWeekly ∨ p = .custom) :
    (rruleDto newDate text firstStart firstEnd).pattern ≠ p := by
  unfold rruleDto
  dsimp only
  split_ifs <;> rcases hp with rfl | rfl <;> decide

theorem never_refused (hdate : IsDate firstStart) (exDates : List Date) (firstEnd : ℤ) (e : HttpError) :
    expandRRule utcServer newDate text firstStart exDates firstEnd ≠ .error e := by
  have hcount := countOf_le (rruleDto newDate text firstStart firstEnd)
  have hlong : Regular (rruleDto newDate text firstStart firstEnd) ∧
      countOf (rruleDto newDate text firstStart firstEnd) ≤
        (dates utcServer (rruleDto newDate text firstStart firstEnd) firstStart).length := by
    cases hp : (rruleDto newDate text firstStart firstEnd).pattern with
    | daily =>
      refine ⟨.inl hp, ?_⟩
      rw [dates_daily hp, List.length_map, List.length_range]
    | weekly =>
      have hrange : ∀ d ∈ (rruleDto newDate text firstStart firstEnd).byday, 0 ≤ d ∧ d < 7 := fun _ h => byday_range h
      have hlong := @WeeklySeries.length_starts _ firstStart hrange
      rw [WeeklySeries.starts_eq] at hlong
      exact ⟨.inr (.inl hp), hcount.trans (hlong.trans (WeeklySeries.comes_weekly hp hrange hdate).length_le)⟩
    | monthly =>
      have hrange : ∀ d ∈ monthDays (rruleDto newDate text firstStart firstEnd) firstStart,
          1 ≤ d ∧ d ≤ 31 := fun _ h => MonthlySeries.monthDays_range (fun _ h => absurd h List.not_mem_nil) h
      have hlong := MonthlySeries.length_starts hrange
      rw [MonthlySeries.starts_eq] at hlong
      have hcomes := MonthlySeries.comes_monthly hp hrange hdate
      exact ⟨.inr (.inr hp), hcount.trans (hlong.trans hcomes.length_le)⟩
    | biWeekly => exact absurd hp (pattern_regular .biWeekly (.inl rfl))
    | custom => exact absurd hp (pattern_regular .custom (.inr rfl))
  rw [expandRRule, expand_utcServer hlong.1, if_pos (resolves_of_length hlong.2)]
  intro h
  cases h

/-- **Recurrence rules.** On a server in UTC, a rule that is understood, and all of whose dates before its end are in
the range of the calendar, is expanded to the recurrence that it describes; and a text whose expansion is a recurrence
that it describes, or is refused, is a rule. -/
theorem rules_kept (hdate : IsDate firstStart) :
    ((∃ rule, Recur.ofText text = some rule ∧ PlainEnd text rule ∧ Understood rule firstStart ∧
        InRange rule firstStart) → Faithful firstStart utcServer newDate text) ∧
    (Faithful firstStart utcServer newDate text → ∃ rule, Recur.ofText text = some rule) := by
  refine ⟨fun ⟨rule, hrule, hend, hunderstood, hin⟩ => faithful_of_understood hrule hend hunderstood hdate hin,
    fun h => ?_⟩
  rcases h [] firstStart with ⟨e, he⟩ | ⟨rule, -, hrule, -⟩
  · exact absurd he (never_refused hdate [] firstStart e)
  · exact ⟨rule, hrule⟩

end Expansion

end Conditions

/-! ### Every second day, and weekdays -/

def secondDays : List Char := "FREQ=DAILY;INTERVAL=2;COUNT=3".toList

/-- The recurrence of every second day is found, from seven o'clock on the 29th of May 2026 on. -/
theorem rules_kept_secondDays : Faithful 1780038000000 utcServer (fun _ => none) secondDays := by
  refine (rules_kept (by decide)).1
    ⟨⟨.daily, 2, some 3, none, [], [], [], [], [], [], [], [], [], 1⟩, by decide +kernel,
    ⟨fun ps v hps hv => ?_, fun _ h => nomatch h⟩, ⟨⟨rfl, rfl, rfl, rfl, rfl, rfl, rfl, rfl⟩, rfl⟩,
    by decide +kernel, ?_⟩
  · have hparts : (Recur.parts secondDays).bind (Recur.part · "UNTIL") = none := by decide +kernel
    rw [hps, Option.bind_some, hv] at hparts
    cases hparts
  · rintro t ⟨starts, hfirst, hlt, -⟩
    have hoccurs := @occurs_daily ⟨.daily, 2, some 3, none, [], [], [], [], [], [], [], [], [], 1⟩ 1780038000000
    have hmono : StrictMono fun j : ℕ => (1780038000000 : ℤ) + j * (2 : ℕ) * dayMs := by
      refine strictMono_nat_of_lt_succ fun j => ?_
      unfold dayMs
      push_cast
      omega
    have ht : t ∈ starts ++ [t] := List.mem_append_right _ (List.mem_singleton_self t)
    obtain ⟨i, hi, hle⟩ := hfirst.exists_le hmono
      (fun j => (hoccurs ⟨rfl, rfl, rfl, rfl, rfl, rfl, rfl, rfl⟩ rfl rfl).2 ⟨j, rfl⟩) ht
    have hge := (hfirst.holds t ht).notBefore
    unfold wanted maxOccurrences at hlt
    simp only [Option.getD_some] at hlt
    unfold dayMs at hle
    push_cast at hle
    exact ⟨by omega, by omega⟩

def weekdaysOnly : List Char := "FREQ=DAILY;BYDAY=MO,TU,WE,TH,FR;COUNT=3".toList

/-- From that Friday on, a meeting is booked on Saturday. -/
theorem saturday_booked : ¬ Faithful 1780038000000 utcServer (fun _ => none) weekdaysOnly := by
  intro h
  have hrun : expandRRule utcServer (fun _ => none) weekdaysOnly 1780038000000 [] 1780038000000 =
      .ok ([1780038000000, 1780124400000, 1780210800000].map fun s => (some s, some s)) := by decide +kernel
  have hrule : Recur.ofText weekdaysOnly = some ⟨.daily, 1, some 3, none, [], [], [],
      [⟨none, 1⟩, ⟨none, 2⟩, ⟨none, 3⟩, ⟨none, 4⟩, ⟨none, 5⟩], [], [], [], [], [], 1⟩ := by decide +kernel
  rcases h [] 1780038000000 with ⟨e, he⟩ | ⟨rule, starts, hrule', hfirst, hok⟩
  · rw [hrun] at he
    cases he
  · obtain rfl := Option.some.inj (hrule.symm.trans hrule')
    have hwindows := Except.ok.inj (hrun.symm.trans hok)
    have hsaturday : (some 1780124400000, some 1780124400000) ∈
        windows (1780038000000 - 1780038000000) [] (starts.map some) := by
      rw [← hwindows]
      decide
    obtain ⟨s, hs, heq⟩ := List.mem_map.1 hsaturday
    obtain ⟨t, ht, rfl⟩ := List.mem_map.1 (List.mem_filter.1 hs).1
    obtain rfl : t = 1780124400000 := Option.some.inj (Prod.mk.inj heq).1
    have hday := (hfirst.holds _ ht).1.allows.allowsDay.weekday
    rw [Recur.allowsWeekday_iff (by decide)] at hday
    revert hday
    decide

end BookingSystem.Contracts.RuleSeries
