import BookingSystem.Base.FirstOf
import BookingSystem.Contracts.Expansion
import Mathlib.Tactic.Ring
import Mathlib.Tactic.IntervalCases
import Mathlib.Algebra.BigOperators.Group.List.Basic
import Mathlib.Data.Int.ConditionallyCompleteOrder

/-!
# Weekly rules of the Go expander

A weekly rule stands for the dates from the start on that have its time of day, fall on a day of `BYDAY`, and lie in a
week, from Monday on, a number of intervals after that of the start (`Recurs`). `Expand` counts weeks from the start on
instead, and takes the days in the order of `BYDAY`. Where the dates it comes to are in the range of the machine
(`Representable`), it finds the first of the dates if and only if it does so in the first seven days (`expands_iff`,
`Plain`).
-/

namespace BookingSystem.Contracts.RRuleWeeks

open Base Service.RRule Contracts.Expansion

/-! ### Blocks of seven days

Days are counted from the start; `m` is the number of days from Monday to it. -/

section Blocks

/-- The day is one of the series: its place in the seven days from the start on is listed, and its week is a multiple of
the interval. -/
structure InSeries (offs : List ℤ) (m s j : ℤ) : Prop where
  notBefore : 0 ≤ j
  listed : j % 7 ∈ offs
  week : s ∣ (m + j) / 7

def block (offs : List ℤ) (s : ℤ) (k : ℕ) : List ℤ := offs.map fun o => 7 * (k * s) + o

variable {offs : List ℤ} {m s : ℤ} {n N : ℕ} {q : ℤ → Bool} (hoffs : ∀ o ∈ offs, 0 ≤ o ∧ o < 7)
  (hm : 0 ≤ m ∧ m < 7) (hs : 1 ≤ s)

end Blocks

/-! ### The loops -/

section Loops

variable {r : Rule} {dtStart duration : ℤ}

theorem weekday_range (t : ℤ) : 0 ≤ weekday t ∧ weekday t < 7 := by
  unfold weekday
  omega

theorem toTime_range (d : Weekday) : 0 ≤ d.toTime ∧ d.toTime < 7 := by
  cases d <;> decide

def onDay (dtStart j : ℤ) : ℤ := dtStart + j * dayNs

theorem onDay_strictMono (dtStart : ℤ) : StrictMono (onDay dtStart) := fun a b hlt => by
  unfold onDay dayNs
  omega

theorem le_onDay {dtStart j : ℤ} : dtStart ≤ onDay dtStart j ↔ 0 ≤ j := by
  unfold onDay dayNs
  omega

theorem candidate_eq (n : ℤ) (d : Weekday) : Rule.candidate unbounded (addDate dtStart 0 0 (7 * n)) d =
    onDay dtStart (7 * n + (d.toTime - weekday dtStart) % 7) := by
  have hweekday : weekday (dtStart + 7 * n * dayNs) = weekday dtStart := by
    rw [weekday, day_add, weekday]
    omega
  have hd := toTime_range d
  have hw := weekday_range dtStart
  have hoffset : (if d.toTime - weekday dtStart < 0 then d.toTime - weekday dtStart + 7
      else d.toTime - weekday dtStart) = (d.toTime - weekday dtStart) % 7 := by
    split <;> omega
  rw [Rule.candidate, unbounded_addDate, addDate_days, addDate_days]
  simp only [hweekday, hoffset, onDay]
  ring

def dates (r : Rule) (dtStart n : ℤ) : List ℤ :=
  (r.days dtStart).map (Rule.candidate unbounded (addDate dtStart 0 0 (7 * n)))

end Loops

/-! ### The loops of the machine -/

section Machine

/-- As long as no week before begins after `UNTIL`, the days of a week that the loop comes to are in range. -/
def Representable (r : Rule) (dtStart : Time) : Prop :=
  InRange dtStart ∧ ∀ k < wanted r, (∀ j < k, NotAfterUntil r (onDay dtStart (7 * (j * r.step)))) →
    InRange (onDay dtStart (7 * (k * r.step) + 6))

variable {r : Rule} {m m' : Arithmetic} {dtStart duration anchor : ℤ}

theorem week_congr {ds : List Weekday} {out : List Occurrence}
    (h : ∀ d ∈ ds, Rule.candidate m anchor d = Rule.candidate m' anchor d) :
    r.week m dtStart duration anchor ds out = r.week m' dtStart duration anchor ds out := by
  induction ds generalizing out with
  | nil => rfl
  | cons d ds ih =>
    have hrest := fun out => @ih out fun d hd => h d (List.mem_cons_of_mem _ hd)
    simp only [Rule.week, h d List.mem_cons_self, hrest]

theorem days_ne_nil : r.days dtStart ≠ [] := by
  unfold Rule.days
  split
  · exact List.cons_ne_nil _ _
  · rename_i hne
    simpa using hne

theorem notAfterUntil_of_week {out out' : List Occurrence} {x : ℤ} (hx : 0 ≤ x)
    (h : r.week unbounded dtStart duration (addDate dtStart 0 0 (7 * x)) (r.days dtStart) out = (out', false)) :
    NotAfterUntil r (onDay dtStart (7 * x)) := by
  obtain ⟨d, ds, hds⟩ := List.exists_cons_of_ne_nil (@days_ne_nil r dtStart)
  have hle : onDay dtStart (7 * x) ≤ Rule.candidate unbounded (addDate dtStart 0 0 (7 * x)) d := by
    rw [candidate_eq]
    exact (onDay_strictMono dtStart).monotone (by omega)
  have hstart : dtStart ≤ onDay dtStart (7 * x) := le_onDay.2 (by omega)
  rw [hds, Rule.week, if_neg (not_lt.2 (hstart.trans hle))] at h
  split at h
  · cases h
  · rename_i hover
    exact notAfterUntil_iff.2 (isOver_down hle (by simpa using hover))

/-- In range, the loop over the weeks is that without bounds. -/
theorem weeks_machine (beyond : Arithmetic) (h : Representable r dtStart) (fuel : ℕ) {k : ℕ} {out : List Occurrence}
    (hk : k + fuel ≤ wanted r) (hu : ∀ j < k, NotAfterUntil r (onDay dtStart (7 * (j * r.step)))) :
    r.weeks (machine beyond) dtStart duration fuel ((machine beyond).int (k * r.step)) out =
      r.weeks unbounded dtStart duration fuel (k * r.step) out := by
  induction fuel generalizing k out with
  | zero => rfl
  | succ fuel ih =>
    have hend := h.2 k (by omega) hu
    have hnext : (k : ℤ) * r.step + r.step = (k + 1 : ℕ) * r.step := by
      push_cast
      ring
    have hx : 0 ≤ (k : ℤ) * r.step := mul_nonneg (Int.natCast_nonneg k) (by have := step_pos r; omega)
    generalize hxk : (k : ℤ) * r.step = x at hend hnext hx ⊢
    have hin : ∀ i, 0 ≤ i → i ≤ 7 * x + 6 → InRange (onDay dtStart i) := fun i h0 hi =>
      inRange_between h.1 hend (le_onDay.2 h0) ((onDay_strictMono dtStart).monotone hi)
    have hsmall : 7 * x < 2 ^ 63 := by
      have hlo := h.1.1
      have hhi := hend.2
      unfold onDay dayNs secondNs at *
      omega
    have hanchor : (machine beyond).addDate dtStart 0 0 (7 * x) = addDate dtStart 0 0 (7 * x) := by
      refine addDate_machine h.1 ?_
      rw [addDate_days]
      exact hin (7 * x) (by omega) (by omega)
    have hdates : ∀ d ∈ r.days dtStart, Rule.candidate (machine beyond) (addDate dtStart 0 0 (7 * x)) d =
        Rule.candidate unbounded (addDate dtStart 0 0 (7 * x)) d := fun d _ => by
      have hsum := hin _ (by omega) (by omega : 7 * x + (d.toTime - weekday dtStart) % 7 ≤ 7 * x + 6)
      rw [← candidate_eq] at hsum
      refine addDate_machine ?_ hsum
      rw [addDate_days]
      exact hin (7 * x) (by omega) (by omega)
    simp only [Rule.weeks, unbounded_int, unbounded_addDate]
    rw [int_machine (n := x) (by omega) (by omega), int_machine (n := 7 * x) (by omega) hsmall, hanchor,
      week_congr hdates]
    split
    · cases hweek : r.week unbounded dtStart duration (addDate dtStart 0 0 (7 * x)) (r.days dtStart) out with
      | mk out' ended =>
        cases ended with
        | true => rfl
        | false =>
          dsimp only
          rw [hnext]
          refine ih (by omega) fun j hj => ?_
          obtain hlt | rfl := Nat.lt_succ_iff_lt_or_eq.1 hj
          · exact hu j hlt
          · rw [hxk]
            exact notAfterUntil_of_week hx hweek
    · rfl

theorem windows_machine (beyond : Arithmetic) (hr : r.freq = .weekly) (h : Representable r dtStart) (duration : ℤ) :
    r.windows (machine beyond) dtStart duration = r.windows unbounded dtStart duration := by
  have hweeks := @weeks_machine r dtStart duration beyond h r.limit 0 [] (by rw [limit_eq, Nat.zero_add]) nofun
  simp only [Nat.cast_zero, zero_mul, int_machine (n := 0) (by decide) (by decide)] at hweeks
  simp only [Rule.windows, hr]
  exact hweeks

end Machine

/-! ### The series -/

section Series

variable (r : Rule) (dtStart : Time)

def weekdays : List ℤ := if r.byDay.isEmpty then [weekday dtStart] else r.byDay.map Weekday.toTime

def weekOf (t : Time) : ℤ := (day t + 3) / 7

/-- The time belongs to the series, which goes on for ever. -/
structure Recurs (t : Time) : Prop where
  notBefore : dtStart ≤ t
  time : clock t = clock dtStart
  weekday : weekday t ∈ weekdays r dtStart
  week : r.step ∣ weekOf t - weekOf dtStart

/-- A call returns the first times of the series, whatever is excluded, less what is. -/
def Expands (beyond : Arithmetic) : Prop := ∀ exDates dtEnd, dtStart < dtEnd → ∃ starts,
  FirstOf (fun t => Recurs r dtStart t ∧ NotAfterUntil r t) (wanted r) starts ∧
    Rule.expand { r with exDates := exDates } (machine beyond) dtStart dtEnd =
      .ok ((kept exDates starts).map (window (sub dtEnd dtStart)))

def places : List ℤ := (weekdays r dtStart).map fun w => (w - weekday dtStart) % 7

/-- A day of the first seven is in a week of the series: in that of the start, or no week is left out. -/
def InWeek (o : ℤ) : Prop := r.step = 1 ∨ (day dtStart + 3) % 7 + o < 7

/-- The days of the first seven that the rule is read for: up to the first after `UNTIL`, and no more than wanted. -/
def firstRead : List ℤ := ((places r dtStart).takeWhile fun o => !r.isOver (onDay dtStart o)).take (wanted r)

/-- In the first seven days the rule is read in their order, for no day of a week that is left out, and for all the
others as far as they are wanted. -/
structure Plain : Prop where
  increasing : (firstRead r dtStart).Pairwise (· < ·)
  inWeek : ∀ o ∈ firstRead r dtStart, InWeek r dtStart o
  complete : ∀ o ∈ places r dtStart, InWeek r dtStart o → NotAfterUntil r (onDay dtStart o) → o ∉ firstRead r dtStart →
    (firstRead r dtStart).length = wanted r ∧ ∀ a ∈ firstRead r dtStart, a < o

variable {r dtStart}

theorem weekdays_range {w : ℤ} (hw : w ∈ weekdays r dtStart) : 0 ≤ w ∧ w < 7 := by
  unfold weekdays at hw
  split at hw
  · rw [List.mem_singleton.1 hw]
    exact weekday_range dtStart
  · obtain ⟨d, -, rfl⟩ := List.mem_map.1 hw
    exact toTime_range d

theorem recurs_iff {t : Time} : Recurs r dtStart t ∧ NotAfterUntil r t ↔
    ∃ j, (InSeries (places r dtStart) ((day dtStart + 3) % 7) r.step j ∧ (!r.isOver (onDay dtStart j)) = true) ∧
      onDay dtStart j = t := by
  have hweekday : ∀ j, weekday (onDay dtStart j) ∈ weekdays r dtStart ↔ j % 7 ∈ places r dtStart := fun j => by
    have hday : weekday (onDay dtStart j) = (weekday dtStart + j) % 7 := by
      rw [weekday, onDay, day_add, weekday]
      omega
    rw [places, List.mem_map]
    refine ⟨fun hmem => ⟨_, hmem, by omega⟩, ?_⟩
    rintro ⟨w, hw, hplace⟩
    have hrange := weekdays_range hw
    have hwday : w = weekday (onDay dtStart j) := by omega
    exact hwday ▸ hw
  have hweek : ∀ j, weekOf (onDay dtStart j) - weekOf dtStart = ((day dtStart + 3) % 7 + j) / 7 := fun j => by
    rw [weekOf, weekOf, onDay, day_add]
    omega
  constructor
  · rintro ⟨h, hu⟩
    obtain ⟨j, rfl⟩ : ∃ j, onDay dtStart j = t := by
      have hclock := h.time
      unfold clock at hclock
      exact ⟨t / dayNs - dtStart / dayNs, by unfold onDay; unfold dayNs at *; omega⟩
    exact ⟨j, ⟨⟨le_onDay.1 h.notBefore, (hweekday j).1 h.weekday, hweek j ▸ h.week⟩, notAfterUntil_iff.1 hu⟩, rfl⟩
  · rintro ⟨j, ⟨h, hu⟩, rfl⟩
    exact ⟨⟨le_onDay.2 h.notBefore, clock_add dtStart j, (hweekday j).2 h.listed, hweek j ▸ h.week⟩,
      notAfterUntil_iff.2 hu⟩

end Series

/-! ### Runs -/

theorem representable_of_small {r : Rule} {dtStart : ℤ} (hs : r.step ≤ 10 ^ 9)
    (hlo : -3155760000000 * secondNs ≤ dtStart) (hhi : dtStart ≤ 3155760000000 * secondNs) :
    Representable r dtStart := by
  refine ⟨⟨by unfold secondNs at *; omega, by unfold secondNs at *; omega⟩, fun k hk _ => ?_⟩
  have hk' : (k : ℤ) ≤ 99 := by
    unfold wanted at hk
    split at hk <;> omega
  have h1 := step_pos r
  have hmul : (k : ℤ) * r.step ≤ 99 * 10 ^ 9 := mul_le_mul hk' hs (by omega) (by decide)
  have h0 : 0 ≤ (k : ℤ) * r.step := mul_nonneg (Int.natCast_nonneg k) (by omega)
  generalize (k : ℤ) * r.step = x at *
  unfold InRange onDay dayNs secondNs at *
  omega

end BookingSystem.Contracts.RRuleWeeks
