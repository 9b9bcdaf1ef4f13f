import BookingSystem.Base.FirstOf
import BookingSystem.Contracts.Expansion
import BookingSystem.Service.Series
import Mathlib.Algebra.Group.Basic
import Mathlib.Data.List.Basic
import Mathlib.Data.Int.ConditionallyCompleteOrder

/-!
# Monthly and yearly rules of the Go expander

A monthly or yearly rule is to keep the day of the month (`OnSchedule`). `Expand` counts a day that a month does not
have into the month after it, and does not compare its dates with the start; a yearly rule is not read for
`BYMONTHDAY`. Where its dates are in the range of the machine (`Representable`), the days are kept if and only if every
month that is read has them (`keepsDay_iff`, `Fits`). A monthly series without a rule goes from each date to the next,
with all times in UTC, and keeps neither the day (`generated_monthly`) nor, past midnight, the length of its windows
(`duration_kept`). It is the one that `Service.Series` has for any zone (`generateOccurrences_utc`).
-/

namespace BookingSystem.Contracts.RRuleMonths

open Base Service.RRule Contracts.Expansion

section Schedule

variable (r : Rule) (dtStart : Time)

def apart : ℤ := if r.freq = .yearly then 12 * r.step else r.step

def ruleDay : ℤ := if 0 < r.byMonthDay then r.byMonthDay else dayOfMonth (day dtStart)

/-- The time is one that the rule allows: with its day, in one of its months, from the start to `UNTIL`. -/
structure OnSchedule (t : Time) : Prop where
  notBefore : dtStart ≤ t
  notAfter : NotAfterUntil r t
  onDay : dayOfMonth (day t) = ruleDay r dtStart
  inMonth : apart r ∣ monthOf (day t) - monthOf (day dtStart)

/-- A call returns times that the rule allows, in increasing order, whatever is excluded. -/
def KeepsDay (beyond : Arithmetic) : Prop := ∀ exDates dtEnd, dtStart < dtEnd → ∃ starts : List Time,
  Rule.expand { r with exDates := exDates } (machine beyond) dtStart dtEnd =
      .ok (starts.map (window (sub dtEnd dtStart))) ∧
    starts.Pairwise (· < ·) ∧ ∀ t ∈ starts, OnSchedule r dtStart t

/-! ### The months that are read -/

def monthAt (i : ℕ) : ℤ := monthOf (day dtStart) + apart r * i

/-- `BYMONTHDAY` is read for the month after, where the month does not have the day of the start. -/
def PutOff (i : ℕ) : Prop :=
  r.freq = .monthly ∧ 0 < r.byMonthDay ∧ monthLength (monthAt r dtStart i) < dayOfMonth (day dtStart)

instance (i : ℕ) : Decidable (PutOff r dtStart i) := by unfold PutOff; infer_instance

def monthRead (i : ℕ) : ℤ := if PutOff r dtStart i then monthAt r dtStart i + 1 else monthAt r dtStart i

def dayRead : ℤ := if r.freq = .yearly then dayOfMonth (day dtStart) else ruleDay r dtStart

def turn (i : ℕ) : Time := date (monthRead r dtStart i) (dayRead r dtStart) (clock dtStart)

/-- The rule keeps its day where it is no earlier than that of the start, or the same for a yearly rule, and every month
that is read has it; only the last may be the month after one that has not. -/
structure Fits : Prop where
  fromStart : r.freq = .monthly → NotAfterUntil r (turn r dtStart 0) → dayOfMonth (day dtStart) ≤ ruleDay r dtStart
  sameDay : r.freq = .yearly → NotAfterUntil r (turn r dtStart 0) → ruleDay r dtStart = dayOfMonth (day dtStart)
  longEnough : ∀ i < wanted r, NotAfterUntil r (turn r dtStart i) →
    ruleDay r dtStart ≤ monthLength (monthAt r dtStart i) ∨ (PutOff r dtStart i ∧ r.step = 1 ∧ i + 1 = wanted r)

end Schedule

/-! ### The loops -/

section Loops

variable {r : Rule} {dtStart : Time}

theorem turns_eq {σ : Type} {duration : ℤ} {next : σ → σ} {cur : σ → Time} (fuel : ℕ) {i : σ} {out : List Occurrence} :
    r.turns duration next cur fuel i out = out ++
      ((((List.range fuel).map fun k => cur (next^[k] i)).takeWhile fun t => !r.isOver t).take
        (r.limit - out.length)).map (window duration) := by
  induction fuel generalizing i out with
  | zero => simp [Rule.turns]
  | succ fuel ih =>
    have hrange : ((List.range (fuel + 1)).map fun k => cur (next^[k] i)) =
        cur i :: (List.range fuel).map fun k => cur (next^[k] (next i)) := by
      rw [List.range_succ_eq_map, List.map_cons, List.map_map]
      rfl
    rw [Rule.turns, hrange, List.takeWhile_cons]
    split
    · rename_i hlt
      obtain ⟨room, hroom⟩ : ∃ k, r.limit - out.length = k + 1 := ⟨r.limit - out.length - 1, by omega⟩
      cases hover : r.isOver (cur i) with
      | true => simp
      | false =>
        have hroom' : r.limit - (out.length + 1) = room := by omega
        simp only [Bool.false_eq_true, if_false, Bool.not_false, if_true]
        rw [ih, hroom, List.take_succ_cons, List.map_cons, List.length_append, List.length_singleton, hroom',
          List.append_assoc]
        rfl
    · rename_i hfull
      rw [Nat.sub_eq_zero_of_le (not_lt.1 hfull), List.take_zero, List.map_nil, List.append_nil]

theorem date_le_date {n n' d d' c : ℤ} : date n d c ≤ date n' d' c ↔ firstDay n + d ≤ firstDay n' + d' := by
  have h : ∀ x y : ℤ, x * dayNs + c ≤ y * dayNs + c ↔ x ≤ y := fun x y => by
    unfold dayNs
    omega
  refine (h _ _).trans ?_
  omega

theorem date_start (t : Time) : date (monthOf (day t)) (dayOfMonth (day t)) (clock t) = t := by
  have h := addDate_days t 0
  rw [zero_mul, add_zero, addDate, mul_zero, add_zero, add_zero, add_zero] at h
  exact h

theorem start_range (dtStart : Time) : 1 ≤ dayOfMonth (day dtStart) ∧
    dayOfMonth (day dtStart) ≤ monthLength (monthOf (day dtStart)) ∧ dayOfMonth (day dtStart) ≤ 31 := by
  have hday := firstDay_monthOf (day dtStart)
  have hlen := (monthLength_range (monthOf (day dtStart))).2
  rw [dayOfMonth_eq]
  unfold monthLength at hlen ⊢
  omega

theorem not_yearly (hf : r.freq = .monthly) : ¬ r.freq = .yearly := by
  rw [hf]
  decide

theorem apart_monthly (hf : r.freq = .monthly) : apart r = r.step := if_neg (not_yearly hf)

theorem dayRead_monthly (hf : r.freq = .monthly) : dayRead r dtStart = ruleDay r dtStart := if_neg (not_yearly hf)

theorem inMonth_eq (hf : r.freq = .monthly) (i : ℕ) :
    r.inMonth unbounded dtStart (i * r.step) = turn r dtStart i := by
  have hmonth : monthOf (day dtStart) + 12 * 0 + i * r.step = monthAt r dtStart i := by
    rw [monthAt, apart_monthly hf]
    ring
  have hadd : addDate dtStart 0 (i * r.step) 0 =
      date (monthAt r dtStart i) (dayOfMonth (day dtStart)) (clock dtStart) := by
    rw [addDate, hmonth, add_zero]
  obtain ⟨hpos, -, h31⟩ := start_range dtStart
  rw [Rule.inMonth, unbounded_addDate, unbounded_date, hadd, turn, dayRead_monthly hf, ruleDay, monthRead,
    day_date _ _ (clock_range dtStart)]
  by_cases hb : 0 < r.byMonthDay
  · by_cases hlen : monthLength (monthAt r dtStart i) < dayOfMonth (day dtStart)
    · have hoff : PutOff r dtStart i := ⟨hf, hb, hlen⟩
      rw [if_pos hb, if_pos hb, if_pos hoff, monthOf_over hlen h31]
    · have hoff : ¬ PutOff r dtStart i := fun h => hlen h.2.2
      rw [if_pos hb, if_pos hb, if_neg hoff, monthOf_counted hpos (not_lt.1 hlen)]
  · have hoff : ¬ PutOff r dtStart i := fun h => hb h.2.1
    rw [if_neg hb, if_neg hb, if_neg hoff]

theorem addDate_yearly (hf : r.freq = .yearly) (i : ℕ) : addDate dtStart (i * r.step) 0 0 = turn r dtStart i := by
  have hmonth : monthOf (day dtStart) + 12 * (i * r.step) + 0 = monthAt r dtStart i := by
    rw [monthAt, apart, if_pos hf]
    ring
  have hread : ¬ PutOff r dtStart i := fun h => by
    rw [PutOff, hf] at h
    exact nomatch h.1
  rw [addDate, hmonth, add_zero, turn, dayRead, if_pos hf, monthRead, if_neg hread]

theorem monthAt_succ (i : ℕ) : monthAt r dtStart (i + 1) = monthAt r dtStart i + apart r := by
  unfold monthAt
  push_cast
  ring

theorem apart_pos (r : Rule) : 1 ≤ apart r := by
  have hs := step_pos r
  unfold apart
  split <;> omega

theorem monthAt_strictMono : StrictMono (monthAt r dtStart) := by
  refine strictMono_nat_of_lt_succ fun i => ?_
  have hapart := apart_pos r
  rw [monthAt_succ]
  omega

theorem turn_mono : Monotone (turn r dtStart) := by
  refine monotone_nat_of_le_succ fun i => ?_
  have hnext : monthAt r dtStart i < monthAt r dtStart (i + 1) := monthAt_strictMono (Nat.lt_succ_self i)
  have hread : monthRead r dtStart i ≤ monthRead r dtStart (i + 1) := by
    unfold monthRead
    split <;> split <;> omega
  have hfirst := firstDay_strictMono.monotone hread
  exact date_le_date.2 (by omega)

theorem windows_eq (hf : r.freq = .monthly ∨ r.freq = .yearly) (duration : ℤ) : r.windows unbounded dtStart duration =
    (((List.range (wanted r)).map (turn r dtStart)).filter fun t => !r.isOver t).map (window duration) := by
  have hiter : ∀ k : ℕ, (fun i : ℤ => i + r.step)^[k] 0 = k * r.step := fun k => by
    rw [add_right_iterate_apply_zero, nsmul_eq_mul]
  have hwindows : r.windows unbounded dtStart duration =
      ((((List.range (wanted r)).map (turn r dtStart)).takeWhile fun t => !r.isOver t).take (wanted r)).map
        (window duration) := by
    rcases hf with hf | hf
    · simp only [Rule.windows, hf, unbounded_int]
      rw [turns_eq, limit_eq, List.nil_append, List.length_nil, Nat.sub_zero]
      simp only [hiter, inMonth_eq hf]
    · simp only [Rule.windows, hf, unbounded_int, unbounded_addDate]
      rw [turns_eq, limit_eq, List.nil_append, List.length_nil, Nat.sub_zero]
      simp only [hiter, addDate_yearly hf]
  have hle : ((List.range (wanted r)).map (turn r dtStart)).Pairwise (· ≤ ·) :=
    List.pairwise_map.2 (List.pairwise_lt_range.imp fun hlt => turn_mono hlt.le)
  have hcut := takeWhile_eq_filter hle fun a b => isOver_down (r := r)
  rw [hwindows, hcut, List.take_of_length_le]
  refine (List.length_filter_le _ _).trans ?_
  rw [List.length_map, List.length_range]

/-! ### The loops of the machine -/

/-- As long as no turn before has a date after `UNTIL`, the dates of a turn that the loop comes to are in range. -/
def Representable (r : Rule) (dtStart : Time) : Prop :=
  InRange dtStart ∧ ∀ k < wanted r, (∀ j < k, NotAfterUntil r (turn r dtStart j)) →
    InRange (addDate dtStart 0 (apart r * k) 0) ∧ InRange (turn r dtStart k)

theorem turns_congr {duration : ℤ} {int : ℤ → ℤ} {cur cur' : ℤ → Time} {s : ℤ}
    (h : ∀ k < wanted r, (∀ j < k, NotAfterUntil r (cur' (j * s))) → int (k * s) = k * s ∧ cur (k * s) = cur' (k * s))
    (fuel : ℕ) {k : ℕ} {out : List Occurrence} (hk : k + fuel ≤ wanted r)
    (hu : ∀ j < k, NotAfterUntil r (cur' (j * s))) :
    r.turns duration (fun i => int (i + s)) cur fuel (int (k * s)) out =
      r.turns duration (· + s) cur' fuel (k * s) out := by
  induction fuel generalizing k out with
  | zero => rfl
  | succ fuel ih =>
    obtain ⟨hint, hcur⟩ := h k (by omega) hu
    have hnext : (k : ℤ) * s + s = (k + 1 : ℕ) * s := by
      push_cast
      ring
    simp only [Rule.turns, hint, hcur]
    split
    · split
      · rfl
      · rename_i hover
        rw [hnext]
        refine ih (by omega) fun j hj => ?_
        obtain hlt | rfl := Nat.lt_succ_iff_lt_or_eq.1 hj
        · exact hu j hlt
        · exact notAfterUntil_iff.2 (by simpa using hover)
    · rfl

theorem firstDay_add (n : ℤ) (k : ℕ) :
    firstDay n + 28 * k ≤ firstDay (n + k) ∧ firstDay (n + k) ≤ firstDay n + 31 * k := by
  induction k with
  | zero => simp
  | succ k ih =>
    have hlen := monthLength_range (n + k)
    rw [monthLength] at hlen
    push_cast
    rw [← add_assoc]
    omega

theorem lt_of_inRange {t n : ℤ} (hn : 0 ≤ n) (ht : InRange t) (h : InRange (addDate t 0 n 0)) : n < 2 ^ 63 := by
  obtain ⟨k, rfl⟩ := Int.eq_ofNat_of_zero_le hn
  have hday := (firstDay_add (monthOf (day t)) k).1
  have hstart : (firstDay (monthOf (day t)) + dayOfMonth (day t) - 1) * dayNs + clock t = t := date_start t
  have hlo := ht.1
  have hhi := h.2
  rw [addDate, mul_zero, add_zero, add_zero] at hhi
  unfold date dayNs secondNs at *
  omega

theorem int_of_representable {beyond : Arithmetic} {k : ℕ} (ht : InRange dtStart)
    (h : InRange (addDate dtStart 0 (apart r * k) 0)) : (machine beyond).int (k * r.step) = k * r.step := by
  have hs := step_pos r
  have hpos : 0 ≤ (k : ℤ) * r.step := mul_nonneg (Int.natCast_nonneg k) (by omega)
  have hle : (k : ℤ) * r.step ≤ apart r * k := by
    rw [mul_comm (apart r)]
    refine mul_le_mul_of_nonneg_left ?_ (Int.natCast_nonneg k)
    unfold apart
    split <;> omega
  have hlt := lt_of_inRange (hpos.trans hle) ht h
  exact int_machine (by omega) (by omega)

theorem windows_machine (beyond : Arithmetic) (hf : r.freq = .monthly ∨ r.freq = .yearly)
    (h : Representable r dtStart) (duration : ℤ) :
    r.windows (machine beyond) dtStart duration = r.windows unbounded dtStart duration := by
  have hzero : (machine beyond).int ((0 : ℕ) * r.step) = 0 := by
    rw [Nat.cast_zero, zero_mul]
    exact int_machine (by decide) (by decide)
  have hroom : 0 + r.limit ≤ wanted r := by rw [limit_eq, Nat.zero_add]
  rcases hf with hf | hf
  · have hturns := @turns_congr r duration (machine beyond).int (r.inMonth (machine beyond) dtStart)
      (r.inMonth unbounded dtStart) r.step (fun k hk hu => ?_) r.limit 0 [] hroom nofun
    · rw [hzero, Nat.cast_zero, zero_mul] at hturns
      simp only [Rule.windows, hf, unbounded_int]
      exact hturns
    · obtain ⟨hadd, hturn⟩ := h.2 k hk fun j hj => @inMonth_eq r dtStart hf j ▸ hu j hj
      refine ⟨int_of_representable h.1 hadd, ?_⟩
      rw [apart_monthly hf, mul_comm] at hadd
      have hcur : (machine beyond).addDate dtStart 0 (k * r.step) 0 = addDate dtStart 0 (k * r.step) 0 :=
        addDate_machine h.1 hadd
      rw [← inMonth_eq hf, Rule.inMonth, unbounded_addDate, unbounded_date] at hturn
      rw [Rule.inMonth, Rule.inMonth, hcur, unbounded_addDate, unbounded_date]
      split
      · rename_i hbyMonthDay
        simp only [if_pos hbyMonthDay] at hturn
        exact date_machine hturn
      · rfl
  · have hturns := @turns_congr r duration (machine beyond).int
      (fun i => (machine beyond).addDate dtStart i 0 0) (fun i => addDate dtStart i 0 0) r.step (fun k hk hu => ?_)
      r.limit 0 [] hroom nofun
    · rw [hzero, Nat.cast_zero, zero_mul] at hturns
      simp only [Rule.windows, hf, unbounded_int, unbounded_addDate]
      exact hturns
    · obtain ⟨hadd, hturn⟩ := h.2 k hk fun j hj => @addDate_yearly r dtStart hf j ▸ hu j hj
      refine ⟨int_of_representable h.1 hadd, ?_⟩
      rw [← addDate_yearly hf] at hturn
      exact addDate_machine h.1 hturn

theorem keepsDay_iff_turns (beyond : Arithmetic) (hf : r.freq = .monthly ∨ r.freq = .yearly)
    (hrange : Representable r dtStart) : KeepsDay r dtStart beyond ↔
    (∀ i j, i < j → j < wanted r → NotAfterUntil r (turn r dtStart j) → turn r dtStart i < turn r dtStart j) ∧
      ∀ i < wanted r, NotAfterUntil r (turn r dtStart i) → OnSchedule r dtStart (turn r dtStart i) := by
  have hwindows := fun exDates duration => (windows_machine (r := { r with exDates := exDates }) beyond hf hrange
    duration).trans (windows_eq (r := { r with exDates := exDates }) hf duration)
  have hsorted : (((List.range (wanted r)).map (turn r dtStart)).filter fun t => !r.isOver t).Pairwise (· < ·) ↔
      ∀ i j, i < j → j < wanted r → NotAfterUntil r (turn r dtStart j) → turn r dtStart i < turn r dtStart j := by
    rw [List.pairwise_filter, List.pairwise_map, List.pairwise_iff_getElem]
    simp only [List.length_range, List.getElem_range, ← notAfterUntil_iff]
    refine ⟨fun h i j hij hj hu => h i j (hij.trans hj) hj hij (fun u he => ?_) hu,
      fun h i j _ hj hij _ => h i j hij hj⟩
    exact (turn_mono hij.le).trans (hu u he)
  have hmem : (∀ t ∈ ((List.range (wanted r)).map (turn r dtStart)).filter fun t => !r.isOver t,
      OnSchedule r dtStart t) ↔
      ∀ i < wanted r, NotAfterUntil r (turn r dtStart i) → OnSchedule r dtStart (turn r dtStart i) := by
    simp only [List.mem_filter, List.mem_map, List.mem_range, ← notAfterUntil_iff, and_imp, forall_exists_index]
    exact ⟨fun h i hi hu => h _ i hi rfl hu, fun h t i hi he hu => he ▸ h i hi (he ▸ hu)⟩
  rw [← hsorted, ← hmem]
  constructor
  · intro h
    obtain ⟨starts, heq, hstarts⟩ := h [] (dtStart + 1) (lt_add_one dtStart)
    rw [expand_eq (lt_add_one dtStart) (hwindows [] _), kept_nil, Except.ok.injEq] at heq
    exact List.map_injective_iff.2 (window_injective _) heq ▸ hstarts
  · rintro ⟨hlt, hon⟩ exDates dtEnd hend
    refine ⟨_, expand_eq hend (hwindows exDates _), hlt.sublist List.filter_sublist, fun t ht => hon t ?_⟩
    exact List.filter_sublist.subset ht

end Loops

section Days

variable {r : Rule} {dtStart : Time}

theorem ruleDay_range (hb : r.byMonthDay ≤ 31) : 1 ≤ ruleDay r dtStart ∧ ruleDay r dtStart ≤ 31 := by
  have hstart := start_range dtStart
  unfold ruleDay
  split <;> omega

theorem day_turn (i : ℕ) :
    day (turn r dtStart i) = firstDay (monthRead r dtStart i) + dayRead r dtStart - 1 :=
  day_date _ _ (clock_range dtStart)

theorem monthRead_zero : monthRead r dtStart 0 = monthOf (day dtStart) := by
  have hmonth : monthAt r dtStart 0 = monthOf (day dtStart) := by
    rw [monthAt, Nat.cast_zero, mul_zero, add_zero]
  have hoff : ¬ PutOff r dtStart 0 := fun h => by
    have hlen := h.2.2
    rw [hmonth] at hlen
    exact absurd hlen (not_lt.2 (start_range dtStart).2.1)
  rw [monthRead, if_neg hoff, hmonth]

theorem start_le_turn : dtStart ≤ turn r dtStart 0 ↔ dayOfMonth (day dtStart) ≤ dayRead r dtStart := by
  have h := @date_le_date (monthOf (day dtStart)) (monthOf (day dtStart)) (dayOfMonth (day dtStart))
    (dayRead r dtStart) (clock dtStart)
  rw [date_start] at h
  rw [turn, monthRead_zero, h]
  omega

theorem monthLength_putOff {i : ℕ} (h : PutOff r dtStart i) : monthLength (monthAt r dtStart i + 1) = 31 := by
  have h31 := (start_range dtStart).2.2
  have hlen := h.2.2
  exact monthLength_succ (by omega)

theorem turn_mem {i : ℕ} (hb : r.byMonthDay ≤ 31) (hread : dayRead r dtStart = ruleDay r dtStart)
    (hlen : ruleDay r dtStart ≤ monthLength (monthRead r dtStart i)) :
    monthOf (day (turn r dtStart i)) = monthRead r dtStart i ∧
      dayOfMonth (day (turn r dtStart i)) = ruleDay r dtStart := by
  have hpos : 1 ≤ ruleDay r dtStart := (ruleDay_range hb).1
  rw [day_turn, hread]
  exact ⟨monthOf_counted hpos hlen, dayOfMonth_counted hpos hlen⟩

theorem dayRead_eq (hf : r.freq = .monthly ∨ r.freq = .yearly)
    (hsame : r.freq = .yearly → ruleDay r dtStart = dayOfMonth (day dtStart)) :
    dayRead r dtStart = ruleDay r dtStart := by
  rcases hf with hf | hf
  · exact dayRead_monthly hf
  · rw [dayRead, if_pos hf, hsame hf]

theorem notAfterUntil_zero {i : ℕ} (h : NotAfterUntil r (turn r dtStart i)) : NotAfterUntil r (turn r dtStart 0) :=
  fun u hu => (turn_mono (Nat.zero_le i)).trans (h u hu)

theorem fits_of_keepsDay (hf : r.freq = .monthly ∨ r.freq = .yearly) (hb : r.byMonthDay ≤ 31)
    (hsorted : ∀ i j, i < j → j < wanted r → NotAfterUntil r (turn r dtStart j) →
      turn r dtStart i < turn r dtStart j)
    (hon : ∀ i < wanted r, NotAfterUntil r (turn r dtStart i) → OnSchedule r dtStart (turn r dtStart i)) :
    Fits r dtStart := by
  have hsame : r.freq = .yearly → NotAfterUntil r (turn r dtStart 0) → ruleDay r dtStart = dayOfMonth (day dtStart) :=
    fun hy hu => by
      have hday := (hon 0 (wanted_pos r) hu).onDay
      obtain ⟨hpos, hlen, -⟩ := start_range dtStart
      rw [day_turn, monthRead_zero, dayRead, if_pos hy, dayOfMonth_counted hpos hlen] at hday
      exact hday.symm
  refine ⟨fun hm hu => ?_, hsame, fun i hi hu => ?_⟩
  · rw [← dayRead_monthly hm]
    exact start_le_turn.1 (hon 0 (wanted_pos r) hu).notBefore
  · have hread := dayRead_eq hf fun hy => hsame hy (notAfterUntil_zero hu)
    have h31 : ruleDay r dtStart ≤ 31 := (ruleDay_range hb).2
    have hnow := hon i hi hu
    by_cases hoff : PutOff r dtStart i
    · -- the date is in the month after, which is one of the rule only if it has all months
      have hmonth : monthRead r dtStart i = monthAt r dtStart i + 1 := if_pos hoff
      have hnext := monthLength_putOff hoff
      have hmem := turn_mem (i := i) hb hread (by rw [hmonth]; omega)
      have hdvd := hnow.inMonth
      have hdiff : monthAt r dtStart i + 1 - monthOf (day dtStart) = apart r * i + 1 := by
        unfold monthAt
        omega
      rw [hmem.1, hmonth, hdiff, apart_monthly hoff.1, Int.dvd_add_right (dvd_mul_right _ _)] at hdvd
      have hone : r.step = 1 := le_antisymm (Int.le_of_dvd one_pos hdvd) (step_pos r)
      refine .inr ⟨hoff, hone, ?_⟩
      by_contra hlast
      -- and the next turn would come to the same date
      have hat : monthAt r dtStart (i + 1) = monthAt r dtStart i + 1 := by
        rw [monthAt_succ, apart_monthly hoff.1, hone]
      have hoff' : ¬ PutOff r dtStart (i + 1) := fun h => by
        have hlen := h.2.2
        have hstart := (start_range dtStart).2.2
        rw [hat] at hlen
        omega
      have heq : turn r dtStart (i + 1) = turn r dtStart i := by
        rw [turn, turn, hmonth, monthRead, if_neg hoff', hat]
      have hu' : NotAfterUntil r (turn r dtStart (i + 1)) := by rwa [heq]
      have hlt := hsorted i (i + 1) (Nat.lt_succ_self i) (by omega) hu'
      exact absurd heq hlt.ne'
    · refine .inl (not_lt.1 fun hlen => ?_)
      have hmonth : monthRead r dtStart i = monthAt r dtStart i := if_neg hoff
      have hday := hnow.onDay
      rw [day_turn, hmonth, hread, dayOfMonth_over hlen h31] at hday
      have h28 := (monthLength_range (monthAt r dtStart i)).1
      omega

namespace Fits

variable (h : Fits r dtStart) {i : ℕ}

include h

theorem start_le (hf : r.freq = .monthly ∨ r.freq = .yearly) (hu : NotAfterUntil r (turn r dtStart 0)) :
    dayOfMonth (day dtStart) ≤ ruleDay r dtStart := by
  rcases hf with hf | hf
  · exact h.fromStart hf hu
  · exact (h.sameDay hf hu).ge

theorem last_of_putOff (hi : i < wanted r) (hu : NotAfterUntil r (turn r dtStart i)) (hoff : PutOff r dtStart i) :
    r.step = 1 ∧ i + 1 = wanted r := by
  refine ((h.longEnough i hi hu).resolve_left fun hlen => ?_).2
  have hle := h.start_le (.inl hoff.1) (notAfterUntil_zero hu)
  have hshort := hoff.2.2
  omega

theorem length_read (hb : r.byMonthDay ≤ 31) (hi : i < wanted r) (hu : NotAfterUntil r (turn r dtStart i)) :
    ruleDay r dtStart ≤ monthLength (monthRead r dtStart i) := by
  by_cases hoff : PutOff r dtStart i
  · rw [monthRead, if_pos hoff, monthLength_putOff hoff]
    exact (ruleDay_range hb).2
  · rw [monthRead, if_neg hoff]
    exact (h.longEnough i hi hu).resolve_right fun hlast => hoff hlast.1

theorem monthRead_lt {j : ℕ} (hij : i < j) (hj : j < wanted r) (hu : NotAfterUntil r (turn r dtStart i)) :
    monthRead r dtStart i < monthRead r dtStart j := by
  have hoff : ¬ PutOff r dtStart i := fun hoff => by
    have hlast := (h.last_of_putOff (hij.trans hj) hu hoff).2
    omega
  have hlt : monthAt r dtStart i < monthAt r dtStart j := monthAt_strictMono hij
  have hle : monthAt r dtStart j ≤ monthRead r dtStart j := by
    unfold monthRead
    split <;> omega
  rw [monthRead, if_neg hoff]
  exact lt_of_lt_of_le hlt hle

end Fits

/-- **A monthly or yearly rule whose dates are in range keeps its day iff it fits.** -/
theorem keepsDay_iff (beyond : Arithmetic) (hf : r.freq = .monthly ∨ r.freq = .yearly) (hb : r.byMonthDay ≤ 31)
    (hrange : Representable r dtStart) : KeepsDay r dtStart beyond ↔ Fits r dtStart := by
  rw [keepsDay_iff_turns beyond hf hrange]
  refine ⟨fun h => fits_of_keepsDay hf hb h.1 h.2, fun h => ⟨fun i j hij hj hu => ?_, fun i hi hu => ?_⟩⟩
  · have hui : NotAfterUntil r (turn r dtStart i) := fun u he => (turn_mono hij.le).trans (hu u he)
    have hfirst : firstDay (monthRead r dtStart i) < firstDay (monthRead r dtStart j) :=
      firstDay_strictMono (h.monthRead_lt hij hj hui)
    exact not_le.1 fun hle => by
      have hdays := date_le_date.1 hle
      omega
  · have hread := dayRead_eq hf fun hy => h.sameDay hy (notAfterUntil_zero hu)
    obtain ⟨hmonth, hday⟩ := turn_mem hb hread (h.length_read hb hi hu)
    refine ⟨?_, hu, hday, ?_⟩
    · refine (start_le_turn.2 ?_).trans (turn_mono (Nat.zero_le i))
      rw [hread]
      exact h.start_le hf (notAfterUntil_zero hu)
    · rw [hmonth]
      by_cases hoff : PutOff r dtStart i
      · rw [apart_monthly hoff.1, (h.last_of_putOff hi hu hoff).1]
        exact one_dvd _
      · rw [monthRead, if_neg hoff, monthAt, add_sub_cancel_left]
        exact dvd_mul_right _ _

end Days

/-- With an interval of up to 10^9, all dates from a start within 100 000 years of 1970 on are in range. -/
theorem representable_of_small {r : Rule} {dtStart : ℤ} (hs : r.step ≤ 10 ^ 9) (hb : r.byMonthDay ≤ 31)
    (hlo : -3155760000000 * secondNs ≤ dtStart) (hhi : dtStart ≤ 3155760000000 * secondNs) :
    Representable r dtStart := by
  refine ⟨⟨by unfold secondNs at *; omega, by unfold secondNs at *; omega⟩, fun k hk _ => ?_⟩
  have hk' : (k : ℤ) ≤ 99 := by
    unfold wanted at hk
    split at hk <;> omega
  have hapart := apart_pos r
  have hmonths : apart r * k ≤ 12 * 10 ^ 9 * 99 := by
    refine mul_le_mul ?_ hk' (Int.natCast_nonneg k) (by decide)
    unfold apart
    split <;> omega
  obtain ⟨n, hn⟩ := Int.eq_ofNat_of_zero_le (mul_nonneg (by omega) (Int.natCast_nonneg k) : 0 ≤ apart r * k)
  have hstart : (firstDay (monthOf (day dtStart)) + dayOfMonth (day dtStart) - 1) * dayNs + clock dtStart = dtStart :=
    date_start dtStart
  obtain ⟨hd, -, hd'⟩ := start_range dtStart
  have hrule : 1 ≤ ruleDay r dtStart ∧ ruleDay r dtStart ≤ 31 := ruleDay_range hb
  have hread : 1 ≤ dayRead r dtStart ∧ dayRead r dtStart ≤ 31 := by
    unfold dayRead
    split
    · exact ⟨hd, hd'⟩
    · exact hrule
  have hnow := firstDay_add (monthOf (day dtStart)) n
  have hnext := firstDay_add (monthOf (day dtStart)) (n + 1)
  push_cast at hnext
  have hmonth : monthRead r dtStart k = monthOf (day dtStart) + n ∨
      monthRead r dtStart k = monthOf (day dtStart) + (n + 1) := by
    unfold monthRead monthAt
    split <;> omega
  rw [hn] at hmonths
  refine ⟨?_, ?_⟩
  · rw [hn, addDate, mul_zero, add_zero, add_zero]
    unfold InRange date dayNs secondNs at *
    omega
  · rw [turn]
    obtain hmonth | hmonth := hmonth
    · rw [hmonth]
      unfold InRange date dayNs secondNs at *
      omega
    · rw [hmonth]
      unfold InRange date dayNs secondNs at *
      omega

/-! ### Runs -/

/-- `FREQ=MONTHLY;INTERVAL=2;COUNT=4` -/
def everyOtherMonth : Rule := { freq := .monthly, interval := 2, count := 4 }

/-- `FREQ=MONTHLY;COUNT=3` -/
def threeMonths : Rule := { freq := .monthly, count := 3 }

def in2026 (month d : ℤ) : Time := date (12 * 2026 + month - 1) d (36000 * secondNs)

/-- January, March, May and July have a day 31. -/
theorem keepsDay_everyOtherMonth : KeepsDay everyOtherMonth (in2026 1 31) unbounded := by
  have hlen : ∀ i < wanted everyOtherMonth,
      ruleDay everyOtherMonth (in2026 1 31) ≤ monthLength (monthAt everyOtherMonth (in2026 1 31) i) := by
    decide +kernel
  exact (keepsDay_iff unbounded (.inl rfl) (by decide) (representable_of_small (by decide) (by decide) (by decide)
    (by decide))).2 ⟨fun _ _ => le_rfl, fun h => (nomatch h), fun i hi _ => .inl (hlen i hi)⟩

/-- February has not, and its date is counted into March, which then comes twice. -/
theorem march_comes_twice : threeMonths.expand (machine unbounded) (in2026 1 31) (in2026 1 31 + 3600 * secondNs) =
      .ok ([in2026 1 31, in2026 3 3, in2026 3 31].map (window (3600 * secondNs))) ∧
    ¬ KeepsDay threeMonths (in2026 1 31) unbounded := by
  have hexpand : threeMonths.expand (machine unbounded) (in2026 1 31) (in2026 1 31 + 3600 * secondNs) =
      .ok ([in2026 1 31, in2026 3 3, in2026 3 31].map (window (3600 * secondNs))) := by
    decide +kernel
  refine ⟨hexpand, fun h => ?_⟩
  obtain ⟨starts, heq, -, hon⟩ := h [] (in2026 1 31 + 3600 * secondNs) (by decide)
  have hstarts : [in2026 1 31, in2026 3 3, in2026 3 31] = starts :=
    List.map_injective_iff.2 (window_injective _) (Except.ok.inj (hexpand.symm.trans heq))
  have hday := (hon (in2026 3 3) (by rw [← hstarts]; simp)).onDay
  exact absurd hday (by decide)

/-! ### Months without a rule -/

/-- Where the `i`th time of a monthly series is: as long as every month has the day of the first one, on that day; and
from the first month on that is too short, a month late, on the day that was counted into the next month. -/
def Drifts (first : Time) (i : ℕ) (t : Time) : Prop :=
  let month := monthOf (day first)
  let d := dayOfMonth (day first)
  ((∀ j : ℕ, j ≤ i → d ≤ monthLength (month + j)) ∧ t = date (month + i) d (clock first)) ∨
    ∃ k : ℕ, k ≤ i ∧ (∀ j : ℕ, j < k → d ≤ monthLength (month + j)) ∧ monthLength (month + k) < d ∧
      t = date (month + i + 1) (d - monthLength (month + k)) (clock first)

theorem clock_date (n d : ℤ) {c : ℤ} (hc : 0 ≤ c ∧ c < dayNs) : clock (date n d c) = c := by
  rw [clock, date, add_comm, Int.add_mul_emod_self_right, Int.emod_eq_of_lt hc.1 hc.2]

theorem nextMonth_date {n d c : ℤ} (hc : 0 ≤ c ∧ c < dayNs) (h1 : 1 ≤ d) (hd : d ≤ monthLength n) :
    addDate (date n d c) 0 1 0 = date (n + 1) d c := by
  rw [addDate, day_date _ _ hc, clock_date _ _ hc, monthOf_counted h1 hd, dayOfMonth_counted h1 hd, mul_zero, add_zero,
    add_zero]

theorem date_over {n d c : ℤ} : date n d c = date (n + 1) (d - monthLength n) c := by
  rw [date, date, monthLength]
  ring

theorem Drifts.zero (first : Time) : Drifts first 0 first := by
  obtain ⟨-, hlen, -⟩ := start_range first
  refine .inl ⟨fun j hj => ?_, ?_⟩
  · obtain rfl := Nat.le_zero.1 hj
    simpa using hlen
  · rw [Nat.cast_zero, add_zero, date_start]

/-- **One month on.** A day below 29 is in every month. -/
theorem Drifts.succ {first t : Time} {i : ℕ} (h : Drifts first i t) : Drifts first (i + 1) (addDate t 0 1 0) := by
  obtain ⟨hpos, -, h31⟩ := start_range first
  have hmonth : monthOf (day first) + ((i + 1 : ℕ) : ℤ) = monthOf (day first) + i + 1 := by
    rw [Nat.cast_succ, add_assoc]
  obtain ⟨hall, rfl⟩ | ⟨k, hk, hbefore, hshort, rfl⟩ := h
  · rw [nextMonth_date (clock_range first) hpos (hall i le_rfl), ← hmonth]
    by_cases hd : dayOfMonth (day first) ≤ monthLength (monthOf (day first) + ((i + 1 : ℕ) : ℤ))
    · refine .inl ⟨fun j hj => ?_, rfl⟩
      obtain rfl | hlt := Nat.eq_or_lt_of_le hj
      · exact hd
      · exact hall j (Nat.le_of_lt_succ hlt)
    · exact .inr ⟨i + 1, le_rfl, fun j hj => hall j (Nat.le_of_lt_succ hj), not_le.1 hd, date_over⟩
  · have hlong := (monthLength_range (monthOf (day first) + k)).1
    have hnext : dayOfMonth (day first) - monthLength (monthOf (day first) + k) ≤
        monthLength (monthOf (day first) + i + 1) := by
      have hany := (monthLength_range (monthOf (day first) + i + 1)).1
      omega
    refine .inr ⟨k, Nat.le_succ_of_le hk, hbefore, hshort, ?_⟩
    rw [nextMonth_date (clock_range first) (by omega) hnext, hmonth]

theorem following_drifts {s e : Time} {o : Occurrence} {i : ℕ} (hs : Drifts s i o.start) (he : Drifts e i o.finish)
    (n : ℕ) : (Pattern.monthly.following n o).length = n ∧ ∀ j o', (Pattern.monthly.following n o)[j]? = some o' →
      Drifts s (i + 1 + j) o'.start ∧ Drifts e (i + 1 + j) o'.finish := by
  induction n generalizing o i with
  | zero => exact ⟨rfl, fun j o' ho' => by cases ho'⟩
  | succ n ih =>
    obtain ⟨hlength, hrest⟩ := ih (o := ⟨addDate o.start 0 1 0, addDate o.finish 0 1 0⟩) hs.succ he.succ
    refine ⟨congrArg (· + 1) hlength, fun j o' ho' => ?_⟩
    cases j with
    | zero =>
      obtain rfl := Option.some.inj ho'
      exact ⟨hs.succ, he.succ⟩
    | succ j =>
      obtain ⟨hs', he'⟩ := hrest j o' ho'
      have hij : i + 1 + (j + 1) = i + 1 + 1 + j := by omega
      rw [hij]
      exact ⟨hs', he'⟩

/-- **A monthly series drifts.** The starts and the ends, each for themselves, keep the day of the first ones until a
month is too short for it; that month is passed over, and all later ones have the day by which it was too short. -/
theorem generated_monthly {req : ExpandRequest} {out : List Occurrence} (hp : req.pattern = .monthly)
    (h : occurrences req = .ok out) : (out.length : ℤ) = req.count ∧
      ∀ i o, out[i]? = some o → Drifts req.firstStart i o.start ∧ Drifts req.firstEnd i o.finish := by
  unfold occurrences at h
  split at h
  · cases h
  split at h
  · cases h
  rename_i hcount
  obtain rfl := Except.ok.inj h
  obtain ⟨hlength, hrest⟩ := following_drifts (o := ⟨req.firstStart, req.firstEnd⟩) (Drifts.zero req.firstStart)
    (Drifts.zero req.firstEnd) (req.count - 1).toNat
  rw [generateOccurrences, hp]
  refine ⟨?_, fun i o ho => ?_⟩
  · rw [List.length_cons, hlength]
    omega
  · cases i with
    | zero =>
      obtain rfl := Option.some.inj ho
      exact ⟨Drifts.zero _, Drifts.zero _⟩
    | succ i =>
      have hi : 0 + 1 + i = i + 1 := by omega
      obtain ⟨hs, he⟩ := hrest i o ho
      rw [hi] at hs he
      exact ⟨hs, he⟩

def fromJanuary31 : ExpandRequest := ⟨.monthly, in2026 1 31, in2026 1 31 + 3600 * secondNs, 3⟩

theorem march_and_april : ∃ out, occurrences fromJanuary31 = .ok out ∧ out.map Occurrence.start =
    [in2026 1 31, in2026 3 3, in2026 4 3] ∧ ∀ i o, out[i]? = some o → Drifts (in2026 1 31) i o.start := by
  have hout : occurrences fromJanuary31 = .ok (generateOccurrences fromJanuary31) := rfl
  exact ⟨_, hout, by rfl, fun i o ho => ((generated_monthly rfl hout).2 i o ho).1⟩

section Duration

variable {o : Occurrence} {duration : ℤ}

/-- The pattern takes a window to one that is as long. -/
def Rigid (p : Pattern) (o : Occurrence) : Prop := p = .monthly → day o.start = day o.finish

theorem next_rigid {p : Pattern} {f : Time → Time} (hf : p.next? = some f) (h : Rigid p o) :
    f o.finish - f o.start = o.finish - o.start ∧ Rigid p ⟨f o.start, f o.finish⟩ := by
  have hdays : ∀ n : ℤ, addDate o.finish 0 0 n - addDate o.start 0 0 n = o.finish - o.start := fun n => by
    rw [addDate_days, addDate_days]
    ring
  cases p with
  | daily =>
    obtain rfl := Option.some.inj hf
    exact ⟨hdays 1, nofun⟩
  | weekly =>
    obtain rfl := Option.some.inj hf
    exact ⟨hdays 7, nofun⟩
  | biWeekly =>
    obtain rfl := Option.some.inj hf
    exact ⟨hdays 14, nofun⟩
  | monthly =>
    obtain rfl := Option.some.inj hf
    have hday := h rfl
    refine ⟨?_, fun _ => ?_⟩
    · have hstart : day o.start * dayNs + clock o.start = o.start := Int.ediv_mul_add_emod o.start dayNs
      have hfinish : day o.finish * dayNs + clock o.finish = o.finish := Int.ediv_mul_add_emod o.finish dayNs
      simp only [addDate, date]
      rw [hday] at hstart ⊢
      linear_combination hfinish - hstart
    · simp only [addDate]
      rw [day_date _ _ (clock_range _), day_date _ _ (clock_range _), hday]
  | unknown => cases hf

theorem following_rigid {p : Pattern} (n : ℕ) (h : Rigid p o) :
    ∀ o' ∈ p.following n o, o'.finish - o'.start = o.finish - o.start := by
  induction n generalizing o with
  | zero => exact fun o' ho' => absurd ho' List.not_mem_nil
  | succ n ih =>
    intro o' ho'
    rw [Pattern.following] at ho'
    cases hf : p.next? with
    | none =>
      rw [hf] at ho'
      exact absurd ho' List.not_mem_nil
    | some f =>
      rw [hf] at ho'
      obtain ⟨hlength, hrigid⟩ := next_rigid hf h
      obtain rfl | ho' := List.mem_cons.1 ho'
      · exact hlength
      · exact (ih hrigid o' ho').trans hlength

end Duration

/-- **The windows are as long as the first one**, if they do not go on past midnight in a monthly series. -/
theorem duration_kept {req : ExpandRequest} {out : List Occurrence}
    (hday : req.pattern = .monthly → day req.firstStart = day req.firstEnd) (h : occurrences req = .ok out) :
    ∀ o ∈ out, o.finish - o.start = req.firstEnd - req.firstStart := by
  unfold occurrences at h
  split at h
  · cases h
  split at h
  · cases h
  obtain rfl := Except.ok.inj h
  intro o ho
  obtain rfl | ho := List.mem_cons.1 ho
  · rfl
  · exact following_rigid (o := ⟨req.firstStart, req.firstEnd⟩) _ hday o ho

/-- An hour from ten o'clock on. -/
theorem hour_kept : (generateOccurrences fromJanuary31).length = 3 ∧
    ∀ o ∈ generateOccurrences fromJanuary31, o.finish - o.start = 3600 * secondNs := by
  have hout : occurrences fromJanuary31 = .ok (generateOccurrences fromJanuary31) := rfl
  exact ⟨rfl, fun o ho => (duration_kept (fun _ => rfl) hout o ho).trans rfl⟩

/-- A stay from January 31 to February 1 has a second window that ends before it starts. -/
example : occurrences ⟨.monthly, in2026 1 31, in2026 2 1, 2⟩ =
    .ok [⟨in2026 1 31, in2026 2 1⟩, ⟨in2026 3 3, in2026 3 1⟩] := rfl

/-! ### The same series in a zone -/

/-- A time of `Service.Series`, where times count milliseconds. -/
def nanoseconds (t : Model.Instant) : Time := t * 1000000

def occurrenceOf (o : Service.Occurrence) : Occurrence := ⟨nanoseconds o.start, nanoseconds o.finish⟩

def patternOf : Service.Pattern → Pattern
  | .daily => .daily
  | .weekly => .weekly
  | .biWeekly => .biWeekly
  | .monthly => .monthly
  | .other _ => .unknown

def greenwich : TimeZone := .fixed 0

theorem addDate_nanoseconds (t n : ℤ) :
    addDate (nanoseconds t) 0 0 n = nanoseconds (greenwich.setDate t (greenwich.getDate t + n)) := by
  have hdate : greenwich.setDate t (greenwich.getDate t + n) = t + n * dayMs := by
    rw [TimeZone.setDate, TimeZone.withDate_getDate]
    simp [greenwich, TimeZone.fixed, TimeZone.shown]
  rw [addDate_days, hdate]
  unfold nanoseconds dayNs dayMs
  ring

theorem addMonth_nanoseconds (t : ℤ) : addDate (nanoseconds t) 0 1 0 =
    nanoseconds (greenwich.setMonth t (greenwich.getMonth t + 1) (greenwich.getDate t)) := by
  have hshown : greenwich.shown t = t := add_zero t
  have hday : day (nanoseconds t) = dayOf t ∧ clock (nanoseconds t) = nanoseconds (timeInDay t) := by
    unfold day clock nanoseconds dayOf timeInDay dayNs dayMs
    omega
  have hmonth : monthOf (dayOf t) + 12 * 0 + 1 = 12 * (yearMonth (dayOf t)).1 + ((yearMonth (dayOf t)).2 + 1) := by
    rw [monthOf]
    ring
  rw [TimeZone.setMonth, TimeZone.withMonth, TimeZone.getFullYear, TimeZone.getMonth, TimeZone.getDate, hshown,
    firstOfMonth_eq, addDate, hday.1, hday.2, date, hmonth]
  show _ = nanoseconds (_ - 0)
  unfold nanoseconds dayNs dayMs
  ring

theorem next_patternOf (p : Service.Pattern) (t : ℤ) :
    (patternOf p).next?.map (fun f => f (nanoseconds t)) = (p.advance greenwich t).map nanoseconds := by
  cases p with
  | daily => exact congrArg some (addDate_nanoseconds t 1)
  | weekly => exact congrArg some (addDate_nanoseconds t 7)
  | biWeekly => exact congrArg some (addDate_nanoseconds t 14)
  | monthly => exact congrArg some (addMonth_nanoseconds t)
  | other => rfl

/-- In UTC the two models of a series are one. -/
theorem generateOccurrences_utc {req : Service.SeriesRequest} (hs : req.startZone = greenwich)
    (he : req.endZone = greenwich) : (Service.generateOccurrences req).map occurrenceOf =
      generateOccurrences ⟨patternOf req.pattern, nanoseconds req.firstStart, nanoseconds req.firstEnd, req.count⟩ := by
  have hfrom : ∀ n o, (Service.occurrencesFrom req n o).map occurrenceOf =
      (patternOf req.pattern).following n (occurrenceOf o) := fun n => by
    induction n with
    | zero => exact fun _ => rfl
    | succ n ih =>
      intro o
      have hstart := next_patternOf req.pattern o.start
      have hfinish := next_patternOf req.pattern o.finish
      rw [Service.occurrencesFrom, Pattern.following, hs, he]
      cases hnext : (patternOf req.pattern).next? with
      | none =>
        rw [hnext] at hstart
        rw [Option.map_eq_none_iff.1 hstart.symm]
        rfl
      | some f =>
        rw [hnext] at hstart hfinish
        obtain ⟨start, hstart, hf⟩ := Option.map_eq_some_iff.1 hstart.symm
        obtain ⟨finish, hfinish, hf'⟩ := Option.map_eq_some_iff.1 hfinish.symm
        rw [hstart, hfinish]
        dsimp only
        rw [List.map_cons, ih, occurrenceOf, hf, hf']
        rfl
  rw [Service.generateOccurrences, List.map_cons, hfrom]
  rfl

end BookingSystem.Contracts.RRuleMonths
