import BookingSystem.Service.RRule
import Mathlib.Tactic.Ring
import Mathlib.Tactic.LinearCombination

/-!
# What `Expand` returns

The windows of a rule are kept as far as they are not excluded (`expand_eq`), and in range the machine reckons as if
there were no bounds (`int_machine`, `addDate_machine`). What a rule allows is said here apart from its loops:
`NotAfterUntil` and `wanted`.
-/

namespace BookingSystem.Contracts.Expansion

open Base Service.RRule

/-! ### Days -/

theorem addDate_days (t n : ℤ) : addDate t 0 0 n = t + n * dayNs := by
  have ht : day t * dayNs + clock t = t := Int.ediv_mul_add_emod t dayNs
  rw [addDate, date, dayOfMonth_eq, mul_zero, add_zero, add_zero]
  linear_combination ht

theorem day_add (t n : ℤ) : day (t + n * dayNs) = day t + n := Int.add_mul_ediv_right t n (by decide)

theorem clock_add (t n : ℤ) : clock (t + n * dayNs) = clock t := Int.add_mul_emod_self_right t n dayNs

theorem day_date (n d : ℤ) {c : ℤ} (hc : 0 ≤ c ∧ c < dayNs) : day (date n d c) = firstDay n + d - 1 := by
  unfold day date
  generalize firstDay n + d - 1 = x
  unfold dayNs at *
  omega

theorem clock_range (t : Time) : 0 ≤ clock t ∧ clock t < dayNs :=
  ⟨Int.emod_nonneg t (by decide), Int.emod_lt_of_pos t (by decide)⟩

/-! ### The machine -/

section Machine

variable {beyond : Arithmetic} {t : Time} {n years months days : ℤ}

@[simp] theorem unbounded_int (n : ℤ) : unbounded.int n = n := rfl

@[simp] theorem unbounded_addDate : unbounded.addDate = addDate := rfl

@[simp] theorem unbounded_date : unbounded.date = date := rfl

theorem int_machine (h : -2 ^ 63 ≤ n) (h' : n < 2 ^ 63) : (machine beyond).int n = n :=
  Int.bmod_eq_of_le (by omega) (by omega)

theorem addDate_machine (ht : InRange t) (hsum : InRange (addDate t years months days)) :
    (machine beyond).addDate t years months days = addDate t years months days := if_pos ⟨ht, hsum⟩

theorem date_machine {month d c : ℤ} (h : InRange (date month d c)) :
    (machine beyond).date month d c = date month d c := if_pos h

/-- A time between two that are in range. -/
theorem inRange_between {a b t : ℤ} (ha : InRange a) (hb : InRange b) (hat : a ≤ t) (htb : t ≤ b) : InRange t :=
  ⟨ha.1.trans hat, htb.trans_lt hb.2⟩

end Machine

/-! ### Bounds -/

section Bounds

variable (r : Rule)

def NotAfterUntil (t : Time) : Prop := ∀ u, r.untilTime = some u → t ≤ u

/-- The number of times that are wanted. -/
def wanted : ℕ := if r.count ≤ 0 then 100 else (min r.count 100).toNat

variable {r}

theorem notAfterUntil_iff {t : Time} : NotAfterUntil r t ↔ (!r.isOver t) = true := by
  unfold NotAfterUntil Rule.isOver
  cases r.untilTime with
  | none => simp
  | some u => simp

theorem isOver_down {a b : Time} (hab : a ≤ b) (hb : (!r.isOver b) = true) : (!r.isOver a) = true :=
  notAfterUntil_iff.1 fun u hu => hab.trans (notAfterUntil_iff.2 hb u hu)

theorem limit_eq (r : Rule) : r.limit = wanted r := by
  unfold Rule.limit wanted maxOccurrences
  split <;> simp only [min_def] <;> split <;> omega

theorem wanted_pos (r : Rule) : 0 < wanted r := by
  unfold wanted
  split <;> omega

theorem step_pos (r : Rule) : 1 ≤ r.step := by
  unfold Rule.step
  split <;> omega

end Bounds

/-! ### Windows -/

def window (duration t : ℤ) : Occurrence := ⟨t, t + duration⟩

theorem window_injective (duration : ℤ) : Function.Injective (window duration) := fun _ _ h =>
  congrArg Occurrence.start h

/-- The times of which none is excluded, to the second. -/
def kept (exDates starts : List Time) : List Time := starts.filter fun t => ∀ e ∈ exDates, unix e ≠ unix t

theorem kept_nil (starts : List Time) : kept [] starts = starts :=
  List.filter_eq_self.2 fun _ _ => decide_eq_true (List.forall_mem_nil _)

/-- What a call returns, from the starts that it comes to. -/
theorem expand_eq {r : Rule} {m : Arithmetic} {dtStart dtEnd : Time} {starts : List Time} (hlt : dtStart < dtEnd)
    (h : r.windows m dtStart (sub dtEnd dtStart) = starts.map (window (sub dtEnd dtStart))) :
    r.expand m dtStart dtEnd = .ok ((kept r.exDates starts).map (window (sub dtEnd dtStart))) := by
  have hkept : Rule.filterExDates r.exDates (starts.map (window (sub dtEnd dtStart))) =
      (kept r.exDates starts).map (window (sub dtEnd dtStart)) := by
    rw [Rule.filterExDates, List.filter_map, kept]
    refine congrArg (List.map _) (List.filter_congr fun t _ => ?_)
    rw [Function.comp, List.contains_eq_mem, ← decide_not]
    refine decide_eq_decide.2 ?_
    simp only [List.mem_map, not_exists, not_and]
    rfl
  rw [Rule.expand, if_neg (not_le.2 hlt), h]
  simp only [hkept]
  split
  · rename_i hnone
    rw [List.isEmpty_iff.1 hnone, kept_nil]
  · rfl

end BookingSystem.Contracts.Expansion
