import Mathlib.Data.Int.Notation
import Mathlib.Order.WellFounded
import Mathlib.Tactic.Common

/-!
# Tasks that wait for other tasks

Tasks are numbered, and each one has a list of the numbers that it waits for; a number need not be one of a task. They
can all be done, one after another, exactly if they can be ranked so that each comes after the ones it waits for
(`Orderable`): then some task is ready as long as one is left (`exists_ready`), and a way in which all were done ranks
them (`Reached.orderable`).
-/

namespace BookingSystem.Base

/-- The first `n` tasks can be ranked so that each of them comes after the ones it waits for. -/
def Orderable (n : ℕ) (deps : ℕ → List ℤ) : Prop :=
  ∃ rank : ℕ → ℕ, ∀ i < n, ∀ d ∈ deps i, ∃ j : ℕ, d = (j : ℤ) ∧ j < n ∧ rank j < rank i

/-- These tasks can have been done one after another. -/
def Reached (deps : ℕ → List ℤ) (done : ℕ → Prop) : Prop :=
  ∃ (rank : ℕ → ℕ) (m : ℕ), ∀ i, done i →
    rank i < m ∧ ∀ d ∈ deps i, ∃ j : ℕ, d = (j : ℤ) ∧ done j ∧ rank j < rank i

section

variable {n : ℕ} {deps : ℕ → List ℤ} {done : ℕ → Prop} {i : ℕ}

theorem Orderable.exists_ready (h : Orderable n deps) (hleft : ∃ i < n, ¬ done i) :
    ∃ i < n, ¬ done i ∧ ∀ d ∈ deps i, ∃ j : ℕ, d = (j : ℤ) ∧ j < n ∧ done j := by
  obtain ⟨rank, hrank⟩ := h
  -- one of the lowest rank among those that are left
  obtain ⟨i, ⟨hi, hnot⟩, hmin⟩ := (measure rank).wf.has_min {i | i < n ∧ ¬ done i} hleft
  refine ⟨i, hi, hnot, fun d hd => ?_⟩
  obtain ⟨j, rfl, hj, hlt⟩ := hrank i hi d hd
  refine ⟨j, rfl, hj, ?_⟩
  by_contra hleft
  exact hmin j ⟨hj, hleft⟩ hlt

theorem orderable_of_earlier (h : ∀ i < n, ∀ d ∈ deps i, 0 ≤ d ∧ d < i) : Orderable n deps := by
  refine ⟨id, fun i hi d hd => ?_⟩
  obtain ⟨hpos, hlt⟩ := h i hi d hd
  have htoNat : d.toNat < i := by omega
  exact ⟨d.toNat, by omega, by omega, htoNat⟩

theorem not_orderable_of_self (hi : i < n) (hself : (i : ℤ) ∈ deps i) : ¬ Orderable n deps := by
  rintro ⟨rank, hrank⟩
  obtain ⟨j, hj, -, hlt⟩ := hrank i hi i hself
  obtain rfl : i = j := by exact_mod_cast hj
  exact Nat.lt_irrefl _ hlt

theorem Reached.start (h : ∀ i, ¬ done i) : Reached deps done := ⟨fun _ => 0, 0, fun i hi => absurd hi (h i)⟩

/-- One more task. -/
theorem Reached.insert (h : Reached deps done) (hnot : ¬ done i)
    (hdeps : ∀ d ∈ deps i, ∃ j : ℕ, d = (j : ℤ) ∧ done j) : Reached deps fun j => j = i ∨ done j := by
  obtain ⟨rank, m, hrank⟩ := h
  have hother : ∀ j, done j → (if j = i then m else rank j) = rank j := by
    intro j hj
    refine if_neg ?_
    rintro rfl
    exact hnot hj
  refine ⟨fun j => if j = i then m else rank j, m + 1, fun j hj => ?_⟩
  rcases hj with rfl | hj
  · refine ⟨by simp, fun d hd => ?_⟩
    obtain ⟨k, rfl, hk⟩ := hdeps d hd
    refine ⟨k, rfl, .inr hk, ?_⟩
    simp only [hother k hk, if_true]
    exact (hrank k hk).1
  · obtain ⟨hlt, hall⟩ := hrank j hj
    simp only [hother j hj]
    refine ⟨by omega, fun d hd => ?_⟩
    obtain ⟨k, rfl, hk, hkj⟩ := hall d hd
    refine ⟨k, rfl, .inr hk, ?_⟩
    simpa only [hother k hk] using hkj

theorem Reached.congr {done' : ℕ → Prop} (h : Reached deps done) (hsame : ∀ i, done' i ↔ done i) :
    Reached deps done' := by
  obtain rfl : done' = done := funext fun i => propext (hsame i)
  exact h

theorem Reached.orderable (h : Reached deps done) (hall : ∀ i, done i ↔ i < n) : Orderable n deps := by
  obtain ⟨rank, m, hrank⟩ := h
  refine ⟨rank, fun i hi d hd => ?_⟩
  obtain ⟨j, rfl, hj, hlt⟩ := (hrank i ((hall i).2 hi)).2 d hd
  exact ⟨j, rfl, (hall j).1 hj, hlt⟩

end

end BookingSystem.Base
