import Mathlib.Data.Nat.Digits.Lemmas
import Mathlib.Tactic.Common

/-!
# Fields of a text

A text that is put together from fields with a separator after each of them tells its fields as long as none of them
holds the separator (`eq_of_append_sep`). Decimal fields have a fixed number of digits.
-/

namespace BookingSystem.Base

/-- The first field is known when the separator is not in it. -/
theorem eq_of_append_sep {α : Type} {sep : α} {x x' rest rest' : List α} (hx : sep ∉ x) (hx' : sep ∉ x')
    (h : x ++ sep :: rest = x' ++ sep :: rest') : x = x' ∧ rest = rest' := by
  induction x generalizing x' with
  | nil =>
    cases x' with
    | nil => exact ⟨rfl, (List.cons.inj h).2⟩
    | cons a x' =>
      have ha : sep = a := (List.cons.inj h).1
      exact absurd (ha ▸ List.mem_cons_self) hx'
  | cons a x ih =>
    cases x' with
    | nil =>
      have ha : a = sep := (List.cons.inj h).1
      exact absurd (ha ▸ List.mem_cons_self) hx
    | cons b x' =>
      obtain ⟨hab, htail⟩ := List.cons.inj h
      obtain ⟨hxx', hrest⟩ := ih (fun hmem => hx (List.mem_cons_of_mem _ hmem))
        (fun hmem => hx' (List.mem_cons_of_mem _ hmem)) htail
      rw [hab, hxx']
      exact ⟨rfl, hrest⟩

/-! ### Decimal fields -/

/-- The last `w` decimal digits. -/
def decimals : (w : ℕ) → ℕ → List Char
  | 0, _ => []
  | w + 1, n => decimals w (n / 10) ++ [Nat.digitChar (n % 10)]

def decimalsFrom (w n : ℕ) : List Char := decimals (max w (Nat.digits 10 n).length) n

theorem digitChar_mem {n : ℕ} (h : n < 10) : Nat.digitChar n ∈ "0123456789".toList := by
  interval_cases n <;> decide

theorem digitChar_injective {m n : ℕ} (hm : m < 10) (hn : n < 10) (h : Nat.digitChar m = Nat.digitChar n) : m = n := by
  interval_cases m <;> interval_cases n <;> first | rfl | exact absurd h (by decide)

theorem mem_decimals {w n : ℕ} {c : Char} (h : c ∈ decimals w n) : c ∈ "0123456789".toList := by
  induction w generalizing n with
  | zero => cases h
  | succ w ih =>
    rcases List.mem_append.1 h with h | h
    · exact ih h
    · rw [List.mem_singleton] at h
      rw [h]
      exact digitChar_mem (Nat.mod_lt _ (by decide))

@[simp] theorem length_decimals (w n : ℕ) : (decimals w n).length = w := by
  induction w generalizing n with
  | zero => rfl
  | succ w ih => simp [decimals, ih]

theorem mod_eq_of_decimals {w m n : ℕ} (h : decimals w m = decimals w n) : m % 10 ^ w = n % 10 ^ w := by
  induction w generalizing m n with
  | zero => simp [Nat.mod_one]
  | succ w ih =>
    obtain ⟨hinit, hlast⟩ := List.append_inj' h rfl
    have hdigit : m % 10 = n % 10 :=
      digitChar_injective (Nat.mod_lt _ (by decide)) (Nat.mod_lt _ (by decide)) (List.cons.inj hlast).1
    have hhigh := ih hinit
    rw [pow_succ', Nat.mod_mul, Nat.mod_mul, hdigit, hhigh]

theorem decimals_inj {w m n : ℕ} (hm : m < 10 ^ w) (hn : n < 10 ^ w) (h : decimals w m = decimals w n) : m = n := by
  rw [← Nat.mod_eq_of_lt hm, ← Nat.mod_eq_of_lt hn]
  exact mod_eq_of_decimals h

theorem decimalsFrom_inj {w m n : ℕ} (h : decimalsFrom w m = decimalsFrom w n) : m = n := by
  have hlength := congrArg List.length h
  simp only [decimalsFrom, length_decimals] at hlength
  have hbound : ∀ k, k < 10 ^ max w (Nat.digits 10 k).length := fun k =>
    Nat.lt_of_lt_of_le (Nat.lt_base_pow_length_digits (by decide)) (Nat.pow_le_pow_right (by decide) (le_max_right _ _))
  refine decimals_inj (hbound m) ?_ (by rw [decimalsFrom, decimalsFrom, ← hlength] at h; exact h)
  rw [hlength]
  exact hbound n

end BookingSystem.Base
