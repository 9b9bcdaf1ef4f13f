import Mathlib.Tactic.Common

/-!
# Conditions of a query

The conditions of a `WHERE` compare columns with literals. A comparison with `NULL` is neither true nor false, and a row
is kept when the whole condition is true (`keeps_and`, `keeps_eq`, `keeps_ne`): a `NULL` passes neither `=` nor `!=`.
-/

namespace BookingSystem.Base

/-- A condition over columns and literals. -/
inductive Condition (κ ν : Type)
  | eq (column : κ) (value : ν)
  | ne (column : κ) (value : ν)
  | and (p q : Condition κ ν)

namespace Condition

variable {κ ν : Type}

def text (column : κ → String) (literal : ν → String) : Condition κ ν → String
  | eq c v => column c ++ " = " ++ literal v
  | ne c v => column c ++ " != " ++ literal v
  | and p q => p.text column literal ++ " AND " ++ q.text column literal

variable [DecidableEq ν]

def andTruth : Option Bool → Option Bool → Option Bool
  | some false, _ | _, some false => some false
  | some true, some true => some true
  | _, _ => none

theorem andTruth_eq_true {x y : Option Bool} : andTruth x y = some true ↔ x = some true ∧ y = some true := by
  rcases x with _ | _ | _ <;> rcases y with _ | _ | _ <;> simp [andTruth]

/-- The truth value of a condition in a row, whose columns can be `NULL`. -/
def eval (row : κ → Option ν) : Condition κ ν → Option Bool
  | eq c v => (row c).map fun x => decide (x = v)
  | ne c v => (row c).map fun x => decide (x ≠ v)
  | and p q => andTruth (p.eval row) (q.eval row)

def keeps (p : Condition κ ν) (row : κ → Option ν) : Bool := p.eval row == some true

variable {row : κ → Option ν} {c : κ} {v : ν} {p q : Condition κ ν}

@[simp] theorem keeps_eq : (eq c v).keeps row = true ↔ row c = some v := by
  simp [keeps, eval, Option.map_eq_some_iff]

@[simp] theorem keeps_ne : (ne c v).keeps row = true ↔ ∃ x, row c = some x ∧ x ≠ v := by
  simp [keeps, eval, Option.map_eq_some_iff]

@[simp] theorem keeps_and : (and p q).keeps row = true ↔ p.keeps row = true ∧ q.keeps row = true := by
  simp [keeps, eval, andTruth_eq_true]

theorem keeps_ite {b : Prop} [Decidable b] :
    (if b then and p q else p).keeps row = true ↔ p.keeps row = true ∧ (b → q.keeps row = true) := by
  split
  · rename_i hb
    simp [hb]
  · rename_i hb
    simp [hb]

end Condition

end BookingSystem.Base
