import BookingSystem.Service.RoomVisibility

/-!
# The rule of the rooms and the filter of the search

`ResourceVisible` and the `WHERE` of `FindAvailable` are to say the same of every row. They do, except that the rule
shows a System Admin all rooms, and the filter does not (`agree_iff`); and that the projection takes a missing
`is_restricted` for `FALSE`, where the filter keeps such a row from a General User.
-/

namespace BookingSystem.Contracts.RoomVisibility

open Base Model Service.RoomVisibility

/-- The search keeps the row, when the caller is the one who searches. -/
def Found (c : Caller) (row : ResourceRow) : Prop := (visibilityWhere ⟨c.role, c.grade⟩).keeps row.columns = true

/-- A Top Management room. -/
def Executive (row : ResourceRow) : Prop := row.assetType = "Top Management"

/-- The rows for which the rule and the filter say the same to a caller. -/
structure Agreeing (c : Caller) (row : ResourceRow) : Prop where
  admin : c.role = Roles.systemAdmin → row.isActive = some true ∧ ¬ Executive row
  general : c.role = generalUser → row.isActive = some true → ¬ Executive row → row.isRestricted ≠ none

section

variable {c : Caller} {row : ResourceRow} {r : ResourceProjection}

theorem found_iff : Found c row ↔ row.isActive = some true ∧
    (Executive row → c.role = Roles.secretary ∧ c.grade = "SDO") ∧
      (c.role = generalUser → row.isRestricted = some false) := by
  have hactive : row.columns .isActive = some (.bool true) ↔ row.isActive = some true := by
    simp [ResourceRow.columns]
  have hopen : (∃ x, row.columns .assetType = some x ∧ x ≠ .text "Top Management") ↔ ¬ Executive row := by
    simp [ResourceRow.columns, Executive]
  have hfree : row.columns .isRestricted = some (.bool false) ↔ row.isRestricted = some false := by
    simp [ResourceRow.columns]
  unfold Found visibilityWhere
  rw [Condition.keeps_ite, Condition.keeps_ite, Condition.keeps_eq, Condition.keeps_ne, Condition.keeps_eq, hactive,
    hopen, hfree, and_assoc]
  refine and_congr_right fun _ => and_congr_left fun _ => ?_
  rw [← not_and_or, not_imp_not]

theorem visible_of_admin (hadmin : c.role = Roles.systemAdmin) (r : ResourceProjection) :
    resourceVisible c r = true := by
  have hself : isSystemAdmin c = true := by simp [isSystemAdmin, Visibility.isSystemAdmin, hadmin]
  have hgeneral : c.role ≠ generalUser := by
    rw [hadmin]
    decide
  unfold resourceVisible
  split
  · exact hself
  · simp [hgeneral]

theorem visible_iff (hadmin : c.role ≠ Roles.systemAdmin) (hr : projectionOf row = some r) :
    resourceVisible c r = true ↔ row.isActive = some true ∧
      (Executive row → c.role = Roles.secretary ∧ c.grade = "SDO") ∧
        (¬ Executive row → c.role = generalUser → row.isRestricted ≠ some true) := by
  have hself : isSystemAdmin c = false := by simp [isSystemAdmin, Visibility.isSystemAdmin, hadmin]
  obtain ⟨active, hactive, rfl⟩ := Option.map_eq_some_iff.1 hr
  rw [hactive]
  unfold resourceVisible Executive
  cases active with
  | false => simp [hself]
  | true =>
    by_cases hexec : row.assetType = "Top Management"
    · simp [hexec, hself]
    · rcases row.isRestricted with _ | _ | _ <;> simp [hexec]

/-- **Rule and filter.** They say the same of a row if and only if a System Admin only meets active rooms that are not
for the Top Management, and a General User only rows with `is_restricted` where the rest of the rule lets them pass. -/
theorem agree_iff (hr : projectionOf row = some r) : (resourceVisible c r = true ↔ Found c row) ↔ Agreeing c row := by
  by_cases hadmin : c.role = Roles.systemAdmin
  · have hsecretary : c.role ≠ Roles.secretary := by
      rw [hadmin]
      decide
    have hgeneral : c.role ≠ generalUser := by
      rw [hadmin]
      decide
    rw [iff_true_left (visible_of_admin hadmin r), found_iff]
    constructor
    · rintro ⟨hactive, hexec, -⟩
      exact ⟨fun _ => ⟨hactive, fun he => hsecretary (hexec he).1⟩, fun h => absurd h hgeneral⟩
    · intro h
      obtain ⟨hactive, hexec⟩ := h.admin hadmin
      exact ⟨hactive, fun he => absurd he hexec, fun h => absurd h hgeneral⟩
  · rw [visible_iff hadmin hr, found_iff]
    constructor
    · intro h
      refine ⟨fun ha => absurd ha hadmin, fun hgen hactive hexec hnull => ?_⟩
      -- the projection has no restriction, the row is not found
      have hfound := h.1 ⟨hactive, fun he => absurd he hexec, fun _ _ => by simp [hnull]⟩
      exact absurd ((hfound.2.2 hgen).symm.trans hnull) (by simp)
    · intro h
      refine and_congr_right fun hactive => and_congr_right fun hexec => ?_
      constructor
      · intro hfree hgen
        have hopen : ¬ Executive row := by
          intro he
          have hrole : generalUser = Roles.secretary := hgen.symm.trans (hexec he).1
          exact absurd hrole (by decide)
        have hne := hfree hopen hgen
        have hsome := h.general hgen hactive hopen
        rcases hrow : row.isRestricted with _ | _ | _
        · exact absurd hrow hsome
        · rfl
        · exact absurd hrow hne
      · intro hfree _ hgen
        simp [hfree hgen]

end

/-! ### A System Admin and a board room -/

def room (assetType : String) : ResourceRow :=
  { id := "r", name := "Room", isActive := some true, isRestricted := some false, assetType,
    detailsVisibleToRole := some [] }

def roomProjection (assetType : String) : ResourceProjection :=
  { id := "r", name := "Room", isActive := true, isRestricted := false, assetType, detailsVisibleToRole := [] }

def caller (role : String) : Caller := { userId := "u", role, grade := "" }

theorem agree_room : resourceVisible (caller "General User") (roomProjection "Room") = true ↔
    Found (caller "General User") (room "Room") :=
  (agree_iff rfl).2 ⟨fun h => absurd h (by decide), fun _ _ _ => by decide⟩

/-- A System Admin sees the board room, and does not find it. -/
theorem admin_does_not_find : ¬ ∀ (c : Caller) (row : ResourceRow) (r : ResourceProjection),
    projectionOf row = some r → (resourceVisible c r = true ↔ Found c row) := by
  intro h
  have hfound := (h (caller "System Admin") (room "Top Management") (roomProjection "Top Management") rfl).1 (by decide)
  revert hfound
  unfold Found
  decide

end BookingSystem.Contracts.RoomVisibility
