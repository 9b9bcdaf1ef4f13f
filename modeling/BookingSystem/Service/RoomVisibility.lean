import BookingSystem.Base.Conditions
import BookingSystem.Model.Visibility

/-!
# Which rooms a caller sees

The rule of the domain (`ResourceVisible`), and the conditions that `FindAvailable` adds for it to the `WHERE` of the
search. The rule is asked about a projection of the row, which `ProjectionsForIDs` reads.
-/

namespace BookingSystem.Service.RoomVisibility

open Base Model

def generalUser : String := "General User"

/-! ### The rule -/

/-- The fields of the projection that the rule reads, with those that the details of a booking depend on. -/
structure ResourceProjection extends Visibility.ResourceProjection where
  id : String
  isActive : Bool
  isRestricted : Bool
  assetType : String

structure Caller extends Visibility.Caller where
  grade : String

def isSystemAdmin (c : Caller) : Bool := Visibility.isSystemAdmin c.toCaller

def resourceVisible (c : Caller) (r : ResourceProjection) : Bool :=
  if !r.isActive then isSystemAdmin c
  else if r.assetType == "Top Management" then
    if isSystemAdmin c then true else c.role == Roles.secretary && c.grade == "SDO"
  else if r.isRestricted && c.role == generalUser then false
  else true

def canSeeFreeBusy (c : Caller) (r : ResourceProjection) : Bool := resourceVisible c r

/-! ### The search -/

/-- A row of `resources`, of which the migrations let the two flags be `NULL`. -/
structure ResourceRow where
  id : String
  name : String
  isActive : Option Bool
  isRestricted : Option Bool
  assetType : String
  detailsVisibleToRole : Option (List String)

/-- A row of `ProjectionsForIDs`: the columns but `is_active` are coalesced, so a `NULL` in that one does not scan. -/
def projectionOf (row : ResourceRow) : Option ResourceProjection :=
  row.isActive.map fun isActive =>
    { id := row.id
      name := row.name
      isActive
      isRestricted := row.isRestricted.getD false
      assetType := row.assetType
      detailsVisibleToRole := row.detailsVisibleToRole.getD [] }

/-- The columns that the conditions are about. -/
inductive Column
  | isActive | assetType | isRestricted

inductive Literal
  | bool (b : Bool)
  | text (s : String)
  deriving DecidableEq

def Column.text : Column → String
  | .isActive => "is_active"
  | .assetType => "asset_type"
  | .isRestricted => "is_restricted"

def Literal.sql : Literal → String
  | .bool true => "TRUE"
  | .bool false => "FALSE"
  | .text s => "'" ++ s ++ "'"

def ResourceRow.columns (row : ResourceRow) : Column → Option Literal
  | .isActive => row.isActive.map .bool
  | .assetType => some (.text row.assetType)
  | .isRestricted => row.isRestricted.map .bool

/-- The user who searches. -/
structure RequestingUser where
  role : String
  grade : String

/-- The conditions of the `WHERE` of `FindAvailable` that are about the user. -/
def visibilityWhere (requestingUser : RequestingUser) : Condition Column Literal :=
  let query := .eq .isActive (.bool true)
  let query :=
    if requestingUser.role ≠ Roles.secretary ∨ requestingUser.grade ≠ "SDO" then
      query.and (.ne .assetType (.text "Top Management"))
    else query
  if requestingUser.role = generalUser then query.and (.eq .isRestricted (.bool false)) else query

example : (visibilityWhere ⟨"General User", ""⟩).text Column.text Literal.sql =
    "is_active = TRUE AND asset_type != 'Top Management' AND is_restricted = FALSE" := by decide

end BookingSystem.Service.RoomVisibility
