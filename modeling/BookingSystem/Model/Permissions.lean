import BookingSystem.Base.Outcome
import BookingSystem.Model.Entities
import Mathlib.Data.Finset.Dedup
import Mathlib.Data.Finset.Empty
import Mathlib.Algebra.GroupWithZero.Nat

/-!
# `PermissionsService`

Which permissions a role has in a tenant: a stored row for the role, else the default of the catalog. The service keeps
what it has read in a cache of its process and drops the entries of a tenant whenever it writes a row of the tenant.
An operation that gives up can have filled the cache before it did, so operations hand back their state in both cases.
-/

namespace BookingSystem.Model

open Base

/-! ### The catalog -/

inductive Perm
  | bookingCreate | bookingCancel | bookingCancelOthers | bookingUpdate | bookingReadAll
  | resourceCreate | resourceUpdate | resourceDelete | resourceSplit
  | userCreate | userUpdate | userDeactivate
  | departmentManage | holidayManage | holidayImport
  | approvalDecide | approvalDelegate | approvalBypass | approvalRuleManage
  | webhookManage | integrationManage | permissionManage
  | reportView | reportExport
  | customizationManage | auditView | tenantManage | serviceManage | broadcastManage
  deriving DecidableEq, Repr

namespace Perm

def key : Perm → String
  | bookingCreate => "booking.create"
  | bookingCancel => "booking.cancel"
  | bookingCancelOthers => "booking.cancel_others"
  | bookingUpdate => "booking.update"
  | bookingReadAll => "booking.read_all"
  | resourceCreate => "resource.create"
  | resourceUpdate => "resource.update"
  | resourceDelete => "resource.delete"
  | resourceSplit => "resource.split"
  | userCreate => "user.create"
  | userUpdate => "user.update"
  | userDeactivate => "user.deactivate"
  | departmentManage => "department.manage"
  | holidayManage => "holiday.manage"
  | holidayImport => "holiday.import"
  | approvalDecide => "approval.decide"
  | approvalDelegate => "approval.delegate"
  | approvalBypass => "approval.bypass"
  | approvalRuleManage => "approval_rule.manage"
  | webhookManage => "webhook.manage"
  | integrationManage => "integration.manage"
  | permissionManage => "permission.manage"
  | reportView => "report.view"
  | reportExport => "report.export"
  | customizationManage => "customization.manage"
  | auditView => "audit.view"
  | tenantManage => "tenant.manage"
  | serviceManage => "service.manage"
  | broadcastManage => "broadcast.manage"

/-- `Object.values(Perm)`. -/
def values : List Perm :=
  [bookingCreate, bookingCancel, bookingCancelOthers, bookingUpdate, bookingReadAll,
    resourceCreate, resourceUpdate, resourceDelete, resourceSplit,
    userCreate, userUpdate, userDeactivate,
    departmentManage, holidayManage, holidayImport,
    approvalDecide, approvalDelegate, approvalBypass, approvalRuleManage,
    webhookManage, integrationManage, permissionManage,
    reportView, reportExport,
    customizationManage, auditView, tenantManage, serviceManage, broadcastManage]

end Perm

structure PermissionGroup where
  title : String
  keys : List Perm

open Perm in
def catalog : List PermissionGroup :=
  [⟨"Bookings", [bookingCreate, bookingCancel, bookingCancelOthers, bookingUpdate, bookingReadAll]⟩,
    ⟨"Resources", [resourceCreate, resourceUpdate, resourceDelete, resourceSplit]⟩,
    ⟨"Services", [serviceManage]⟩,
    ⟨"Users", [userCreate, userUpdate, userDeactivate]⟩,
    ⟨"Workspace", [departmentManage, holidayManage, holidayImport, broadcastManage]⟩,
    ⟨"Approvals", [approvalDecide, approvalDelegate, approvalBypass, approvalRuleManage]⟩,
    ⟨"Integrations", [webhookManage, integrationManage, permissionManage]⟩,
    ⟨"Insights", [reportView, reportExport, auditView]⟩,
    ⟨"Tenant", [customizationManage, tenantManage]⟩]

open Perm in
/-- The permissions of the built-in roles. -/
def defaultMatrix : List (String × List Perm) :=
  [(Roles.systemAdmin, Perm.values),
    (Roles.securityAdmin, [bookingReadAll, approvalDecide, approvalDelegate, auditView, userUpdate, permissionManage]),
    (Roles.roomAdmin,
      [bookingCreate, bookingCancel, bookingCancelOthers, bookingUpdate, bookingReadAll, resourceCreate,
        resourceUpdate, resourceDelete, resourceSplit, approvalDecide, approvalDelegate, reportView, reportExport]),
    (Roles.secretary, [bookingCreate, bookingCancel, bookingUpdate, bookingReadAll, approvalDecide]),
    ("General User", [bookingCreate, bookingCancel, bookingUpdate])]

def systemRoles : List String := defaultMatrix.map (·.1)

namespace PermissionsService

/-! ### Rows and the cache -/

/-- The id of a tenant: a uuid as the database writes it, which has no colon. -/
structure TenantId where
  text : Uuid
  no_colon : ':' ∉ text.toList
  deriving DecidableEq

/-- A row of `role_permissions`, one for each tenant and role. -/
structure RoleRow where
  tenantId : TenantId
  role : String
  permissions : List String
  updatedAt : Instant

instance : Keyed RoleRow (TenantId × String) := ⟨fun row => (row.tenantId, row.role)⟩

@[simp] theorem key_row (row : RoleRow) : (key row : TenantId × String) = (row.tenantId, row.role) := rfl

structure CacheEntry where
  perms : Finset String
  expiresAt : Instant

/-- The rows of the database and the cache of the process. -/
structure State where
  rows : Table RoleRow
  cache : String → Option CacheEntry

/-- What the clock shows where an operation reads it: when it looks at a cache entry, when it makes one, and in the
database when a row is written. -/
structure Clock where
  checked : Instant
  cached : Instant
  saved : Instant

/-- Functions of the runtime. -/
structure Runtime where
  toLowerCase : String → String
  toISOString : Instant → String

def cacheTtlMs : ℤ := 30000

def cacheKey (tenantId : TenantId) (role : String) : String := tenantId.text ++ "::" ++ role

/-- `row?.permissions ?? defaultMatrix()[role] ?? []` as a set. An inherited name finds something that is no list. -/
def resolve (rows : Table RoleRow) (tenantId : TenantId) (role : String) : Except HttpError (Finset String) :=
  match rows.find? (tenantId, role) with
  | some row => .ok row.permissions.toFinset
  | none =>
    match defaultMatrix.lookup role with
    | some perms => .ok (perms.map Perm.key).toFinset
    | none =>
      if inheritedNames.contains role then .error (.internal "TypeError: object is not iterable")
      else .ok ∅

/-- Reads the permissions of a role and keeps them for a while. -/
def readPerms (clock : Clock) (tenantId : TenantId) (role : String) (st : State) :
    Except HttpError (Finset String) × State :=
  match resolve st.rows tenantId role with
  | .error e => (.error e, st)
  | .ok perms =>
    (.ok perms,
      { st with cache :=
          Function.update st.cache (cacheKey tenantId role) (some ⟨perms, clock.cached + cacheTtlMs⟩) })

def permsForRole (clock : Clock) (tenantId : TenantId) (role : String) (st : State) :
    Except HttpError (Finset String) × State :=
  match st.cache (cacheKey tenantId role) with
  | some hit =>
    if clock.checked < hit.expiresAt then (.ok hit.perms, st) else readPerms clock tenantId role st
  | none => readPerms clock tenantId role st

def hasPermission (clock : Clock) (tenantId : TenantId) (role permission : String) (st : State) :
    Except HttpError Bool × State :=
  let out := permsForRole clock tenantId role st
  (out.1.map fun perms => decide (permission ∈ perms), out.2)

/-- Drops the entries whose key starts with the tenant; a message `*` drops them all. -/
def dropLocal (tenantId : String) (st : State) : State :=
  if tenantId = "*" then { st with cache := fun _ => none }
  else { st with cache := fun k => if (tenantId ++ "::").toList <+: k.toList then none else st.cache k }

def invalidate (tenantId : TenantId) (st : State) : State := dropLocal tenantId.text st

/-! ### The matrix -/

structure RoleMatrix where
  tenantId : TenantId
  roles : List (String × List String)
  versions : List (String × String)
  catalog : List PermissionGroup

/-- The matrix of the rows; a role `__proto__` sets no key of the object. -/
def matrix (rt : Runtime) (tenantId : TenantId) (rows : List RoleRow) : RoleMatrix where
  tenantId := tenantId
  roles := (rows.filter fun row => row.role != "__proto__").map fun row => (row.role, row.permissions)
  versions := (rows.filter fun row => row.role != "__proto__").map fun row => (row.role, rt.toISOString row.updatedAt)
  catalog := catalog

def seeds (clock : Clock) (tenantId : TenantId) : List RoleRow :=
  defaultMatrix.map fun p => ⟨tenantId, p.1, p.2.map Perm.key, clock.saved⟩

/-- The matrix of the tenant, with the default rows if it has none yet. -/
def get (rt : Runtime) (clock : Clock) (tenantId : TenantId) (st : State) : Except HttpError RoleMatrix × State :=
  let rows := st.rows.rows.filter fun row => row.tenantId == tenantId
  if rows.isEmpty then
    match st.rows.insertAll? (seeds clock tenantId) with
    | some rows => (.ok (matrix rt tenantId (seeds clock tenantId)), { st with rows })
    | none => (.error (.internal "duplicate key value violates unique constraint"), st)
  else (.ok (matrix rt tenantId rows), st)

/-! ### Editing a role -/

def clean (permissions : List String) : List String :=
  ((permissions.map trim).filter fun p => p != "").eraseDups

structure SetRoleResult where
  previous : List String
  next : List String
  version : String

def isStale (rt : Runtime) (expectedVersion : Option String) (existing : Option RoleRow) : Bool :=
  match expectedVersion, existing with
  | some expected, some row => rt.toISOString row.updatedAt != expected
  | _, _ => false

/-- An actor who is no System Admin grants what they hold and nothing else. -/
def assertGrants (clock : Clock) (tenantId : TenantId) (actor : Option String) (previous next : List String)
    (st : State) : Except HttpError Unit × State :=
  match actor with
  | none => (.ok (), st)
  | some role =>
    if role = Roles.systemAdmin then (.ok (), st)
    else
      let out := permsForRole clock tenantId role st
      (out.1.bind fun actorPerms =>
        let escalated := next.filter fun p => !previous.contains p && decide (p ∉ actorPerms)
        require escalated.isEmpty (.forbidden ("You cannot grant permission(s) you do not hold yourself: " ++
          ", ".intercalate escalated ++ ".")), out.2)

/-- Writes the row of a role; the column takes 64 characters. -/
def saveRow (clock : Clock) (tenantId : TenantId) (role : String) (permissions : List String) (rows : Table RoleRow) :
    Except HttpError (Table RoleRow) :=
  let row : RoleRow := ⟨tenantId, role, permissions, clock.saved⟩
  match rows.find? (tenantId, role) with
  | some _ => .ok (rows.save row)
  | none => do
    require (role.length ≤ 64) (.internal "value too long for type character varying(64)")
    found (rows.insert? row) (.internal "duplicate key value violates unique constraint")

def setRole (rt : Runtime) (clock : Clock) (tenantId : TenantId) (role : String) (permissions : List String)
    (expectedVersion actor : Option String) (st : State) : Except HttpError SetRoleResult × State :=
  if role = Roles.systemAdmin then
    (.error (.forbidden "The System Admin role is immutable and cannot be edited."), st)
  else
    let next := clean permissions
    let existing := st.rows.find? (tenantId, role)
    if isStale rt expectedVersion existing then
      (.error (.conflict ("The \"" ++ role ++
        "\" permissions were changed by someone else. Reload and re-apply your edits.")), st)
    else
      let previous := (existing.map (·.permissions)).getD []
      let granted := assertGrants clock tenantId actor previous next st
      match granted.1 with
      | .error e => (.error e, granted.2)
      | .ok _ =>
        match saveRow clock tenantId role next granted.2.rows with
        | .error e => (.error e, granted.2)
        | .ok rows => (.ok ⟨previous, next, rt.toISOString clock.saved⟩, invalidate tenantId { granted.2 with rows })

/-! ### Custom roles -/

def utf16Length (s : String) : ℕ := (s.toList.map fun c => if c.toNat < 65536 then 1 else 2).sum

def checkedName (rt : Runtime) (tenantId : TenantId) (role : String) (rows : Table RoleRow) :
    Except HttpError String := do
  let name := trim role
  require (name != "") (.badRequest "a role name is required")
  require (utf16Length name ≤ 64) (.badRequest "role name must be 64 characters or fewer")
  require (!systemRoles.any fun r => rt.toLowerCase r == rt.toLowerCase name)
    (.conflict ("\"" ++ name ++ "\" is a built-in role name"))
  require (rows.find? (tenantId, name)).isNone (.conflict ("a role named \"" ++ name ++ "\" already exists"))
  pure name

/-- Creates a role without permissions. -/
def createRole (rt : Runtime) (clock : Clock) (tenantId : TenantId) (role : String) (st : State) :
    Except HttpError (String × String) × State :=
  match checkedName rt tenantId role st.rows with
  | .error e => (.error e, st)
  | .ok name =>
    match saveRow clock tenantId name [] st.rows with
    | .error e => (.error e, st)
    | .ok rows => (.ok (name, rt.toISOString clock.saved), invalidate tenantId { st with rows })

/-- Deletes a role that is not built in and that no user has. -/
def deleteRole (users : Table User) (tenantId : TenantId) (role : String) (st : State) :
    Except HttpError Unit × State :=
  let inUse := users.rows.countP fun u => u.tenantId == tenantId.text && u.role == role
  if systemRoles.contains role then (.error (.forbidden "built-in roles cannot be deleted"), st)
  else if 0 < inUse then
    (.error (.conflict (toString inUse ++ " user(s) still have the \"" ++ role ++
      "\" role — reassign them before deleting it")), st)
  else
    match st.rows.find? (tenantId, role) with
    | none => (.error (.notFound "role not found"), st)
    | some _ => (.ok (), invalidate tenantId { st with rows := st.rows.delete (tenantId, role) })

/-! ### Calls -/

/-- A call of the service, or a message of the invalidation channel. The users are as they are when the call is made. -/
inductive Call
  | hasPermission (tenantId : TenantId) (role permission : String)
  | get (tenantId : TenantId)
  | setRole (tenantId : TenantId) (role : String) (permissions : List String) (expectedVersion actor : Option String)
  | createRole (tenantId : TenantId) (role : String)
  | deleteRole (users : Table User) (tenantId : TenantId) (role : String)
  | message (tenantId : String)

/-- The state after a call. -/
def serve (rt : Runtime) (st : State) : Clock × Call → State
  | (clock, .hasPermission t role p) => (hasPermission clock t role p st).2
  | (clock, .get t) => (get rt clock t st).2
  | (clock, .setRole t role permissions version actor) => (setRole rt clock t role permissions version actor st).2
  | (clock, .createRole t role) => (createRole rt clock t role st).2
  | (_, .deleteRole users t role) => (deleteRole users t role st).2
  | (_, .message payload) => dropLocal payload st

end PermissionsService

end BookingSystem.Model
