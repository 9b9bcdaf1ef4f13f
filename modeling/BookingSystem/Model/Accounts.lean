import BookingSystem.Base.Table
import BookingSystem.Model.Permissions

/-!
# Accounts: `AuthService`, `UsersService`, `MfaService`

The rows of `users` with every column a login or an edit reads or writes, and the services that check a password, a
forced password change or a second factor. A query loads an entity without the columns declared `select: false` unless
it asks for them, so an `Entity` says which of these it has. What the packages for password hashes, tokens and one-time
codes compute is a parameter (`AuthRuntime`); tenants, providers and departments are as they are when a call is made
(`Moment`).
-/

namespace BookingSystem.Model

open Base

/-! ### Rows -/

inductive ProviderKind
  | saml | oauth2 | ldap
  deriving DecidableEq, Repr

def ProviderKind.label : ProviderKind → String
  | .saml => "saml"
  | .oauth2 => "oauth2"
  | .ldap => "ldap"

/-- The columns of a user that every query loads. -/
structure UserColumns extends User where
  email : Option String := none
  mustChangePassword : Bool := false
  dn : Option String := none
  locale : String := "en"
  regionAccess : List String := []
  mfaEnabled : Bool := false
  mfaEnrolledAt : Option Instant := none
  ssoProvider : Option ProviderKind := none
  ssoSubject : Option String := none
  deriving DecidableEq, Repr

/-- A row of `users`: the columns above and those declared `select: false`. -/
structure Account extends UserColumns where
  passwordHash : String
  mfaSecret : Option String := none
  icsFeedToken : Option String := none
  deriving DecidableEq, Repr

instance : Keyed Account Uuid := ⟨fun a => a.id⟩

@[simp] theorem key_account (a : Account) : (key a : Uuid) = a.id := rfl

def Account.login (a : Account) : Uuid × String := (a.tenantId, a.username)

abbrev Users := Indexed Account Account.login

/-- A user as a query has loaded it: a column that was not asked for is undefined. -/
structure Entity extends UserColumns where
  passwordHash : Option String := none
  mfaSecret : Option String := none

structure Tenant where
  id : Uuid
  slug : String
  isActive : Bool := true
  deriving DecidableEq, Repr

instance : Keyed Tenant Uuid := ⟨Tenant.id⟩

/-- An identity provider; its settings are a JSON object of texts. -/
structure IdentityProvider where
  id : Uuid
  tenantId : Uuid
  slug : String
  kind : ProviderKind
  enabled : Bool := true
  config : List (String × String) := []
  deriving DecidableEq, Repr

instance : Keyed IdentityProvider Uuid := ⟨IdentityProvider.id⟩

/-! ### What the packages compute -/

/-- What a signed token says. A session has no purpose. -/
structure TokenClaims where
  sub : Uuid
  tid : Uuid
  username : Option String
  role : Option String := none
  grade : Option String := none
  regions : List String := []
  mfa : Bool := false
  purpose : Option String := none
  deriving DecidableEq, Repr

/-- Password hashes (`compare password hash`, `hash salt password`), tokens (`sign claims expiresIn now`,
`verify token now`), one-time codes (`totp secret code now`), the case mapping of the runtime and the life time of a
session from its settings. -/
structure AuthRuntime where
  compare : String → String → Bool
  hash : String → String → String
  sign : TokenClaims → String → Instant → String
  verify : String → Instant → Option TokenClaims
  totp : String → String → Instant → Bool
  toLowerCase : String → String
  sessionTtl : String

/-- What a call finds: the clock, the random values it draws, and the tables it only reads. -/
structure Moment where
  now : Instant
  salt : String := ""
  secret : String := ""
  tenants : Table Tenant
  providers : Table IdentityProvider := .empty
  departments : Table Department := .empty

namespace Moment

variable (m : Moment)

/-- `tenants.findOne({ where: { slug, isActive: true } })`. -/
def tenantBySlug (slug : String) : Option Tenant := m.tenants.rows.find? fun t => t.slug == slug && t.isActive

/-- `tenants.findOne({ where: { id, isActive: true } })`. -/
def activeTenant (id : Uuid) : Option Tenant := (m.tenants.find? id).filter (·.isActive)

end Moment

/-! ### `AuthService` -/

/-- The part of a user entity a session is made of; what the entity does not have is undefined. -/
structure Principal where
  id : Uuid
  username : Option String
  role : String
  grade : Option String
  regionAccess : List String
  mfaEnabled : Option Bool
  deriving DecidableEq, Repr

def UserColumns.principal (u : UserColumns) : Principal :=
  ⟨u.id, some u.username, u.role, u.grade, u.regionAccess, some u.mfaEnabled⟩

@[simp] theorem principal_id (u : UserColumns) : u.principal.id = u.id := rfl

structure Profile extends Principal where
  tenantId : Uuid
  tenantSlug : String
  deriving DecidableEq, Repr

/-- A session token with the profile of its user. -/
structure Session where
  accessToken : String
  user : Profile
  deriving DecidableEq, Repr

/-- What the password step answers: a session, or a token for the step that comes first. -/
inductive LoginResult
  | session (s : Session)
  | requiresMfa (mfaToken : String)
  | mustChangePassword (changeToken : String)
  deriving DecidableEq, Repr

namespace UsersService

def findOne (users : Users) (tenantId id : Uuid) : Option Account :=
  (users.find? id).filter fun a => a.tenantId == tenantId

theorem findOne_eq_some {users : Users} {tenantId id : Uuid} {a : Account} :
    findOne users tenantId id = some a ↔ users.find? id = some a ∧ a.tenantId = tenantId := by
  simp [findOne, Option.filter_eq_some_iff]

def findById (users : Users) (tenantId id : Uuid) : Except HttpError Entity :=
  found ((findOne users tenantId id).map fun a => { toUserColumns := a.toUserColumns }) (.notFound "user not found")

def findByUsername (users : Users) (tenantId : Uuid) (username : String) : Option Entity :=
  (users.lookup (tenantId, username)).map fun a =>
    { toUserColumns := a.toUserColumns, passwordHash := some a.passwordHash }

/-- `users.save(u)` of an entity that was loaded: its columns go over those of its row; a column that it does not have
stays. -/
def save (users : Users) (u : Entity) : Except HttpError Users :=
  match users.find? u.id with
  | some row =>
    let written : Account :=
      { row with toUserColumns := u.toUserColumns, passwordHash := u.passwordHash.getD row.passwordHash }
    found (users.put? written) (.internal "duplicate key value violates unique constraint")
  | none => .error (.internal "null value in column \"password_hash\" violates not-null constraint")

/-- Sets a password and takes back the demand to change it. -/
def setPassword (rt : AuthRuntime) (m : Moment) (users : Users) (tenantId id : Uuid) (newPassword : String) :
    Except HttpError (Entity × Users) := do
  let u ← findById users tenantId id
  let u := { u with passwordHash := some (rt.hash m.salt newPassword), mustChangePassword := false }
  let users ← save users u
  pure (u, users)

def deactivate (users : Users) (tenantId id : Uuid) : Except HttpError Users := do
  let u ← findById users tenantId id
  save users { u with isActive := false }

/-- A field of a request body: left out, `null`, or a value. -/
inductive Field (α : Type)
  | absent
  | null
  | value (a : α)

namespace Field

variable {α : Type}

/-- `body.f ?? old`. -/
def orOld (f : Field α) (old : α) : α :=
  match f with
  | .value a => a
  | _ => old

/-- `if (body.f !== undefined) row.f = body.f` for a column that takes `null`. -/
def nullable (f : Field α) (old : Option α) : Option α :=
  match f with
  | .absent => old
  | .null => none
  | .value a => some a

def required (f : Field α) (column : String) (old : α) : Except HttpError α :=
  match f with
  | .absent => .ok old
  | .null => .error (.internal ("null value in column \"" ++ column ++ "\" violates not-null constraint"))
  | .value a => .ok a

end Field

structure UpsertUserDto where
  username : Field String := .absent
  email : Field String := .absent
  role : Field String := .absent
  password : Field String := .absent
  mustChangePassword : Field Bool := .absent
  dn : Field String := .absent
  grade : Field String := .absent
  isActive : Field Bool := .absent
  managerId : Field String := .absent
  regionAccess : Field (List String) := .absent
  departmentIds : Field (List Uuid) := .absent
  locale : Field String := .absent

/-- An optional foreign key from a form: empty and `null` clear it. -/
def fkOrNull (f : Field String) (old : Option Uuid) : Option Uuid :=
  match f with
  | .absent => old
  | .null => none
  | .value v => if trim v = "" then none else some (trim v)

/-- The departments of the tenant among the ids. -/
def allowedDepartments (m : Moment) (tenantId : Uuid) (ids : Field (List Uuid)) (old : List Uuid) : List Uuid :=
  match ids with
  | .absent => old
  | .null => []
  | .value ids =>
    (m.departments.rows.filter fun d => d.tenantId == tenantId && ids.contains d.id && d.id != "").map (·.id)

/-- A supported locale for the text, English by default. -/
def normalizeLocale (rt : AuthRuntime) (raw : String) : String :=
  if raw = "" then "en"
  else
    let v := trim raw
    let lower := rt.toLowerCase v
    if ["en", "zh-Hant", "zh-Hans"].contains v then v
    else if ["zh-tw", "zh-hk", "zh-hant"].contains lower then "zh-Hant"
    else if ["zh-cn", "zh-sg", "zh-hans", "zh"].contains lower then "zh-Hans"
    else "en"

def localeOf (rt : AuthRuntime) (f : Field String) (old : String) : String :=
  match f with
  | .absent => old
  | .null => "en"
  | .value raw => normalizeLocale rt raw

/-- `if (dto.password) existing.passwordHash = await bcrypt.hash(dto.password, 10)`. -/
def newHash (rt : AuthRuntime) (m : Moment) (f : Field String) : Option String :=
  match f with
  | .value p => if p = "" then none else some (rt.hash m.salt p)
  | _ => none

def update (rt : AuthRuntime) (m : Moment) (users : Users) (tenantId id : Uuid) (dto : UpsertUserDto) :
    Except HttpError (Entity × Users) := do
  let old ← findById users tenantId id
  let isActive ← dto.isActive.required "is_active" old.isActive
  let regionAccess ← dto.regionAccess.required "region_access" old.regionAccess
  let mustChangePassword ← dto.mustChangePassword.required "must_change_password" old.mustChangePassword
  let u : Entity :=
    { old with
      username := dto.username.orOld old.username
      email := dto.email.nullable old.email
      role := dto.role.orOld old.role
      dn := match dto.dn with | .value v => some v | _ => old.dn
      grade := match dto.grade with | .value v => some v | _ => old.grade
      isActive
      managerId := fkOrNull dto.managerId old.managerId
      regionAccess
      locale := localeOf rt dto.locale old.locale
      passwordHash := newHash rt m dto.password
      mustChangePassword
      departments := allowedDepartments m tenantId dto.departmentIds old.departments }
  let users ← save users u
  pure (u, users)

end UsersService

namespace AuthService

variable (rt : AuthRuntime) (m : Moment)

/-- A session token; with `mfaVerified` it says that the second factor was checked. -/
def issueAccessToken (user : Principal) (tenantId : Uuid) (mfaVerified : Bool) : String :=
  rt.sign
    { sub := user.id, tid := tenantId, username := user.username, role := some user.role, grade := user.grade,
      regions := user.regionAccess, mfa := mfaVerified }
    rt.sessionTtl m.now

def profile (user : Principal) (tenant : Tenant) : Profile :=
  { toPrincipal := user, tenantId := tenant.id, tenantSlug := tenant.slug }

def openSession (user : Principal) (tenant : Tenant) (mfaVerified : Bool) : Session :=
  ⟨issueAccessToken rt m user tenant.id mfaVerified, profile user tenant⟩

/-- The password step. A wrong tenant, user or password all fail alike. -/
def login (users : Users) (tenantSlug username password : String) : Except HttpError LoginResult := do
  let tenant ← found (m.tenantBySlug tenantSlug) (.unauthorized "invalid credentials")
  let user ← found (UsersService.findByUsername users tenant.id username) (.unauthorized "invalid credentials")
  require user.isActive (.unauthorized "invalid credentials")
  require (rt.compare password (user.passwordHash.getD "")) (.unauthorized "invalid credentials")
  let step : TokenClaims := { sub := user.id, tid := tenant.id, username := some user.username }
  if user.mustChangePassword then
    pure (.mustChangePassword (rt.sign { step with purpose := some "pwd_change" } "10m" m.now))
  else if user.mfaEnabled then
    pure (.requiresMfa (rt.sign { step with purpose := some "mfa" } "5m" m.now))
  else pure (.session (openSession rt m user.principal tenant false))

/-- What a forced password change asks of the token and of the account it names. -/
def checkChange (users : Users) (changeToken newPassword : String) : Except HttpError (Tenant × TokenClaims) := do
  let claims ← found (rt.verify changeToken m.now) (.unauthorized "reset link expired — sign in again")
  require (claims.purpose == some "pwd_change") (.unauthorized "invalid reset token")
  require (8 ≤ PermissionsService.utf16Length newPassword)
    (.badRequest "password must be at least 8 characters")
  let tenant ← found (m.activeTenant claims.tid) (.unauthorized "invalid reset token")
  let stale : HttpError := .unauthorized "reset token already used or no longer valid — sign in again"
  let current ← found (claims.username.bind (UsersService.findByUsername users claims.tid)) stale
  require (current.id == claims.sub && current.isActive && current.mustChangePassword) stale
  pure (tenant, claims)

def changePassword (users : Users) (changeToken newPassword : String) : Except HttpError (Session × Users) := do
  let (tenant, claims) ← checkChange rt m users changeToken newPassword
  let (user, users) ← UsersService.setPassword rt m users claims.tid claims.sub newPassword
  pure (openSession rt m user.principal tenant false, users)

def resolveTenant (id : Uuid) : Option Tenant := m.activeTenant id

def issueForFederated (user : Principal) (tenantId : Uuid) : Except HttpError Session := do
  let tenant ← found (m.tenants.find? tenantId) (.unauthorized "tenant missing")
  pure (openSession rt m user tenant false)

end AuthService

namespace MfaService

variable (rt : AuthRuntime) (m : Moment)

def load (users : Users) (tenantId userId : Uuid) : Option Entity :=
  (UsersService.findOne users tenantId userId).map fun a =>
    { toUserColumns := a.toUserColumns, mfaSecret := a.mfaSecret }

def secretOf (u : Entity) : Option String := u.mfaSecret.filter (· != "")

def enroll (users : Users) (tenantId userId : Uuid) : Except HttpError (String × Users) := do
  let _ ← found (load users tenantId userId) (.unauthorized "user not found")
  pure (m.secret, users.modify userId fun a => { a with mfaSecret := some m.secret, mfaEnabled := false })

def verify (users : Users) (tenantId userId : Uuid) (code : String) : Except HttpError Users := do
  require (code != "") (.badRequest "code required")
  let secret ← found ((load users tenantId userId).bind secretOf)
    (.badRequest "no pending enrolment; call /enroll first")
  require (rt.totp secret code m.now) (.unauthorized "invalid code")
  pure (users.modify userId fun a => { a with mfaEnabled := true, mfaEnrolledAt := some m.now })

def disable (users : Users) (tenantId userId : Uuid) (code : String) : Except HttpError Users := do
  let secret ← found ((load users tenantId userId).bind secretOf) (.badRequest "mfa not enrolled")
  require (rt.totp secret code m.now) (.unauthorized "invalid code")
  pure (users.modify userId fun a => { a with mfaEnabled := false, mfaSecret := none, mfaEnrolledAt := none })

/-- The user and the tenant a step-up token and a code are good for. -/
def checkStepUp (users : Users) (mfaToken code : String) : Except HttpError (Entity × Tenant) := do
  let payload ← found (rt.verify mfaToken m.now) (.unauthorized "invalid or expired mfa token")
  require (payload.purpose == some "mfa") (.unauthorized "not an mfa token")
  let user ← found (load users payload.tid payload.sub) (.unauthorized "mfa not configured")
  require user.mfaEnabled (.unauthorized "mfa not configured")
  let secret ← found (secretOf user) (.unauthorized "mfa not configured")
  require (rt.totp secret code m.now) (.unauthorized "invalid code")
  let tenant ← found (AuthService.resolveTenant m payload.tid) (.unauthorized "tenant missing")
  pure (user, tenant)

def verifyLogin (users : Users) (mfaToken code : String) : Except HttpError Session := do
  let (user, tenant) ← checkStepUp rt m users mfaToken code
  pure (AuthService.openSession rt m user.principal tenant true)

end MfaService

end BookingSystem.Model
