import BookingSystem.Model.Accounts

/-!
# Federated logins, passkeys and provisioning: `SsoService`, `WebauthnService`, `ScimService`

A login through an identity provider ends in an `Assertion`, for which `upsertFederated` finds or makes the user row.
The exchanges with the provider itself are parameters (`SsoRuntime`). The login endpoints run outside a request
transaction: what a call has written before it gives up stays written, so these operations hand back their state in both
cases.
-/

namespace BookingSystem.Model

open Base

/-- `a || b` on texts: an empty or undefined text is passed over. -/
def orElse (a b : Option String) : Option String :=
  match a with
  | some s => if s = "" then b else some s
  | none => b

/-- An exchange with a provider that was begun. -/
structure SsoState where
  id : Uuid
  state : String
  tenantId : Uuid
  providerId : Uuid
  verifier : Option String := none
  redirectAfter : Option String := none
  createdAt : Instant
  deriving DecidableEq, Repr

instance : Keyed SsoState Uuid := ⟨SsoState.id⟩

structure WebauthnCredential where
  id : Uuid
  tenantId : Uuid
  userId : Uuid
  credentialId : String
  publicKey : String
  counter : ℤ := 0
  transports : List String := []
  lastUsedAt : Option Instant := none
  deriving DecidableEq, Repr

instance : Keyed WebauthnCredential Uuid := ⟨WebauthnCredential.id⟩

structure WebauthnChallenge where
  id : Uuid
  tenantId : Uuid
  userId : Uuid
  challenge : String
  purpose : String
  createdAt : Instant
  deriving DecidableEq, Repr

instance : Keyed WebauthnChallenge Uuid := ⟨WebauthnChallenge.id⟩

/-- A booking with the one column of it that only the erasure of an account needs. -/
structure BookingRow extends Booking where
  redirectUrl : String := ""
  deriving DecidableEq, Repr

instance : Keyed BookingRow Uuid := ⟨fun b => b.id⟩

/-- The tables that logins, edits of users and the erasure of an account write. -/
structure AccountStore where
  users : Users
  states : Table SsoState := .empty
  credentials : Table WebauthnCredential := .empty
  challenges : Table WebauthnChallenge := .empty
  bookings : Table BookingRow := .empty

def ceremonyTtlMs : ℤ := 10 * 60000

/-! ### What providers and authenticators say -/

structure SamlProfile where
  email : Option String := none
  nameID : Option String := none
  firstName : Option String := none
  lastName : Option String := none

structure UserInfo where
  sub : Option String := none
  id : Option String := none
  email : Option String := none
  name : Option String := none
  preferredUsername : Option String := none

/-- An entry of a directory; an attribute has a list of values. -/
structure LdapEntry where
  objectName : Option String := none
  dn : Option String := none
  attributes : List (String × List String) := []

/-- What an authenticator sends back; `body` is the signed part. -/
structure AssertionResponse where
  id : String
  body : String

/-- The packages that speak SAML, OAuth2, LDAP and WebAuthn, and the name-based uuid of a text. An exchange that fails
throws. A verified passkey may come with a new counter. -/
structure SsoRuntime extends AuthRuntime where
  validatePostResponse : IdentityProvider → String → Instant → Except HttpError (Option SamlProfile)
  getToken : IdentityProvider → String → Option String → Except HttpError String
  fetchUserinfo : IdentityProvider → String → Except HttpError UserInfo
  bind : IdentityProvider → Option String → Option String → Except HttpError Unit
  search : IdentityProvider → String → Except HttpError (Option LdapEntry)
  replaceFirst : String → String → String → String
  verifyAuthenticationResponse : AssertionResponse → String → WebauthnCredential →
    Except HttpError (Option (Option ℤ))
  uuidv5 : String → Uuid

namespace SsoService

variable (rt : SsoRuntime) (m : Moment)

/-- What an identity provider says of the person who logs in. -/
structure Assertion where
  tenantId : Uuid
  kind : ProviderKind
  subject : Option String
  email : Option String
  displayName : String

namespace Assertion

variable (a : Assertion)

def username : Option String := orElse a.email a.subject

def stableId : Uuid := rt.uuidv5 ("fsd-mrbs/" ++ a.tenantId ++ "/" ++ a.subject.getD "undefined")

end Assertion

/-- `users.findOne({ where: { tenantId, username } })`; an undefined username is no condition. -/
def findByName (users : Users) (tenantId : Uuid) (username : Option String) : Option Account :=
  match username with
  | some name => users.lookup (tenantId, name)
  | none => users.rows.find? fun a => a.tenantId == tenantId

def link (a : Assertion) (row : Account) : Account :=
  { row with
    ssoProvider := some a.kind
    ssoSubject := a.subject.or row.ssoSubject
    isActive := true }

/-- The columns of the entity a login makes, over the row that has its id already. -/
def overwrite (a : Assertion) (row : Account) : Account :=
  { row with
    tenantId := a.tenantId
    username := a.username.getD row.username
    passwordHash := "!sso!"
    role := "General User"
    dn := some a.displayName
    isActive := true
    regionAccess := []
    ssoProvider := some a.kind
    ssoSubject := a.subject.or row.ssoSubject }

/-- The row of the entity when no row has its id. -/
def freshRow (a : Assertion) (username : String) : Account :=
  { id := a.stableId rt
    tenantId := a.tenantId
    username
    passwordHash := "!sso!"
    role := "General User"
    dn := some a.displayName
    regionAccess := []
    ssoProvider := some a.kind
    ssoSubject := a.subject }

/-- What the entity of a new login says of its user; `mfaEnabled` is there only when the row was inserted. -/
def created (a : Assertion) (mfaEnabled : Option Bool) : Principal :=
  ⟨a.stableId rt, a.username, "General User", none, [], mfaEnabled⟩

/-- The row that is found by its name is linked; else an entity is saved under the stable id, which is an `UPDATE` when
a row has that id. -/
def upsertFederated (users : Users) (a : Assertion) : Except HttpError (Principal × Users) :=
  let duplicate : HttpError := .internal "duplicate key value violates unique constraint"
  match findByName users a.tenantId a.username with
  | some existing => .ok ((link a existing).principal, users.modify existing.id (link a))
  | none =>
    match users.find? (a.stableId rt) with
    | some row => do
      let users ← found (users.put? (overwrite a row)) duplicate
      pure (created rt a none, users)
    | none => do
      let username ← found a.username
        (.internal "null value in column \"username\" violates not-null constraint")
      let users ← found (users.put? (freshRow rt a username)) duplicate
      pure (created rt a (some false), users)

/-- Finds or makes the row of an assertion and opens its session. -/
def federate (out : Except HttpError Assertion × AccountStore) : Except HttpError Session × AccountStore :=
  match out.1 with
  | .error e => (.error e, out.2)
  | .ok a =>
    match upsertFederated rt out.2.users a with
    | .error e => (.error e, out.2)
    | .ok (user, users) =>
      (AuthService.issueForFederated rt.toAuthRuntime m user a.tenantId, { out.2 with users })

/-- The exchange a token stands for and its provider; one that has expired is deleted. -/
def takeState (token : String) (unknown : String) (st : AccountStore) :
    Except HttpError (SsoState × IdentityProvider) × AccountStore :=
  match st.states.rows.find? fun s => s.state == token with
  | none => (.error (.unauthorized unknown), st)
  | some state =>
    if ceremonyTtlMs < m.now - state.createdAt then
      (.error (.unauthorized "state expired"), { st with states := st.states.delete state.id })
    else
      match m.providers.find? state.providerId with
      | none => (.error (.notFound "provider missing"), st)
      | some provider => (.ok (state, provider), st)

/-- What a SAML profile asserts. -/
def samlProfile (tenantId : Uuid) (p : SamlProfile) : Assertion :=
  let email := orElse p.email p.nameID
  { tenantId
    kind := .saml
    subject := orElse p.nameID email
    email
    displayName := trim ((p.firstName.getD "") ++ " " ++ (p.lastName.getD "")) }

/-- The assertion of a SAML response, and where to go after the login. -/
def samlAssertion (samlResponse relayState : Option String) (st : AccountStore) :
    Except HttpError (Assertion × String) × AccountStore :=
  match orElse samlResponse none, orElse relayState none with
  | none, _ => (.error (.badRequest "missing SAMLResponse"), st)
  | some _, none => (.error (.unauthorized "unknown relay state"), st)
  | some response, some token =>
    let taken := takeState m token "unknown relay state" st
    match taken.1 with
    | .error e => (.error e, taken.2)
    | .ok (state, provider) =>
      match rt.validatePostResponse provider response m.now with
      | .error e => (.error e, taken.2)
      | .ok profile =>
        (.ok (samlProfile state.tenantId (profile.getD {}), (orElse state.redirectAfter none).getD "/"),
          { taken.2 with states := taken.2.states.delete state.id })

def userinfoAssertion (tenantId : Uuid) (p : UserInfo) : Except HttpError Assertion := do
  let subject := orElse p.sub (orElse p.id p.email)
  let email := orElse p.email subject
  let display := orElse p.name (orElse p.preferredUsername email)
  require (orElse subject none).isSome (.unauthorized "userinfo missing subject")
  pure { tenantId, kind := .oauth2, subject, email, displayName := display.getD "" }

def oauth2Assertion (stateToken code : Option String) (st : AccountStore) :
    Except HttpError (Assertion × String) × AccountStore :=
  match orElse stateToken none, orElse code none with
  | some token, some code =>
    let taken := takeState m token "unknown state" st
    match taken.1 with
    | .error e => (.error e, taken.2)
    | .ok (state, provider) =>
      match rt.getToken provider code state.verifier with
      | .error e => (.error e, taken.2)
      | .ok accessToken =>
        ((rt.fetchUserinfo provider accessToken >>= userinfoAssertion state.tenantId).map
            fun a => (a, (orElse state.redirectAfter none).getD "/"),
          { taken.2 with states := taken.2.states.delete state.id })
  | _, _ => (.error (.badRequest "missing state or code"), st)

/-- The escape of a text in a search filter, one character at a time. -/
def escapeLdapFilter (input : String) : String :=
  String.ofList (input.toList.flatMap fun c =>
    match c with
    | '\\' => "\\5c".toList
    | '*' => "\\2a".toList
    | '(' => "\\28".toList
    | ')' => "\\29".toList
    | c => [c])

def flattenLdapAttrs (entry : LdapEntry) (type : String) : Option String :=
  (entry.attributes.filterMap fun a => a.2.head?.map fun v => (a.1, v)).reverse.lookup type

def resolve (tenantSlug providerSlug : String) (expectedKind : ProviderKind) :
    Except HttpError (Tenant × IdentityProvider) := do
  let tenant ← found (m.tenantBySlug tenantSlug) (.notFound "tenant not found")
  let provider ← found
    (m.providers.rows.find? fun p => p.tenantId == tenant.id && p.slug == providerSlug && p.enabled)
    (.notFound "provider not found")
  require (provider.kind == expectedKind)
    (.badRequest ("provider is " ++ provider.kind.label ++ ", expected " ++ expectedKind.label))
  pure (tenant, provider)

/-- The search as the service account, then the bind as the person. -/
def directoryAssertion (tenant : Tenant) (provider : IdentityProvider) (username password : String) :
    Except HttpError Assertion := do
  rt.bind provider (provider.config.lookup "bindDN") (provider.config.lookup "bindPassword")
  let filter := rt.replaceFirst ((orElse (provider.config.lookup "searchFilter") none).getD "(uid={username})")
    "{username}" (escapeLdapFilter username)
  let entry ← rt.search provider filter
  let entry ← found entry (.unauthorized "user not found in directory")
  let userDN := orElse entry.objectName entry.dn
  rt.bind provider userDN (some password)
  let attr := flattenLdapAttrs entry
  pure
    { tenantId := tenant.id
      kind := .ldap
      subject := userDN
      email := orElse (attr "mail") (orElse (attr "userPrincipalName") (some username))
      displayName := (orElse (attr "displayName") (orElse (attr "cn") (some username))).getD "" }

def andRedirect (redirect : String) (out : Except HttpError Session × AccountStore) :
    Except HttpError (Session × String) × AccountStore :=
  (out.1.map fun s => (s, redirect), out.2)

def finishRedirect (out : Except HttpError (Assertion × String) × AccountStore) :
    Except HttpError (Session × String) × AccountStore :=
  match out.1 with
  | .error e => (.error e, out.2)
  | .ok (a, redirect) => andRedirect redirect (federate rt m (.ok a, out.2))

def samlAcs (samlResponse relayState : Option String) (st : AccountStore) :
    Except HttpError (Session × String) × AccountStore :=
  finishRedirect rt m (samlAssertion rt m samlResponse relayState st)

def oauth2Callback (stateToken code : Option String) (st : AccountStore) :
    Except HttpError (Session × String) × AccountStore :=
  finishRedirect rt m (oauth2Assertion rt m stateToken code st)

/-- Whatever goes wrong after the provider is known is reported as invalid credentials. -/
def ldapLogin (tenantSlug providerSlug username password : String) (st : AccountStore) :
    Except HttpError Session × AccountStore :=
  match resolve m tenantSlug providerSlug .ldap with
  | .error e => (.error e, st)
  | .ok (tenant, provider) =>
    let out := federate rt m (directoryAssertion rt tenant provider username password, st)
    (out.1.mapError fun _ => .unauthorized "invalid credentials", out.2)

end SsoService

namespace WebauthnService

variable (rt : SsoRuntime) (m : Moment)

def newest (rows : List WebauthnChallenge) : Option WebauthnChallenge :=
  rows.foldl (fun best c =>
    match best with
    | none => some c
    | some b => if b.createdAt < c.createdAt then some c else some b) none

/-- The pending challenge of the user, which is deleted. -/
def takeChallenge (userId tenantId : Uuid) (purpose : String) (challenges : Table WebauthnChallenge) :
    Except HttpError String × Table WebauthnChallenge :=
  let pending := challenges.rows.filter fun c =>
    c.userId == userId && c.tenantId == tenantId && c.purpose == purpose
  match newest pending with
  | none => (.error (.badRequest "no pending challenge"), challenges)
  | some c =>
    (if ceremonyTtlMs < m.now - c.createdAt then .error (.badRequest "challenge expired") else .ok c.challenge,
      challenges.delete c.id)

/-- The user of a passkey whose signature was checked, with the tenant. -/
def checkPasskey (tenantSlug username : String) (response : AssertionResponse) (st : AccountStore) :
    Except HttpError (Account × Uuid) × AccountStore :=
  match m.tenantBySlug tenantSlug with
  | none => (.error (.notFound "tenant not found"), st)
  | some tenant =>
    match st.users.lookup (tenant.id, username) with
    | none => (.error (.unauthorized "invalid credentials"), st)
    | some user =>
      match st.credentials.rows.find? fun c => c.tenantId == tenant.id && c.credentialId == response.id with
      | none => (.error (.unauthorized "unknown credential"), st)
      | some stored =>
        if stored.userId ≠ user.id then (.error (.unauthorized "unknown credential"), st)
        else
          let taken := takeChallenge m user.id tenant.id "login" st.challenges
          let st := { st with challenges := taken.2 }
          match taken.1 >>= fun challenge => rt.verifyAuthenticationResponse response challenge stored with
          | .error e => (.error e, st)
          | .ok none => (.error (.unauthorized "assertion failed"), st)
          | .ok (some newCounter) =>
            let used := { stored with counter := newCounter.getD (stored.counter + 1), lastUsedAt := some m.now }
            (.ok (user, tenant.id), { st with credentials := st.credentials.save used })

def loginFinish (tenantSlug username : String) (response : AssertionResponse) (st : AccountStore) :
    Except HttpError Session × AccountStore :=
  let out := checkPasskey rt m tenantSlug username response st
  (out.1 >>= fun u => AuthService.issueForFederated rt.toAuthRuntime m u.1.principal u.2, out.2)

end WebauthnService

namespace ScimService

def resolveScimRole (title : Option FieldValue) : String :=
  let t := match title with
    | some (.text s) => trim s
    | _ => ""
  if (adminRoles ++ ["General User"]).contains t && !adminRoles.contains t then t else "General User"

/-- `Boolean(value)`. -/
def toBoolean : Option FieldValue → Bool
  | none => false
  | some .null => false
  | some (.text s) => s != ""
  | some (.number n) => n != 0
  | some (.flag b) => b
  | some (.items _) => true

/-- `String(value)`. -/
def toText : Option FieldValue → String
  | none => "undefined"
  | some .null => "null"
  | some (.text s) => s
  | some (.number n) => toString n
  | some (.flag b) => toString b
  | some (.items l) => ",".intercalate l

structure PatchOp where
  op : String := ""
  path : String := ""
  value : Option FieldValue := none

/-- One operation of a patch. -/
def applyOp (rt : AuthRuntime) (u : Entity) (o : PatchOp) : Entity :=
  let path := rt.toLowerCase o.path
  let opName := rt.toLowerCase o.op
  if opName = "replace" ∨ opName = "add" then
    if path = "active" then { u with isActive := toBoolean o.value }
    else if path = "displayname" then { u with dn := some (toText o.value) }
    else if path = "title" then { u with role := resolveScimRole o.value }
    else if path = "username" then { u with username := toText o.value }
    else u
  else if opName = "remove" ∧ path = "active" then { u with isActive := false }
  else u

def patchUser (rt : AuthRuntime) (users : Users) (tenantId id : Uuid) (operations : List PatchOp) :
    Except HttpError Users := do
  let u ← UsersService.findById users tenantId id
  UsersService.save users (operations.foldl (applyOp rt) u)

def deleteUser (users : Users) (tenantId id : Uuid) : Except HttpError Users :=
  UsersService.deactivate users tenantId id

end ScimService

end BookingSystem.Model
