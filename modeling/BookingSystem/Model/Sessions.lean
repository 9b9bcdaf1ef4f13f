import BookingSystem.Model.Federation

/-!
# `DsarService` and the calls that concern an account

The erasure of an account, and every call that opens a session, changes a second factor, or edits or deactivates a user,
as one step function (`serve`).
-/

namespace BookingSystem.Model

open Base

namespace DsarService

/-- `userId.slice(0, 8)`. -/
def shortId (userId : Uuid) : String := String.ofList (userId.toList.take 8)

/-- The user row without personal data and without a way to log in. -/
def anonymised (row : Account) : Account :=
  { row with
    username := "erased-" ++ shortId row.id
    email := none
    dn := none
    grade := none
    ssoProvider := none
    ssoSubject := none
    mfaSecret := none
    mfaEnabled := false
    passwordHash := "!erased!"
    icsFeedToken := none
    regionAccess := []
    isActive := false }

def redacted (b : BookingRow) : BookingRow := { b with title := "", meetingUrl := "", redirectUrl := "" }

def cancelled (b : BookingRow) : BookingRow :=
  { b with status := .cancelled, exceptionNotes := "account erased" }

def isOwn (tenantId userId : Uuid) (b : BookingRow) : Bool := b.tenantId == tenantId && b.userId == userId

def isUpcoming (m : Moment) (b : BookingRow) : Bool := decide (m.now < b.endTime) && !b.status.released

structure EraseResult where
  bookingsRedacted : ℕ
  upcomingCancelled : ℕ
  deriving DecidableEq, Repr

/-- `hash.startsWith('$2')`. -/
def isBcrypt (hash : String) : Bool := "$2".toList.isPrefixOf hash.toList

/-- Strips the personal data of a user after checking the password once more. -/
def eraseSelf (rt : AuthRuntime) (m : Moment) (st : AccountStore) (tenantId userId : Uuid) (currentPassword : String) :
    Except HttpError (EraseResult × AccountStore) := do
  -- the query does not ask for the password hash
  let user ← found ((UsersService.findOne st.users tenantId userId).map fun a =>
    ({ toUserColumns := a.toUserColumns } : Entity)) (.unauthorized "account not found")
  let hash := user.passwordHash.getD ""
  require (isBcrypt hash && rt.compare currentPassword hash)
    (.unauthorized "password confirmation required to erase your account")
  let users ← match st.users.find? userId with
    | some row => found (st.users.put? (anonymised row)) (.internal "duplicate key value violates unique constraint")
    | none => pure st.users
  let own := isOwn tenantId userId
  let upcoming := fun b => own b && isUpcoming m b
  let result : EraseResult := ⟨st.bookings.rows.countP own, st.bookings.rows.countP upcoming⟩
  let bookings := (st.bookings.update own redacted).update upcoming cancelled
  pure (result, { st with users, bookings })

end DsarService

/-! ### Calls -/

namespace Accounts

/-- A call of one of the services. The last one stands for the start of a login ceremony and for the registration and
removal of a passkey: these leave the users alone, and the call brings the tables as they leave them. -/
inductive Call
  | login (tenantSlug username password : String)
  | changePassword (changeToken newPassword : String)
  | verifyLogin (mfaToken code : String)
  | loginFinish (tenantSlug username : String) (response : AssertionResponse)
  | samlAcs (samlResponse relayState : Option String)
  | oauth2Callback (stateToken code : Option String)
  | ldapLogin (tenantSlug providerSlug username password : String)
  | enroll (tenantId userId : Uuid)
  | verifyMfa (tenantId userId : Uuid) (code : String)
  | disableMfa (tenantId userId : Uuid) (code : String)
  | updateUser (tenantId id : Uuid) (dto : UsersService.UpsertUserDto)
  | deactivate (tenantId id : Uuid)
  | patchUser (tenantId id : Uuid) (operations : List ScimService.PatchOp)
  | deleteUser (tenantId id : Uuid)
  | eraseSelf (tenantId userId : Uuid) (currentPassword : String)
  | ceremony (states : Table SsoState) (credentials : Table WebauthnCredential) (challenges : Table WebauthnChallenge)

/-- What a call answers; only a login has an answer that matters here. -/
inductive Reply
  | login (result : LoginResult)
  | done

def replySession (out : Except HttpError Session × AccountStore) : Except HttpError Reply × AccountStore :=
  (out.1.map fun s => .login (.session s), out.2)

/-- An edit of the users; one that fails writes nothing. -/
def edit (st : AccountStore) (x : Except HttpError Users) : Except HttpError Reply × AccountStore :=
  match x with
  | .ok users => (.ok .done, { st with users })
  | .error e => (.error e, st)

def serve (rt : SsoRuntime) (m : Moment) (st : AccountStore) : Call → Except HttpError Reply × AccountStore
  | .login slug username password =>
    ((AuthService.login rt.toAuthRuntime m st.users slug username password).map .login, st)
  | .changePassword token password =>
    match AuthService.changePassword rt.toAuthRuntime m st.users token password with
    | .ok (s, users) => (.ok (.login (.session s)), { st with users })
    | .error e => (.error e, st)
  | .verifyLogin token code => replySession (MfaService.verifyLogin rt.toAuthRuntime m st.users token code, st)
  | .loginFinish slug username response =>
    replySession (WebauthnService.loginFinish rt m slug username response st)
  | .samlAcs response relay =>
    let out := SsoService.samlAcs rt m response relay st
    replySession (out.1.map (·.1), out.2)
  | .oauth2Callback state code =>
    let out := SsoService.oauth2Callback rt m state code st
    replySession (out.1.map (·.1), out.2)
  | .ldapLogin slug provider username password =>
    replySession (SsoService.ldapLogin rt m slug provider username password st)
  | .enroll tenantId userId => edit st ((MfaService.enroll m st.users tenantId userId).map (·.2))
  | .verifyMfa tenantId userId code => edit st (MfaService.verify rt.toAuthRuntime m st.users tenantId userId code)
  | .disableMfa tenantId userId code => edit st (MfaService.disable rt.toAuthRuntime m st.users tenantId userId code)
  | .updateUser tenantId id dto =>
    edit st ((UsersService.update rt.toAuthRuntime m st.users tenantId id dto).map (·.2))
  | .deactivate tenantId id => edit st (UsersService.deactivate st.users tenantId id)
  | .patchUser tenantId id operations =>
    edit st (ScimService.patchUser rt.toAuthRuntime st.users tenantId id operations)
  | .deleteUser tenantId id => edit st (ScimService.deleteUser st.users tenantId id)
  | .eraseSelf tenantId userId password =>
    match DsarService.eraseSelf rt.toAuthRuntime m st tenantId userId password with
    | .ok (_, st') => (.ok .done, st')
    | .error e => (.error e, st)
  | .ceremony states credentials challenges => (.ok .done, { st with states, credentials, challenges })

def Reply.session? : Except HttpError Reply → Option Session
  | .ok (.login (.session s)) => some s
  | _ => none

end Accounts

end BookingSystem.Model
