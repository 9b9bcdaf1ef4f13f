import BookingSystem.Base.Run
import BookingSystem.Effects.Accounts

/-!
# Sessions of deactivated accounts

The password step and the forced password change look at `isActive`. The step-up, the passkey login and the three
federated logins do not: each of them opens a session for the row it is for (`target`), and a federated login also sets
the flag. A run keeps deactivated accounts out exactly if no such login is for an inactive row
(`inactive_kept_out_iff`).
-/

namespace BookingSystem.Runs.Sessions

open Base Model Model.Accounts

abbrev AccountEvent := Moment × Call

variable (rt : SsoRuntime)

def advance (st : AccountStore) (e : AccountEvent) : AccountStore := (serve rt e.1 st e.2).2

def isLogin : Call → Bool
  | .login .. | .changePassword .. | .verifyLogin .. | .loginFinish .. => true
  | call => call.isFederated

/-- A call opens no session for a user who is inactive when it starts, and a login makes no such user active. -/
structure KeepsOut (st : AccountStore) (e : AccountEvent) : Prop where
  session : ∀ s a, Reply.session? (serve rt e.1 st e.2).1 = some s → st.users.find? s.user.id = some a →
    a.isActive = true
  flag : isLogin e.2 = true → ∀ id a a', st.users.find? id = some a → (advance rt st e).users.find? id = some a' →
    a'.isActive = true → a.isActive = true

/-- The row of a step-up, a passkey login or a federated login that passes its own checks. -/
def target (m : Moment) (st : AccountStore) : Call → Option Account
  | .verifyLogin token code =>
    (MfaService.checkStepUp rt.toAuthRuntime m st.users token code).toOption.bind fun r => st.users.find? r.1.id
  | .loginFinish slug username response =>
    (WebauthnService.checkPasskey rt m slug username response st).1.toOption.map (·.1)
  | call => (asserted rt m st call).bind (SsoService.federatedRow rt st.users)

/-- Such a login is for an active row. -/
def Admits (st : AccountStore) (e : AccountEvent) : Prop := ∀ a, target rt e.1 st e.2 = some a → a.isActive = true

variable {rt} {st : AccountStore} {m : Moment} {call : Call}

/-! ### One call -/

theorem target_federated (h : call.isFederated = true) :
    target rt m st call = (asserted rt m st call).bind (SsoService.federatedRow rt st.users) := by
  cases call <;> first | rfl | cases h

theorem keepsOut_of_row {e : AccountEvent} (id : Uuid) (hactive : ∀ a, st.users.find? id = some a → a.isActive = true)
    (hsession : ∀ s, Reply.session? (serve rt e.1 st e.2).1 = some s → s.user.id = id)
    (hother : ∀ k, k ≠ id → (advance rt st e).users.find? k = st.users.find? k) : KeepsOut rt st e := by
  refine ⟨fun s a hs ha => hactive a (hsession s hs ▸ ha), fun _ k a a' ha ha' hactive' => ?_⟩
  by_cases hk : k = id
  · exact hactive a (hk ▸ ha)
  · rw [hother k hk, ha, Option.some.injEq] at ha'
    exact ha' ▸ hactive'

theorem keepsOut_of_same {e : AccountEvent} (hsession : Reply.session? (serve rt e.1 st e.2).1 = none)
    (husers : (advance rt st e).users = st.users) : KeepsOut rt st e := by
  refine ⟨fun s a hs => ?_, fun _ k a a' ha ha' hactive => ?_⟩
  · rw [hsession] at hs
    cases hs
  · rw [husers, ha, Option.some.injEq] at ha'
    exact ha' ▸ hactive

theorem keepsOut_of_not_login {e : AccountEvent} (hlogin : isLogin e.2 = false)
    (hsession : Reply.session? (serve rt e.1 st e.2).1 = none) : KeepsOut rt st e := by
  refine ⟨fun s a hs => ?_, fun h => ?_⟩
  · rw [hsession] at hs
    cases hs
  · rw [hlogin] at h
    cases h

theorem keepsOut_federated (h : call.isFederated = true) : KeepsOut rt st (m, call) ↔ Admits rt st (m, call) := by
  obtain ⟨husers, hsession⟩ := serve_federated rt m st h
  have hlogin : isLogin call = true := by cases call <;> first | rfl | exact h
  constructor
  · intro hkeeps row hrow
    rw [target_federated h, Option.bind_eq_some_iff] at hrow
    obtain ⟨a, ha, hrow⟩ := hrow
    obtain ⟨⟨p, users'⟩, hup⟩ := SsoService.exists_upsertFederated (.inl (by rw [hrow]; rfl))
    obtain ⟨-, ⟨row', hrow', hactive⟩, -⟩ := SsoService.upsertFederated_row hup hrow
    refine hkeeps.flag hlogin row.id row row' (SsoService.federatedRow_eq_some hrow) ?_ hactive
    have hupserted : upserted rt m st call = some (a, p, users') := by simp [upserted, ha, hup, Except.toOption]
    simp only [advance, husers, hupserted, Option.map_some, Option.getD_some, hrow']
  · intro hadmits
    cases hupserted : upserted rt m st call with
    | none =>
      rw [hupserted] at husers hsession
      exact keepsOut_of_same hsession husers
    | some r =>
      obtain ⟨a, p, users'⟩ := r
      rw [hupserted] at husers hsession
      simp only [upserted, Option.bind_eq_some_iff, Option.map_eq_some_iff, toOption_eq_some,
        Prod.mk.injEq] at hupserted
      obtain ⟨a', ha', r, hup, rfl, rfl⟩ := hupserted
      have hsession' : ∀ s, Reply.session? (serve rt m st call).1 = some s → s.user.id = p.id := by
        intro s hs
        rw [hsession] at hs
        exact AuthService.issueForFederated_eq_ok (toOption_eq_some.1 hs)
      cases hrow : SsoService.federatedRow rt st.users a' with
      | none =>
        -- the row is new: it was not there before the call
        obtain ⟨hnew, -, hother⟩ := SsoService.upsertFederated_new hup hrow
        refine keepsOut_of_row p.id (fun b hb => ?_) hsession' fun k hk => ?_
        · rw [hnew] at hb
          cases hb
        · simp only [advance, husers, Option.map_some, Option.getD_some, hother k hk]
      | some row =>
        obtain ⟨hid, -, hother⟩ := SsoService.upsertFederated_row hup hrow
        refine keepsOut_of_row p.id (fun b hb => ?_) hsession' fun k hk => ?_
        · rw [hid, SsoService.federatedRow_eq_some hrow, Option.some.injEq] at hb
          exact hb ▸ hadmits row (by rw [target_federated h, ha', Option.bind_some, hrow])
        · simp only [advance, husers, Option.map_some, Option.getD_some, hother k (hid ▸ hk)]

theorem keepsOut_verifyLogin (token code : String) :
    KeepsOut rt st (m, .verifyLogin token code) ↔ Admits rt st (m, .verifyLogin token code) := by
  cases hcheck : MfaService.checkStepUp rt.toAuthRuntime m st.users token code with
  | error e =>
    have hadmits : Admits rt st (m, .verifyLogin token code) := by
      intro a ha
      simp only [target, hcheck] at ha
      cases ha
    refine iff_of_true (keepsOut_of_same ?_ rfl) hadmits
    simp only [serve, replySession, MfaService.verifyLogin, hcheck]
    rfl
  | ok r =>
    obtain ⟨u, tenant⟩ := r
    obtain ⟨a, -, ha, hcols, -⟩ := MfaService.checkStepUp_eq_ok hcheck
    have hsession : Reply.session? (serve rt m st (.verifyLogin token code)).1 =
        some (AuthService.openSession rt.toAuthRuntime m u.principal tenant true) := by
      simp only [serve, replySession, MfaService.verifyLogin, hcheck]
      rfl
    constructor
    · intro hkeeps b hb
      simp only [target, hcheck, Except.toOption, Option.bind_some] at hb
      exact hkeeps.session _ b hsession hb
    · intro hadmits
      refine keepsOut_of_row u.id (fun b hb => ?_) (fun s hs => ?_) fun k _ => rfl
      · exact hadmits b (by simp only [target, hcheck, Except.toOption, Option.bind_some, hb])
      · rw [hsession] at hs
        exact Option.some.inj hs ▸ rfl

theorem keepsOut_loginFinish (slug username : String) (response : AssertionResponse) :
    KeepsOut rt st (m, .loginFinish slug username response) ↔
      Admits rt st (m, .loginFinish slug username response) := by
  have husers : (advance rt st (m, .loginFinish slug username response)).users = st.users :=
    WebauthnService.checkPasskey_users ..
  cases hcheck : (WebauthnService.checkPasskey rt m slug username response st).1 with
  | error e =>
    have hadmits : Admits rt st (m, .loginFinish slug username response) := by
      intro a ha
      simp only [target, hcheck] at ha
      cases ha
    refine iff_of_true (keepsOut_of_same ?_ husers) hadmits
    simp only [serve, replySession, WebauthnService.loginFinish, hcheck]
    rfl
  | ok r =>
    obtain ⟨a, tenantId⟩ := r
    obtain ⟨ha, t, ht⟩ := WebauthnService.checkPasskey_eq_ok hcheck
    have hsession : Reply.session? (serve rt m st (.loginFinish slug username response)).1 =
        some (AuthService.openSession rt.toAuthRuntime m a.principal t false) := by
      simp only [serve, replySession, session?_map, WebauthnService.loginFinish, hcheck]
      rw [toOption_eq_some]
      refine bind_eq_ok.2 ⟨(a, tenantId), rfl, ?_⟩
      exact bind_eq_ok.2 ⟨t, found_eq_ok.2 ht, rfl⟩
    constructor
    · intro hkeeps b hb
      simp only [target, hcheck, Except.toOption, Option.map_some, Option.some.injEq] at hb
      exact hb ▸ hkeeps.session _ a hsession ha
    · intro hadmits
      refine keepsOut_of_row a.id (fun b hb => ?_) (fun s hs => ?_) fun k _ => by rw [husers]
      · rw [ha, Option.some.injEq] at hb
        exact hb ▸ hadmits a (by simp only [target, hcheck, Except.toOption, Option.map_some])
      · rw [hsession] at hs
        exact Option.some.inj hs ▸ rfl

theorem login_of_session? {slug username password : String} {s : Session}
    (h : Reply.session? (serve rt m st (.login slug username password)).1 = some s) :
    AuthService.login rt.toAuthRuntime m st.users slug username password = .ok (.session s) := by
  simp only [serve] at h
  cases hout : AuthService.login rt.toAuthRuntime m st.users slug username password with
  | error e =>
    rw [hout] at h
    cases h
  | ok r =>
    rw [hout] at h
    cases r with
    | session s' => exact congrArg _ (congrArg _ (Option.some.inj h))
    | requiresMfa t => cases h
    | mustChangePassword t => cases h

theorem keepsOut_login (slug username password : String) : KeepsOut rt st (m, .login slug username password) := by
  refine ⟨fun s a hs ha => ?_, fun _ k a a' ha ha' hactive => ?_⟩
  · obtain ⟨b, hb, hactive, -⟩ := AuthService.login_session (login_of_session? hs)
    obtain rfl := Option.some.inj (ha.symm.trans hb)
    exact hactive
  · obtain rfl := Option.some.inj (ha.symm.trans ha')
    exact hactive

theorem keepsOut_changePassword (token password : String) : KeepsOut rt st (m, .changePassword token password) := by
  cases hout : AuthService.changePassword rt.toAuthRuntime m st.users token password with
  | error e =>
    refine keepsOut_of_same ?_ ?_
    · simp only [serve, hout]
      rfl
    · simp only [advance, serve, hout]
  | ok r =>
    obtain ⟨s, users'⟩ := r
    obtain ⟨a, ha, hactive, hedit⟩ := AuthService.changePassword_eq_ok hout
    refine keepsOut_of_row s.user.id (fun b hb => ?_) (fun s' hs' => ?_) fun k hk => ?_
    · obtain rfl := Option.some.inj (ha.symm.trans hb)
      exact hactive
    · simp only [serve, hout] at hs'
      exact Option.some.inj hs' ▸ rfl
    · simp only [advance, serve, hout]
      exact hedit.others k hk

theorem session?_edit (x : Except HttpError Users) : Reply.session? (edit st x).1 = none := by
  cases x <;> rfl

/-- **One call.** -/
theorem keepsOut_iff (e : AccountEvent) : KeepsOut rt st e ↔ Admits rt st e := by
  obtain ⟨m, call⟩ := e
  cases call with
  | verifyLogin token code => exact keepsOut_verifyLogin token code
  | loginFinish slug username response => exact keepsOut_loginFinish slug username response
  | samlAcs response relay => exact keepsOut_federated rfl
  | oauth2Callback state code => exact keepsOut_federated rfl
  | ldapLogin slug provider username password => exact keepsOut_federated rfl
  | login slug username password =>
    exact iff_of_true (keepsOut_login slug username password) fun a ha => by cases ha
  | changePassword token password =>
    exact iff_of_true (keepsOut_changePassword token password) fun a ha => by cases ha
  | eraseSelf tenantId userId password =>
    refine iff_of_true (keepsOut_of_not_login rfl ?_) fun a ha => by cases ha
    simp only [serve]
    split <;> rfl
  | ceremony states credentials challenges =>
    exact iff_of_true (keepsOut_of_not_login rfl rfl) fun a ha => by cases ha
  | _ => exact iff_of_true (keepsOut_of_not_login rfl (session?_edit _)) fun a ha => by cases ha

/-! ### Whole runs -/

/-- **Deactivated accounts stay out.** Along a run no call opens a session for a user who is inactive when it starts,
and no login makes an inactive user active, exactly if every step-up, passkey login and federated login of the run that
passes its own checks is for a row that is active at that moment. -/
theorem inactive_kept_out_iff (rt : SsoRuntime) (st : AccountStore) (es : List AccountEvent) :
    (∀ p e q, es = p ++ e :: q → KeepsOut rt (run (advance rt) st p) e) ↔ AllSteps (advance rt) (Admits rt) st es := by
  rw [allSteps_iff]
  exact forall_congr' fun p => forall_congr' fun e => forall_congr' fun q => imp_congr_right fun _ => keepsOut_iff e

/-! ### A dismissed employee -/

/-- A runtime for examples: hashes keep the password readable, a token spells out what it is for, one code is right, the
directory knows one person and the name-based uuid of a text is the text. -/
def plain : SsoRuntime where
  compare password hash := hash == "$2b$10$" ++ password
  hash _ password := "$2b$10$" ++ password
  sign claims _ _ := claims.purpose.getD "session" ++ ":" ++ claims.sub
  verify token _ :=
    if token = "mfa:u1" then some ⟨"u1", "t1", some "amy", none, none, [], false, some "mfa"⟩
    else if token = "pwd_change:u1" then some ⟨"u1", "t1", some "amy", none, none, [], false, some "pwd_change"⟩
    else none
  totp secret code _ := secret ++ "-code" == code
  toLowerCase s := s
  sessionTtl := "12h"
  validatePostResponse _ _ _ := .error (.internal "invalid response")
  getToken _ _ _ := .error (.internal "invalid grant")
  fetchUserinfo _ _ := .error (.internal "no such endpoint")
  bind _ _ _ := .ok ()
  search _ filter := .ok (some ⟨some filter, none, []⟩)
  replaceFirst _ _ new := new
  verifyAuthenticationResponse _ _ _ := .ok none
  uuidv5 s := s

def acme : Moment := { now := 0, tenants := ⟨[⟨"t1", "acme", true⟩], by decide⟩ }

def amy : Account :=
  { id := "u1", tenantId := "t1", username := "amy", role := "General User", mfaEnabled := true,
    mfaSecret := some "s", passwordHash := "$2b$10$pw" }

def amyOnly : AccountStore := { users := ⟨⟨[amy], by decide⟩, by decide⟩ }

def afterDismissal : List AccountEvent :=
  [(acme, .login "acme" "amy" "pw"), (acme, .deactivate "t1" "u1"), (acme, .verifyLogin "mfa:u1" "s-code")]

theorem dismissed_user_gets_session :
    ¬ ∀ p e q, afterDismissal = p ++ e :: q → KeepsOut plain (run (advance plain) amyOnly p) e := by
  intro h
  have hkeeps := h (afterDismissal.take 2) (acme, .verifyLogin "mfa:u1" "s-code") [] rfl
  have hactive := hkeeps.session
    (AuthService.openSession plain.toAuthRuntime acme amy.principal ⟨"t1", "acme", true⟩ true)
    { amy with isActive := false } (by decide) (by decide)
  exact absurd hactive (by decide)

end BookingSystem.Runs.Sessions
