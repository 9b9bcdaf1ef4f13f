import BookingSystem.Runs.Sessions

/-!
# The second factor

A user has a second factor with the secret `s`. Over runs in which nobody submits a code for `s`, the password step,
the step-up and the edits by administrators neither open a session for the user nor turn the factor off. Two calls do
without a code: a new enrolment, which turns the factor off, and the forced password change, which opens a session
(`second_factor_kept_iff`).
-/

namespace BookingSystem.Runs.SecondFactor

open Base Model Model.Accounts Runs.Sessions

variable (rt : SsoRuntime) (u : Uuid) (s : String)

/-- A call of the password step, the step-up, the second factor itself or an edit by an administrator, in which no code
for the secret is submitted. -/
def Codeless (e : AccountEvent) : Prop :=
  match e.2 with
  | .login .. | .changePassword .. | .updateUser .. | .enroll .. => True
  | .verifyMfa _ _ code | .disableMfa _ _ code | .verifyLogin _ code => rt.totp s code e.1.now = false
  | _ => False

abbrev CodelessEvent := {e : AccountEvent // Codeless rt s e}

def next (st : AccountStore) (e : CodelessEvent rt s) : AccountStore := advance rt st e.1

/-- A call opens no session for the user and leaves the second factor on. -/
structure Guards (st : AccountStore) (e : AccountEvent) : Prop where
  session : ∀ session, Reply.session? (serve rt e.1 st e.2).1 = some session → session.user.id ≠ u
  enabled : ∃ a, (advance rt st e).users.find? u = some a ∧ a.mfaEnabled = true

/-- The call is no new enrolment of the user and no forced password change that the token and the account allow. -/
def NeedsCode (st : AccountStore) (e : AccountEvent) : Prop :=
  match e.2 with
  | .enroll tenantId userId => userId = u → UsersService.findOne st.users tenantId u = none
  | .changePassword token password =>
    ∀ tenant claims, AuthService.checkChange rt.toAuthRuntime e.1 st.users token password = .ok (tenant, claims) →
      claims.sub ≠ u
  | _ => True

/-- The user has the second factor with the secret. -/
def Enrolled (st : AccountStore) : Prop :=
  ∃ a, st.users.find? u = some a ∧ a.mfaEnabled = true ∧ a.mfaSecret = some s

variable {rt u s} {st : AccountStore} {m : Moment}

/-! ### One call -/

theorem Enrolled.congr {users' : Users} (h : Enrolled u s st) (heq : users'.find? u = st.users.find? u) :
    Enrolled u s { st with users := users' } := by
  obtain ⟨a, ha, hon⟩ := h
  exact ⟨a, heq.trans ha, hon⟩

theorem Enrolled.secret_unique {secret : String} {a : Account} (h : Enrolled u s st) (ha : st.users.find? u = some a)
    (hs : a.mfaSecret = some secret) : secret = s := by
  obtain ⟨b, hb, -, hbs⟩ := h
  obtain rfl := Option.some.inj (ha.symm.trans hb)
  exact Option.some.inj (hs.symm.trans hbs)

theorem guards_of {e : AccountEvent} (hsession : ∀ session, Reply.session? (serve rt e.1 st e.2).1 = some session →
    session.user.id ≠ u) (henrolled : Enrolled u s (advance rt st e)) : Guards rt u st e := by
  obtain ⟨a, ha, hon, -⟩ := henrolled
  exact ⟨hsession, a, ha, hon⟩

theorem enrolled_edit {x : Except HttpError Users} (h : Enrolled u s st)
    (hok : ∀ users', x = .ok users' → Enrolled u s { st with users := users' }) : Enrolled u s (edit st x).2 := by
  cases x with
  | error e => exact h
  | ok users' => exact hok users' rfl

theorem login_guards (h : Enrolled u s st) (slug username password : String) {session : Session}
    (hs : Reply.session? (serve rt m st (.login slug username password)).1 = some session) : session.user.id ≠ u := by
  rintro rfl
  obtain ⟨a, ha, hon, -⟩ := h
  obtain ⟨b, hb, -, hoff⟩ := AuthService.login_session (login_of_session? hs)
  obtain rfl := Option.some.inj (ha.symm.trans hb)
  rw [hon] at hoff
  cases hoff

theorem verifyLogin_guards (h : Enrolled u s st) {token code : String} (hcode : rt.totp s code m.now = false)
    {session : Session} (hs : Reply.session? (serve rt m st (.verifyLogin token code)).1 = some session) :
    session.user.id ≠ u := by
  rintro rfl
  simp only [serve, replySession, session?_map, toOption_eq_some, MfaService.verifyLogin, bind_eq_ok] at hs
  obtain ⟨⟨entity, tenant⟩, hcheck, hs⟩ := hs
  obtain ⟨a, secret, ha, hcols, hsecret, hvalid⟩ := MfaService.checkStepUp_eq_ok hcheck
  obtain rfl := Except.ok.inj hs
  obtain rfl := h.secret_unique ha hsecret
  rw [hcode] at hvalid
  cases hvalid

theorem enrolled_of_checked {users' : Users} {userId : Uuid} {code : String} (h : Enrolled u s st)
    (hcode : rt.totp s code m.now = false)
    (hok : (∃ a secret, st.users.find? userId = some a ∧ a.mfaSecret = some secret ∧
      rt.totp secret code m.now = true) ∧ ∀ k, k ≠ userId → users'.find? k = st.users.find? k) :
    Enrolled u s { st with users := users' } := by
  obtain ⟨⟨a, secret, ha, hsecret, hvalid⟩, hother⟩ := hok
  by_cases hu : u = userId
  · subst hu
    obtain rfl := h.secret_unique ha hsecret
    rw [hcode] at hvalid
    cases hvalid
  · exact h.congr (hother u hu)

theorem enrolled_update (h : Enrolled u s st) {tenantId id : Uuid} {dto : UsersService.UpsertUserDto} {users' : Users}
    (hok : (UsersService.update rt.toAuthRuntime m st.users tenantId id dto).map (·.2) = .ok users') :
    Enrolled u s { st with users := users' } := by
  cases hup : UsersService.update rt.toAuthRuntime m st.users tenantId id dto with
  | error e =>
    rw [hup] at hok
    cases hok
  | ok r =>
    rw [hup] at hok
    obtain rfl := Except.ok.inj hok
    have hedit := UsersService.update_eq_ok hup
    by_cases hu : u = id
    · subst hu
      obtain ⟨a, ha, hon, hs⟩ := h
      obtain ⟨a', ha', hkeeps⟩ := hedit.row a ha
      exact ⟨a', ha', hkeeps.mfaEnabled.trans hon, hkeeps.mfaSecret.trans hs⟩
    · exact h.congr (hedit.others u hu)

theorem enroll_guards_iff (h : Enrolled u s st) (tenantId userId : Uuid) :
    (Guards rt u st (m, .enroll tenantId userId) ↔ NeedsCode rt u st (m, .enroll tenantId userId)) ∧
      (NeedsCode rt u st (m, .enroll tenantId userId) → Enrolled u s (advance rt st (m, .enroll tenantId userId))) := by
  have hsession : Reply.session? (serve rt m st (.enroll tenantId userId)).1 = none := session?_edit _
  have hkeeps : NeedsCode rt u st (m, .enroll tenantId userId) →
      Enrolled u s (advance rt st (m, .enroll tenantId userId)) := by
    intro hneeds
    refine enrolled_edit h fun users' hok => ?_
    cases hen : MfaService.enroll m st.users tenantId userId with
    | error e =>
      rw [hen] at hok
      cases hok
    | ok r =>
      rw [hen] at hok
      obtain rfl := Except.ok.inj hok
      obtain ⟨hfound, -, hother⟩ := MfaService.enroll_eq_ok hen
      by_cases hu : u = userId
      · subst hu
        rw [hneeds rfl] at hfound
        cases hfound
      · exact h.congr (hother u hu)
  refine ⟨⟨fun hguards hu => ?_, fun hneeds => guards_of (fun _ hs => ?_) (hkeeps hneeds)⟩, hkeeps⟩
  · subst hu
    by_contra hfound
    obtain ⟨b, hb⟩ := Option.ne_none_iff_exists'.1 hfound
    obtain ⟨hfind, -⟩ := UsersService.findOne_eq_some.1 hb
    -- the enrolment goes through and writes `mfaEnabled = false`
    obtain ⟨⟨secret, users'⟩, hen⟩ := MfaService.exists_enroll (m := m) hb
    obtain ⟨-, hoff, -⟩ := MfaService.enroll_eq_ok hen
    obtain ⟨a, ha, hon⟩ := hguards.enabled
    simp only [advance, serve, hen, Except.map, edit, hoff b hfind, Option.some.injEq] at ha
    rw [← ha] at hon
    cases hon
  · rw [hsession] at hs
    cases hs

theorem changePassword_guards_iff (h : Enrolled u s st) (token password : String) :
    (Guards rt u st (m, .changePassword token password) ↔ NeedsCode rt u st (m, .changePassword token password)) ∧
      (NeedsCode rt u st (m, .changePassword token password) →
        Enrolled u s (advance rt st (m, .changePassword token password))) := by
  cases hcheck : AuthService.checkChange rt.toAuthRuntime m st.users token password with
  | error e =>
    have hout : AuthService.changePassword rt.toAuthRuntime m st.users token password = .error e := by
      simp only [AuthService.changePassword, hcheck]
      rfl
    have hneeds : NeedsCode rt u st (m, .changePassword token password) := by
      intro tenant claims hok
      rw [hcheck] at hok
      cases hok
    have hkeeps : Enrolled u s (advance rt st (m, .changePassword token password)) := by
      simp only [advance, serve, hout]
      exact h
    refine ⟨iff_of_true (guards_of (fun session hs => ?_) hkeeps) hneeds, fun _ => hkeeps⟩
    simp only [serve, hout] at hs
    cases hs
  | ok r =>
    obtain ⟨tenant, claims⟩ := r
    obtain ⟨session, users', hout, hid⟩ := AuthService.exists_changePassword hcheck
    have hsession : Reply.session? (serve rt m st (.changePassword token password)).1 = some session := by
      simp only [serve, hout]
      rfl
    have hkeeps : NeedsCode rt u st (m, .changePassword token password) →
        Enrolled u s (advance rt st (m, .changePassword token password)) := by
      intro hneeds
      obtain ⟨-, -, -, hedit⟩ := AuthService.changePassword_eq_ok hout
      simp only [advance, serve, hout]
      exact h.congr (hedit.others u fun hu => hneeds tenant claims hcheck (hid.symm.trans hu.symm))
    refine ⟨⟨fun hguards tenant' claims' hok => ?_, fun hneeds => guards_of (fun session' hs' => ?_) (hkeeps hneeds)⟩,
      hkeeps⟩
    · obtain ⟨-, rfl⟩ := Prod.mk.inj (Except.ok.inj (hcheck.symm.trans hok))
      exact hid ▸ hguards.session session hsession
    · rw [hsession] at hs'
      obtain rfl := Option.some.inj hs'
      exact hid ▸ hneeds tenant claims hcheck

/-- **One call.** -/
theorem guards_iff (h : Enrolled u s st) (e : CodelessEvent rt s) :
    (Guards rt u st e.1 ↔ NeedsCode rt u st e.1) ∧ (NeedsCode rt u st e.1 → Enrolled u s (next rt s st e)) := by
  obtain ⟨⟨m, call⟩, hcodeless⟩ := e
  have hedited {x : Except HttpError Users} (hserve : serve rt m st call = edit st x)
      (hneeds : NeedsCode rt u st (m, call))
      (hok : ∀ users', x = .ok users' → Enrolled u s { st with users := users' }) :
      (Guards rt u st (m, call) ↔ NeedsCode rt u st (m, call)) ∧
        (NeedsCode rt u st (m, call) → Enrolled u s (advance rt st (m, call))) := by
    have henrolled : Enrolled u s (advance rt st (m, call)) := by
      simp only [advance, hserve]
      exact enrolled_edit h hok
    refine ⟨iff_of_true (guards_of (fun session hs => ?_) henrolled) hneeds, fun _ => henrolled⟩
    simp only [hserve, session?_edit] at hs
    cases hs
  cases call with
  | login slug username password =>
    exact ⟨iff_of_true (guards_of (fun _ hs => login_guards h slug username password hs) h) trivial, fun _ => h⟩
  | verifyLogin token code =>
    exact ⟨iff_of_true (guards_of (fun _ hs => verifyLogin_guards h hcodeless hs) h) trivial, fun _ => h⟩
  | changePassword token password => exact changePassword_guards_iff h token password
  | enroll tenantId userId => exact enroll_guards_iff h tenantId userId
  | verifyMfa tenantId userId code =>
    exact hedited rfl trivial fun _ hok => enrolled_of_checked h hcodeless (MfaService.verify_eq_ok hok)
  | disableMfa tenantId userId code =>
    exact hedited rfl trivial fun _ hok => enrolled_of_checked h hcodeless (MfaService.disable_eq_ok hok)
  | updateUser tenantId id dto => exact hedited rfl trivial fun _ hok => enrolled_update h hok
  | _ => exact hcodeless.elim

/-! ### Whole runs -/

/-- **The second factor stays.** The user has a second factor with the secret, and nobody submits a code for it. Along
the run no call opens a session for the user and the factor stays on, exactly if no call of the run is a new enrolment
of the user or a forced password change that the token and the account allow. -/
theorem second_factor_kept_iff (rt : SsoRuntime) (u : Uuid) (s : String) (st : AccountStore) (a : Account)
    (ha : st.users.find? u = some a) (hon : a.mfaEnabled = true) (hs : a.mfaSecret = some s)
    (es : List (CodelessEvent rt s)) :
    (∀ p e q, es = p ++ e :: q → Guards rt u (run (next rt s) st p) e.1) ↔
      AllSteps (next rt s) (fun st e => NeedsCode rt u st e.1) st es := by
  rw [← allSteps_iff (C := fun st (e : CodelessEvent rt s) => Guards rt u st e.1)]
  refine allSteps_congr (I := Enrolled u s) (fun st e h => (guards_iff h e).1) (fun st e h hguards => ?_)
    ⟨a, ha, hon, hs⟩
  exact (guards_iff h e).2 ((guards_iff h e).1.1 hguards)

def wrongCode : List (CodelessEvent plain "s") :=
  [⟨(acme, .verifyLogin "mfa:u1" "wrong"), rfl⟩, ⟨(acme, .login "acme" "amy" "pw"), trivial⟩]

theorem second_factor_kept_wrongCode :
    AllSteps (next plain "s") (fun st e => NeedsCode plain "u1" st e.1) amyOnly wrongCode ∧
      ∀ p e q, wrongCode = p ++ e :: q → Guards plain "u1" (run (next plain "s") amyOnly p) e.1 :=
  ⟨⟨trivial, trivial, trivial⟩,
    (second_factor_kept_iff plain "u1" "s" amyOnly amy (by decide) rfl rfl wrongCode).2 ⟨trivial, trivial, trivial⟩⟩

def reEnrolled : List (CodelessEvent plain "s") :=
  [⟨(acme, .enroll "t1" "u1"), trivial⟩, ⟨(acme, .login "acme" "amy" "pw"), trivial⟩]

theorem enrolment_sheds_factor :
    ¬ ∀ p e q, reEnrolled = p ++ e :: q → Guards plain "u1" (run (next plain "s") amyOnly p) e.1 := by
  intro h
  have hguards := h (reEnrolled.take 1) ⟨(acme, .login "acme" "amy" "pw"), trivial⟩ [] rfl
  have hopened : Reply.session? (serve plain acme (advance plain amyOnly (acme, .enroll "t1" "u1"))
      (.login "acme" "amy" "pw")).1 =
        some ⟨"session:u1", ⟨"u1", some "amy", "General User", none, [], some false⟩, "t1", "acme"⟩ := by decide
  exact hguards.session _ hopened rfl

end BookingSystem.Runs.SecondFactor
