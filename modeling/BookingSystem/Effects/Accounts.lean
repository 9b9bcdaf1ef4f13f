import BookingSystem.Model.Sessions

/-!
# What the account services do

For each operation, what a call that ended well has found and which rows it has written: sessions come from the row they
name, an edit writes one row, and a federated login writes the row that `federatedRow` finds or a new one.
-/

namespace BookingSystem.Model

open Base

namespace UsersService

def written (row : Account) (u : Entity) : Account :=
  { row with toUserColumns := u.toUserColumns, passwordHash := u.passwordHash.getD row.passwordHash }

theorem save_eq_ok {users users' : Users} {u : Entity} (h : save users u = .ok users') :
    ∃ row, users.find? u.id = some row ∧
      ∀ k, users'.find? k = if u.id = k then some (written row u) else users.find? k := by
  unfold save at h
  split at h
  · rename_i row hrow
    rw [found_eq_ok] at h
    exact ⟨row, hrow, Indexed.find?_put? h⟩
  · cases h

theorem findById_eq_ok {users : Users} {tenantId id : Uuid} {u : Entity} :
    findById users tenantId id = .ok u ↔
      ∃ a, users.find? id = some a ∧ a.tenantId = tenantId ∧ u = { toUserColumns := a.toUserColumns } := by
  rw [findById, found_eq_ok, Option.map_eq_some_iff]
  constructor
  · rintro ⟨a, ha, rfl⟩
    obtain ⟨hfind, ht⟩ := findOne_eq_some.1 ha
    exact ⟨a, hfind, ht, rfl⟩
  · rintro ⟨a, hfind, ht, rfl⟩
    exact ⟨a, findOne_eq_some.2 ⟨hfind, ht⟩, rfl⟩

theorem findByUsername_eq_some {users : Users} {tenantId : Uuid} {username : String} {u : Entity}
    (h : findByUsername users tenantId username = some u) :
    ∃ a, users.find? u.id = some a ∧ u.toUserColumns = a.toUserColumns ∧ u.passwordHash = some a.passwordHash ∧
      a.tenantId = tenantId ∧ a.username = username := by
  obtain ⟨a, ha, rfl⟩ := Option.map_eq_some_iff.1 h
  obtain ⟨hfind, hname⟩ := Indexed.lookup_eq_some ha
  obtain ⟨ht, hu⟩ := Prod.mk.inj hname
  exact ⟨a, hfind, rfl, rfl, ht, hu⟩

/-- An edit of the row `id`: what it may change is in `R`. -/
structure Edits (R : Account → Account → Prop) (id : Uuid) (users users' : Users) : Prop where
  row : ∀ a, users.find? id = some a → ∃ a', users'.find? id = some a' ∧ R a a'
  absent : users.find? id = none → users'.find? id = none
  others : ∀ k, k ≠ id → users'.find? k = users.find? k

theorem edits_save {users users' : Users} {tenantId id : Uuid} {old u : Entity}
    {R : Account → Account → Prop} (hold : findById users tenantId id = .ok old) (hid : u.id = old.id)
    (hsave : save users u = .ok users')
    (hR : ∀ a, users.find? id = some a → old = { toUserColumns := a.toUserColumns } → R a (written a u)) :
    Edits R id users users' := by
  obtain ⟨a, ha, -, rfl⟩ := findById_eq_ok.1 hold
  have haid : a.id = id := Indexed.key_of_find? ha
  obtain ⟨row, hrow, hfind⟩ := save_eq_ok hsave
  rw [hid, haid] at hrow hfind
  obtain rfl := Option.some.inj (ha.symm.trans hrow)
  refine ⟨fun b hb => ?_, fun h => ?_, fun k hk => ?_⟩
  · obtain rfl := Option.some.inj (ha.symm.trans hb)
    exact ⟨_, by rw [hfind, if_pos rfl], hR a ha rfl⟩
  · rw [ha] at h
    cases h
  · rw [hfind, if_neg hk.symm]

end UsersService

/-! ### Sessions -/

namespace AuthService

variable {rt : AuthRuntime} {m : Moment} {users : Users}

theorem login_session {slug username password : String} {s : Session}
    (h : login rt m users slug username password = .ok (.session s)) :
    ∃ a, users.find? s.user.id = some a ∧ a.isActive = true ∧ a.mfaEnabled = false := by
  unfold login at h
  simp only [bind_eq_ok, found_eq_ok, require_eq_ok] at h
  obtain ⟨tenant, -, user, huser, -, hactive, -, -, h⟩ := h
  obtain ⟨a, ha, hcols, -⟩ := UsersService.findByUsername_eq_some huser
  split at h
  · cases h
  · split at h
    · cases h
    · rename_i hmfa
      obtain rfl := LoginResult.session.inj (Except.ok.inj h)
      exact ⟨a, ha, by rw [← hcols, hactive], by rw [← hcols]; simpa using hmfa⟩

theorem checkChange_eq_ok {token password : String} {tenant : Tenant} {claims : TokenClaims}
    (h : checkChange rt m users token password = .ok (tenant, claims)) :
    ∃ a, users.find? claims.sub = some a ∧ a.tenantId = claims.tid ∧ a.isActive = true ∧
      a.mustChangePassword = true := by
  unfold checkChange at h
  simp only [bind_eq_ok, found_eq_ok, require_eq_ok, Option.bind_eq_some_iff, Bool.and_eq_true, beq_iff_eq] at h
  obtain ⟨claims', -, -, -, -, -, tenant', -, current, ⟨name, -, hcurrent⟩, -, ⟨⟨hid, hactive⟩, hmust⟩, h⟩ := h
  obtain ⟨rfl, rfl⟩ := Prod.mk.inj (Except.ok.inj h)
  obtain ⟨a, ha, hcols, -, ht, -⟩ := UsersService.findByUsername_eq_some hcurrent
  rw [hid] at ha
  exact ⟨a, ha, ht, by rw [← hcols, hactive], by rw [← hcols, hmust]⟩

end AuthService

namespace UsersService

theorem setPassword_eq_ok {rt : AuthRuntime} {m : Moment} {users users' : Users} {tenantId id : Uuid}
    {password : String} {u : Entity} (h : setPassword rt m users tenantId id password = .ok (u, users')) :
    u.id = id ∧ Edits (fun a a' =>
      a' = { a with passwordHash := rt.hash m.salt password, mustChangePassword := false }) id users users' := by
  unfold setPassword at h
  simp only [bind_eq_ok] at h
  obtain ⟨old, hold, users'', hsave, h⟩ := h
  obtain ⟨rfl, rfl⟩ := Prod.mk.inj (Except.ok.inj h)
  refine ⟨?_, edits_save hold ?_ hsave fun a _ he => ?_⟩
  · obtain ⟨a, ha, -, rfl⟩ := findById_eq_ok.1 hold
    exact Indexed.key_of_find? ha
  · rfl
  · subst he
    rfl

/-- The columns an edit by an administrator leaves alone: the second factor and the federated identity. -/
structure KeepsFactors (a a' : Account) : Prop where
  mfaEnabled : a'.mfaEnabled = a.mfaEnabled
  mfaSecret : a'.mfaSecret = a.mfaSecret

theorem update_eq_ok {rt : AuthRuntime} {m : Moment} {users users' : Users} {tenantId id : Uuid} {dto : UpsertUserDto}
    {u : Entity} (h : update rt m users tenantId id dto = .ok (u, users')) : Edits KeepsFactors id users users' := by
  unfold update at h
  simp only [bind_eq_ok] at h
  obtain ⟨old, hold, isActive, -, regionAccess, -, mustChange, -, users'', hsave, h⟩ := h
  obtain ⟨rfl, rfl⟩ := Prod.mk.inj (Except.ok.inj h)
  refine edits_save hold ?_ hsave fun a _ he => ?_
  · rfl
  · subst he
    exact ⟨rfl, rfl⟩

theorem exists_setPassword (rt : AuthRuntime) (m : Moment) {users : Users} {tenantId id : Uuid} {a : Account}
    (h : users.find? id = some a) (ht : a.tenantId = tenantId) (password : String) :
    ∃ r, setPassword rt m users tenantId id password = .ok r := by
  have hid : a.id = id := Indexed.key_of_find? h
  unfold setPassword
  refine exists_bind_ok (findById_eq_ok.2 ⟨a, h, ht, rfl⟩) ?_
  have hput := Indexed.put?_isSome_of_same (t := users) (r := a)
    (a := { a with passwordHash := rt.hash m.salt password, mustChangePassword := false })
    (by rw [key_account]; exact hid ▸ h) rfl
  obtain ⟨users', husers'⟩ := Option.isSome_iff_exists.1 hput
  have hsave : save users { toUserColumns := { a.toUserColumns with mustChangePassword := false }
                            passwordHash := some (rt.hash m.salt password) } = .ok users' := by
    unfold save
    simp only [hid, h, Option.getD_some]
    exact found_eq_ok.2 husers'
  exact exists_bind_ok hsave ⟨_, rfl⟩

end UsersService

namespace AuthService

variable {rt : AuthRuntime} {m : Moment} {users users' : Users}

theorem changePassword_eq_ok {token password : String} {s : Session}
    (h : changePassword rt m users token password = .ok (s, users')) :
    ∃ a, users.find? s.user.id = some a ∧ a.isActive = true ∧
      UsersService.Edits
        (fun a a' => a' = { a with passwordHash := rt.hash m.salt password, mustChangePassword := false })
        s.user.id users users' := by
  unfold changePassword at h
  simp only [bind_eq_ok] at h
  obtain ⟨⟨tenant, claims⟩, hcheck, ⟨u, users''⟩, hset, h⟩ := h
  obtain ⟨rfl, rfl⟩ := Prod.mk.inj (Except.ok.inj h)
  obtain ⟨a, ha, -, hactive, -⟩ := checkChange_eq_ok hcheck
  obtain ⟨hid, hedit⟩ := UsersService.setPassword_eq_ok hset
  have huser : (openSession rt m u.principal tenant false).user.id = claims.sub := hid
  rw [huser]
  exact ⟨a, ha, hactive, hedit⟩

theorem exists_changePassword {token password : String} {tenant : Tenant} {claims : TokenClaims}
    (h : checkChange rt m users token password = .ok (tenant, claims)) :
    ∃ s users', changePassword rt m users token password = .ok (s, users') ∧ s.user.id = claims.sub := by
  obtain ⟨a, ha, ht, -⟩ := checkChange_eq_ok h
  obtain ⟨⟨u, users'⟩, hset⟩ := UsersService.exists_setPassword rt m ha ht password
  refine ⟨openSession rt m u.principal tenant false, users', ?_, (UsersService.setPassword_eq_ok hset).1⟩
  unfold changePassword
  exact bind_eq_ok.2 ⟨_, h, bind_eq_ok.2 ⟨_, hset, rfl⟩⟩

theorem issueForFederated_eq_ok {user : Principal} {tenantId : Uuid} {s : Session}
    (h : issueForFederated rt m user tenantId = .ok s) : s.user.id = user.id := by
  unfold issueForFederated at h
  obtain ⟨tenant, -, h⟩ := bind_eq_ok.1 h
  obtain rfl := Except.ok.inj h
  rfl

end AuthService

namespace MfaService

variable {rt : AuthRuntime} {m : Moment} {users : Users}

theorem load_eq_some {tenantId userId : Uuid} {u : Entity} (h : load users tenantId userId = some u) :
    ∃ a, users.find? userId = some a ∧ a.tenantId = tenantId ∧ u.toUserColumns = a.toUserColumns ∧
      u.mfaSecret = a.mfaSecret := by
  obtain ⟨a, ha, rfl⟩ := Option.map_eq_some_iff.1 h
  obtain ⟨hfind, ht⟩ := UsersService.findOne_eq_some.1 ha
  exact ⟨a, hfind, ht, rfl, rfl⟩

theorem checkStepUp_eq_ok {token code : String} {u : Entity} {tenant : Tenant}
    (h : checkStepUp rt m users token code = .ok (u, tenant)) :
    ∃ a secret, users.find? u.id = some a ∧ u.toUserColumns = a.toUserColumns ∧ a.mfaSecret = some secret ∧
      rt.totp secret code m.now = true := by
  unfold checkStepUp at h
  simp only [bind_eq_ok, found_eq_ok, require_eq_ok] at h
  obtain ⟨payload, -, -, -, user, hload, -, -, secret, hsecret, -, hcode, tenant', -, h⟩ := h
  obtain ⟨rfl, rfl⟩ := Prod.mk.inj (Except.ok.inj h)
  obtain ⟨a, ha, -, hcols, hmfa⟩ := load_eq_some hload
  have hid : user.id = payload.sub := by rw [hcols]; exact Indexed.key_of_find? ha
  rw [← hid] at ha
  exact ⟨a, secret, ha, hcols, by rw [← hmfa]; exact (Option.filter_eq_some_iff.1 hsecret).1, hcode⟩

theorem checked_secret {tenantId userId : Uuid} {secret : String}
    (h : (load users tenantId userId).bind secretOf = some secret) :
    ∃ a, users.find? userId = some a ∧ a.mfaSecret = some secret := by
  obtain ⟨u, hload, hsecret⟩ := Option.bind_eq_some_iff.1 h
  obtain ⟨a, ha, -, -, hmfa⟩ := load_eq_some hload
  exact ⟨a, ha, by rw [← hmfa]; exact (Option.filter_eq_some_iff.1 hsecret).1⟩

theorem verify_eq_ok {users' : Users} {tenantId userId : Uuid} {code : String}
    (h : verify rt m users tenantId userId code = .ok users') :
    (∃ a secret, users.find? userId = some a ∧ a.mfaSecret = some secret ∧ rt.totp secret code m.now = true) ∧
      ∀ k, k ≠ userId → users'.find? k = users.find? k := by
  unfold verify at h
  simp only [bind_eq_ok, found_eq_ok, require_eq_ok] at h
  obtain ⟨-, -, secret, hsecret, -, hcode, h⟩ := h
  obtain ⟨a, ha, hmfa⟩ := checked_secret hsecret
  obtain rfl := Except.ok.inj h
  exact ⟨⟨a, secret, ha, hmfa, hcode⟩, fun k hk => (Indexed.find?_modify ..).trans (if_neg hk)⟩

theorem disable_eq_ok {users' : Users} {tenantId userId : Uuid} {code : String}
    (h : disable rt m users tenantId userId code = .ok users') :
    (∃ a secret, users.find? userId = some a ∧ a.mfaSecret = some secret ∧ rt.totp secret code m.now = true) ∧
      ∀ k, k ≠ userId → users'.find? k = users.find? k := by
  unfold disable at h
  simp only [bind_eq_ok, found_eq_ok, require_eq_ok] at h
  obtain ⟨secret, hsecret, -, hcode, h⟩ := h
  obtain ⟨a, ha, hmfa⟩ := checked_secret hsecret
  obtain rfl := Except.ok.inj h
  exact ⟨⟨a, secret, ha, hmfa, hcode⟩, fun k hk => (Indexed.find?_modify ..).trans (if_neg hk)⟩

theorem exists_enroll {tenantId userId : Uuid} {a : Account} (h : UsersService.findOne users tenantId userId = some a) :
    ∃ r, enroll m users tenantId userId = .ok r := by
  have hload : load users tenantId userId = some { toUserColumns := a.toUserColumns, mfaSecret := a.mfaSecret } :=
    Option.map_eq_some_iff.2 ⟨a, h, rfl⟩
  exact exists_bind_ok (found_eq_ok.2 hload) ⟨_, rfl⟩

/-- An enrolment asks for no code: it turns the second factor of the row off. -/
theorem enroll_eq_ok {users' : Users} {tenantId userId : Uuid} {secret : String}
    (h : enroll m users tenantId userId = .ok (secret, users')) :
    (UsersService.findOne users tenantId userId).isSome = true ∧
      (∀ a, users.find? userId = some a →
        users'.find? userId = some { a with mfaSecret := some m.secret, mfaEnabled := false }) ∧
      ∀ k, k ≠ userId → users'.find? k = users.find? k := by
  unfold enroll at h
  simp only [bind_eq_ok, found_eq_ok] at h
  obtain ⟨u, hload, h⟩ := h
  obtain ⟨-, rfl⟩ := Prod.mk.inj (Except.ok.inj h)
  refine ⟨?_, fun a ha => ?_, fun k hk => (Indexed.find?_modify ..).trans (if_neg hk)⟩
  · rw [load, Option.map_eq_some_iff] at hload
    obtain ⟨a, ha, -⟩ := hload
    rw [ha]
    rfl
  · refine (Indexed.find?_modify ..).trans ?_
    rw [if_pos rfl, ha]
    rfl

end MfaService

/-! ### Federated logins -/

namespace SsoService

variable {rt : SsoRuntime} {m : Moment} {users users' : Users} {a : Assertion} {p : Principal}

def federatedRow (rt : SsoRuntime) (users : Users) (a : Assertion) : Option Account :=
  (findByName users a.tenantId a.username).or (users.find? (a.stableId rt))

theorem findByName_eq_some {tenantId : Uuid} {username : Option String} {row : Account}
    (h : findByName users tenantId username = some row) : users.find? row.id = some row := by
  cases username with
  | some name => exact (Indexed.lookup_eq_some h).1
  | none => exact Table.find?_of_mem (List.mem_of_find?_eq_some h)

theorem federatedRow_eq_some {row : Account} (h : federatedRow rt users a = some row) :
    users.find? row.id = some row := by
  rcases Option.or_eq_some_iff.1 h with h | ⟨-, h⟩
  · exact findByName_eq_some h
  · have hid : row.id = a.stableId rt := Indexed.key_of_find? h
    rw [hid]
    exact h

/-- What finding or making the row of an assertion does. -/
theorem upsertFederated_cases (h : upsertFederated rt users a = .ok (p, users')) :
    (∃ row, findByName users a.tenantId a.username = some row ∧ p = (link a row).principal ∧
      users' = users.modify row.id (link a)) ∨
    (∃ row, findByName users a.tenantId a.username = none ∧ users.find? (a.stableId rt) = some row ∧
      p = created rt a none ∧ users.put? (overwrite a row) = some users') ∨
    (∃ name, findByName users a.tenantId a.username = none ∧ users.find? (a.stableId rt) = none ∧
      a.username = some name ∧ p = created rt a (some false) ∧ users.put? (freshRow rt a name) = some users') := by
  unfold upsertFederated at h
  simp only at h
  split at h
  · rename_i row hrow
    obtain ⟨rfl, rfl⟩ := Prod.mk.inj (Except.ok.inj h)
    exact .inl ⟨row, hrow, rfl, rfl⟩
  · rename_i hnone
    split at h
    · rename_i row hrow
      simp only [bind_eq_ok, found_eq_ok] at h
      obtain ⟨users'', hput, h⟩ := h
      obtain ⟨rfl, rfl⟩ := Prod.mk.inj (Except.ok.inj h)
      exact .inr (.inl ⟨row, hnone, hrow, rfl, hput⟩)
    · rename_i hstable
      simp only [bind_eq_ok, found_eq_ok] at h
      obtain ⟨name, hname, users'', hput, h⟩ := h
      obtain ⟨rfl, rfl⟩ := Prod.mk.inj (Except.ok.inj h)
      exact .inr (.inr ⟨name, hnone, hstable, hname, rfl, hput⟩)

/-- The row of an assertion that has one is active afterwards, and no other row is touched. -/
theorem upsertFederated_row {row : Account} (h : upsertFederated rt users a = .ok (p, users'))
    (hrow : federatedRow rt users a = some row) :
    p.id = row.id ∧ (∃ row', users'.find? row.id = some row' ∧ row'.isActive = true) ∧
      ∀ k, k ≠ row.id → users'.find? k = users.find? k := by
  rcases upsertFederated_cases h with ⟨r, hr, rfl, rfl⟩ | ⟨r, hnone, hr, rfl, hput⟩ | ⟨name, hnone, hstable, -⟩
  · obtain rfl : r = row := by simpa [federatedRow, hr] using hrow
    refine ⟨rfl, ⟨link a r, ?_, rfl⟩, fun k hk => ?_⟩
    · refine (Indexed.find?_modify ..).trans ?_
      rw [if_pos rfl, findByName_eq_some hr]
      rfl
    · exact (Indexed.find?_modify ..).trans (if_neg hk)
  · obtain rfl : r = row := by simpa [federatedRow, hnone, hr] using hrow
    have hid : r.id = a.stableId rt := Indexed.key_of_find? hr
    refine ⟨hid.symm, ⟨overwrite a r, ?_, rfl⟩, fun k hk => ?_⟩
    · rw [Indexed.find?_put? hput]
      exact if_pos rfl
    · rw [Indexed.find?_put? hput]
      exact if_neg hk.symm
  · simp [federatedRow, hnone, hstable] at hrow

theorem upsertFederated_new (h : upsertFederated rt users a = .ok (p, users')) (hrow : federatedRow rt users a = none) :
    users.find? p.id = none ∧ p.id = a.stableId rt ∧ ∀ k, k ≠ p.id → users'.find? k = users.find? k := by
  rcases upsertFederated_cases h with ⟨r, hr, -, -⟩ | ⟨r, hnone, hr, -⟩ | ⟨name, -, hstable, -, rfl, hput⟩
  · simp [federatedRow, hr] at hrow
  · simp [federatedRow, hnone, hr] at hrow
  · refine ⟨hstable, rfl, fun k hk => ?_⟩
    rw [Indexed.find?_put? hput]
    exact if_neg hk.symm

/-- No row has the name an entity is saved with: an assertion is refused only when it has neither a row nor a name. -/
theorem exists_upsertFederated (h : (federatedRow rt users a).isSome = true ∨ a.username.isSome = true) :
    ∃ r, upsertFederated rt users a = .ok r := by
  -- a name that is free when the assertion has one, or has no row in the tenant at all
  have hput (row : Account) (hnone : findByName users a.tenantId a.username = none)
      (ht : row.tenantId = a.tenantId) (hname : ∀ name, a.username = some name → row.username = name) :
      ∃ users', users.put? row = some users' := by
    refine Option.isSome_iff_exists.1 (Indexed.put?_isSome_of_lookup ?_)
    cases hu : a.username with
    | some name =>
      rw [hu] at hnone
      rw [Account.login, ht, hname name hu]
      exact hnone
    | none =>
      rw [hu] at hnone
      simp only [findByName, List.find?_eq_none, beq_iff_eq] at hnone
      simp only [Indexed.lookup, List.find?_eq_none, decide_eq_true_eq]
      intro b hb e
      exact hnone b hb ((Prod.mk.inj e).1.trans ht)
  unfold upsertFederated
  simp only
  split
  · exact ⟨_, rfl⟩
  · rename_i hnone
    split
    · rename_i r hr
      obtain ⟨users', husers'⟩ := hput (overwrite a r) hnone rfl fun name hu => by simp [overwrite, hu]
      exact exists_bind_ok (found_eq_ok.2 husers') ⟨_, rfl⟩
    · rename_i hr
      have hname : a.username.isSome = true := h.resolve_left (by simp [federatedRow, hnone, hr])
      obtain ⟨name, hname⟩ := Option.isSome_iff_exists.1 hname
      obtain ⟨users', husers'⟩ := hput (freshRow rt a name) hnone rfl fun name' hu => by
        exact Option.some.inj (hname.symm.trans hu)
      exact exists_bind_ok (found_eq_ok.2 hname) (exists_bind_ok (found_eq_ok.2 husers') ⟨_, rfl⟩)

/-- The answer of the directory to a login whose provider is found. -/
def ldapAssertion (rt : SsoRuntime) (m : Moment) (tenantSlug providerSlug username password : String) :
    Except HttpError Assertion := do
  let (tenant, provider) ← resolve m tenantSlug providerSlug .ldap
  directoryAssertion rt tenant provider username password

/-! ### The answers of the providers leave the users alone -/

theorem takeState_users (token unknown : String) (st : AccountStore) :
    (takeState m token unknown st).2.users = st.users := by
  unfold takeState
  split
  · rfl
  · split
    · rfl
    · split <;> rfl

theorem samlAssertion_users (response relay : Option String) (st : AccountStore) :
    (samlAssertion rt m response relay st).2.users = st.users := by
  unfold samlAssertion
  split
  · rfl
  · rfl
  · rename_i token _ _
    simp only
    split
    · exact takeState_users ..
    · split <;> exact takeState_users ..

theorem oauth2Assertion_users (token code : Option String) (st : AccountStore) :
    (oauth2Assertion rt m token code st).2.users = st.users := by
  unfold oauth2Assertion
  split
  · simp only
    split
    · exact takeState_users ..
    · split <;> exact takeState_users ..
  · rfl

end SsoService

namespace WebauthnService

variable {rt : SsoRuntime} {m : Moment}

theorem checkPasskey_users (slug username : String) (response : AssertionResponse) (st : AccountStore) :
    (checkPasskey rt m slug username response st).2.users = st.users := by
  unfold checkPasskey
  split
  · rfl
  · split
    · rfl
    · split
      · rfl
      · split
        · rfl
        · simp only
          split <;> rfl

/-- A passkey that was checked belongs to a stored user, and the tenant of the login exists. -/
theorem checkPasskey_eq_ok {slug username : String} {response : AssertionResponse} {st : AccountStore} {a : Account}
    {tenantId : Uuid} (h : (checkPasskey rt m slug username response st).1 = .ok (a, tenantId)) :
    st.users.find? a.id = some a ∧ ∃ t, m.tenants.find? tenantId = some t := by
  unfold checkPasskey at h
  split at h
  · cases h
  · rename_i tenant htenant
    split at h
    · cases h
    · rename_i user huser
      split at h
      · cases h
      · split at h
        · cases h
        · simp only at h
          split at h
          · cases h
          · cases h
          · obtain ⟨rfl, rfl⟩ := Prod.mk.inj (Except.ok.inj h)
            exact ⟨(Indexed.lookup_eq_some huser).1, tenant, Table.find?_of_mem (List.mem_of_find?_eq_some htenant)⟩

end WebauthnService

namespace Accounts

open SsoService

variable {rt : SsoRuntime} {m : Moment} {st : AccountStore} {call : Call}

def Call.isFederated : Call → Bool
  | .samlAcs .. | .oauth2Callback .. | .ldapLogin .. => true
  | _ => false

/-- What the provider of a federated login asserts, when its answer is accepted. -/
def asserted (rt : SsoRuntime) (m : Moment) (st : AccountStore) : Call → Option Assertion
  | .samlAcs response relay => (samlAssertion rt m response relay st).1.toOption.map (·.1)
  | .oauth2Callback state code => (oauth2Assertion rt m state code st).1.toOption.map (·.1)
  | .ldapLogin slug provider username password =>
    (ldapAssertion rt m slug provider username password).toOption
  | _ => none

def upserted (rt : SsoRuntime) (m : Moment) (st : AccountStore) (call : Call) :
    Option (Assertion × Principal × Users) :=
  (asserted rt m st call).bind fun a => (upsertFederated rt st.users a).toOption.map fun r => (a, r)

def federatedSession (rt : SsoRuntime) (m : Moment) (r : Assertion × Principal × Users) : Option Session :=
  (AuthService.issueForFederated rt.toAuthRuntime m r.2.1 r.1.tenantId).toOption

theorem session?_map (x : Except HttpError Session) :
    Reply.session? (x.map fun s => Reply.login (.session s)) = x.toOption := by
  cases x <;> rfl

theorem federate_eq {out : Except HttpError Assertion × AccountStore} (hout : out.2.users = st.users)
    (ha : asserted rt m st call = out.1.toOption) :
    (federate rt m out).2.users = ((upserted rt m st call).map fun r => r.2.2).getD st.users ∧
      (federate rt m out).1.toOption = (upserted rt m st call).bind (federatedSession rt m) := by
  obtain ⟨x, st'⟩ := out
  simp only at hout ha
  unfold upserted
  rw [ha]
  cases x with
  | error e => exact ⟨hout, rfl⟩
  | ok a =>
    simp only [federate, hout, Except.toOption, Option.bind_some]
    cases upsertFederated rt st.users a with
    | error e => exact ⟨hout, rfl⟩
    | ok r => exact ⟨rfl, rfl⟩

theorem finishRedirect_eq (rt : SsoRuntime) (m : Moment)
    (out : Except HttpError (Assertion × String) × AccountStore) :
    (finishRedirect rt m out).2 = (federate rt m (out.1.map (·.1), out.2)).2 ∧
      ((finishRedirect rt m out).1.map (·.1)).toOption =
        (federate rt m (out.1.map (·.1), out.2)).1.toOption := by
  obtain ⟨x, st'⟩ := out
  cases x with
  | error e => exact ⟨rfl, rfl⟩
  | ok r =>
    refine ⟨rfl, ?_⟩
    simp only [finishRedirect, andRedirect, Except.map]
    cases (federate rt m (.ok r.1, st')).1 <;> rfl

theorem ldapLogin_eq (rt : SsoRuntime) (m : Moment) (st : AccountStore) (slug provider username password : String) :
    (ldapLogin rt m slug provider username password st).2 =
        (federate rt m (ldapAssertion rt m slug provider username password, st)).2 ∧
      (ldapLogin rt m slug provider username password st).1.toOption =
        (federate rt m (ldapAssertion rt m slug provider username password, st)).1.toOption := by
  unfold ldapLogin ldapAssertion
  split
  · rename_i e he
    rw [he]
    exact ⟨rfl, rfl⟩
  · rename_i tenant provider' he
    rw [he]
    refine ⟨rfl, ?_⟩
    simp only [bind, Except.bind]
    cases (federate rt m (directoryAssertion rt tenant provider' username password, st)).1 <;> rfl

/-- **A federated login.** It writes the row of its assertion and nothing else of the users, and opens the session of
that row if the tenant exists. -/
theorem serve_federated (rt : SsoRuntime) (m : Moment) (st : AccountStore) (h : call.isFederated = true) :
    (serve rt m st call).2.users = ((upserted rt m st call).map fun r => r.2.2).getD st.users ∧
      Reply.session? (serve rt m st call).1 = (upserted rt m st call).bind (federatedSession rt m) := by
  have htoOption (x : Except HttpError (Assertion × String)) :
      x.toOption.map (·.1) = (x.map (·.1)).toOption := by cases x <;> rfl
  cases call with
  | samlAcs response relay =>
    obtain ⟨hstate, hsession⟩ :=
      finishRedirect_eq rt m (samlAssertion rt m response relay st)
    simp only [serve, replySession, session?_map, samlAcs, hstate, hsession]
    exact federate_eq (samlAssertion_users ..) (htoOption _)
  | oauth2Callback state code =>
    obtain ⟨hstate, hsession⟩ :=
      finishRedirect_eq rt m (oauth2Assertion rt m state code st)
    simp only [serve, replySession, session?_map, oauth2Callback, hstate, hsession]
    exact federate_eq (oauth2Assertion_users ..) (htoOption _)
  | ldapLogin slug provider username password =>
    obtain ⟨hstate, hsession⟩ := ldapLogin_eq rt m st slug provider username password
    simp only [serve, replySession, session?_map, hstate, hsession]
    exact federate_eq rfl rfl
  | _ => cases h

end Accounts

end BookingSystem.Model
