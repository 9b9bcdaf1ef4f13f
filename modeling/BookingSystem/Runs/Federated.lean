import BookingSystem.Runs.Sessions

/-!
# Federated identities and accounts

An assertion is for the account with the asserted name; only when there is none is it for the account with the stable id
of the subject, whose rights the login then resets. So an address that moves to another person takes the account along,
and a person whose address changes can end up in another account. A run keeps identities and accounts apart if nobody
gets an address that another person was last known by, a changed address names no user yet and the account to rename has
the stable id and nothing to reset (`identities_separate`).
-/

namespace BookingSystem.Runs.Federated

open Base Model Model.Accounts Runs.Sessions
open Model.SsoService

/-- A federated login that has obtained a session: the identity asserted, and the user row of the session. -/
structure Login where
  tenantId : Uuid
  kind : ProviderKind
  subject : Option String
  row : Uuid
  deriving DecidableEq, Repr

/-- What the providers of a run have asserted so far, and the logins that have obtained a session. -/
structure History where
  asserted : List Assertion := []
  logins : List Login := []

variable (rt : SsoRuntime)

def obtained (st : AccountStore) (e : AccountEvent) : Option Login :=
  (asserted rt e.1 st e.2).bind fun a =>
    (Reply.session? (serve rt e.1 st e.2).1).map fun s => ⟨a.tenantId, a.kind, a.subject, s.user.id⟩

def track (s : AccountStore × History) (e : AccountEvent) : AccountStore × History :=
  (advance rt s.1 e,
    ⟨s.2.asserted ++ (asserted rt e.1 s.1 e.2).toList, s.2.logins ++ (obtained rt s.1 e).toList⟩)

def logins (st : AccountStore) (es : List AccountEvent) : List Login := (run (track rt) (st, {}) es).2.logins

/-- Of the logins of one tenant and kind, those with the same subject, and no others, have the same row. -/
def Separate (ls : List Login) : Prop :=
  ∀ l ∈ ls, ∀ l' ∈ ls, l.tenantId = l'.tenantId → l.kind = l'.kind → (l.subject = l'.subject ↔ l.row = l'.row)

/-- A federated login leaves the role and the regions of every stored user alone. -/
def KeepsRights (st : AccountStore) (e : AccountEvent) : Prop :=
  e.2.isFederated = true → ∀ id a a', st.users.find? id = some a → (advance rt st e).users.find? id = some a' →
    a'.role = a.role ∧ a'.regionAccess = a.regionAccess

def accountId (users : Users) (a : Assertion) : Uuid :=
  ((findByName users a.tenantId a.username).map fun row => row.id).getD (a.stableId rt)

/-- The tenant still exists, and the assertion has a row or a name to make one with. -/
def Opens (m : Moment) (users : Users) (a : Assertion) : Prop :=
  (m.tenants.find? a.tenantId).isSome = true ∧ ((federatedRow rt users a).isSome = true ∨ a.username.isSome = true)

/-- The account went to no other subject of the kind before, and the subject had no other account. -/
def Fits (past : List Login) (a : Assertion) (row : Uuid) : Prop :=
  ∀ l ∈ past, l.tenantId = a.tenantId → l.kind = a.kind → (l.subject = a.subject ↔ l.row = row)

/-- The row whose rights a login resets has the rights of a new user already. -/
def NothingToReset (users : Users) (a : Assertion) : Prop :=
  findByName users a.tenantId a.username = none → ∀ row, users.find? (a.stableId rt) = some row →
    row.role = "General User" ∧ row.regionAccess = []

instance (users : Users) (a : Assertion) : Decidable (NothingToReset rt users a) :=
  inferInstanceAs (Decidable (findByName users a.tenantId a.username = none → ∀ row ∈ users.find? (a.stableId rt),
    row.role = "General User" ∧ row.regionAccess = []))

def identity (a : Assertion) : Uuid × ProviderKind × Option String := (a.tenantId, a.kind, a.subject)

def latest (past : List Assertion) : List Assertion :=
  past.foldl (fun ls a => ls.filter (fun b => decide (identity b ≠ identity a)) ++ [a]) []

/-- The user with the id has the name of the assertion. -/
def GoesBy (users : Users) (b : Assertion) (id : Uuid) : Prop :=
  ∃ row, users.find? id = some row ∧ b.tenantId = row.tenantId ∧ b.username = some row.username

instance (users : Users) (b : Assertion) (id : Uuid) : Decidable (GoesBy users b id) :=
  inferInstanceAs
    (Decidable (∃ row ∈ users.find? id, b.tenantId = row.tenantId ∧ b.username = some row.username))

/-- The assertion names a person, by a name that nobody else of the kind was last known by. If the name is a new one of
the person, no user has it, and the user with the stable id goes by the old one. If no user has the name, the one with
the stable id has the rights of a new user and a name that nobody else was last known by. -/
structure OwnName (users : Users) (past : List Assertion) (a : Assertion) : Prop where
  named : a.username.isSome = true
  others : ∀ b ∈ latest past, b.tenantId = a.tenantId → b.kind = a.kind → b.subject ≠ a.subject →
    b.username ≠ a.username
  moved : ∀ b ∈ latest past, identity b = identity a → b.username ≠ a.username →
    findByName users a.tenantId a.username = none ∧ GoesBy users b (a.stableId rt)
  fresh : NothingToReset rt users a
  alone : findByName users a.tenantId a.username = none → ∀ b ∈ latest past, GoesBy users b (a.stableId rt) →
    identity b = identity a

/-- The users keep the names that somebody was last known by. -/
def KeepsNames (past : List Assertion) (users users' : Users) : Prop :=
  ∀ b ∈ latest past, ∀ id, GoesBy users b id → GoesBy users' b id

/-- Logins are under own names, and the other calls leave the asserted names alone. -/
structure Orderly (s : AccountStore × History) (e : AccountEvent) : Prop where
  login : ∀ a, asserted rt e.1 s.1 e.2 = some a → OwnName rt s.1.users s.2.asserted a
  other : asserted rt e.1 s.1 e.2 = none → KeepsNames s.2.asserted s.1.users (advance rt s.1 e).users

variable {rt} {st : AccountStore} {e : AccountEvent} {a : Assertion} {s : AccountStore × History} {users : Users}
  {p : Principal}

/-! ### One login -/

theorem isFederated_of_asserted {m : Moment} {call : Call} (h : asserted rt m st call = some a) :
    call.isFederated = true := by
  cases call <;> first | rfl | cases h

theorem upsertFederated_id {users' : Users} (h : upsertFederated rt users a = .ok (p, users')) :
    p.id = accountId rt users a := by
  rcases upsertFederated_cases h with ⟨row, hrow, rfl, -⟩ | ⟨row, hnone, -, rfl, -⟩ | ⟨name, hnone, -, -, rfl, -⟩
  · simp [accountId, hrow, link]
  · simp [accountId, hnone, created]
  · simp [accountId, hnone, created]

theorem upsertFederated_error {err : HttpError} (h : upsertFederated rt users a = .error err) :
    ¬ ((federatedRow rt users a).isSome = true ∨ a.username.isSome = true) := by
  intro hsome
  obtain ⟨r, hr⟩ := exists_upsertFederated hsome
  rw [h] at hr
  cases hr

theorem exists_of_upsertFederated {users' : Users} (h : upsertFederated rt users a = .ok (p, users')) :
    (federatedRow rt users a).isSome = true ∨ a.username.isSome = true := by
  rcases upsertFederated_cases h with ⟨row, hrow, -⟩ | ⟨row, hnone, hrow, -⟩ | ⟨name, -, -, hname, -⟩
  · exact .inl (by simp [federatedRow, hrow])
  · exact .inl (by simp [federatedRow, hnone, hrow])
  · exact .inr (by simp [hname])

theorem obtained_eq (ha : asserted rt e.1 st e.2 = some a) (l : Login) :
    obtained rt st e = some l ↔
      Opens rt e.1 st.users a ∧ l = ⟨a.tenantId, a.kind, a.subject, accountId rt st.users a⟩ := by
  obtain ⟨-, hsession⟩ := serve_federated rt e.1 st (isFederated_of_asserted ha)
  have hobtained : obtained rt st e = ((upserted rt e.1 st e.2).bind (federatedSession rt e.1)).map
      fun s => ⟨a.tenantId, a.kind, a.subject, s.user.id⟩ := by
    rw [obtained, ha, Option.bind_some, hsession]
  rw [hobtained]
  cases hup : upsertFederated rt st.users a with
  | error err =>
    have hupserted : upserted rt e.1 st e.2 = none := by simp [upserted, ha, hup, Except.toOption]
    rw [hupserted]
    refine iff_of_false (fun h => by cases h) fun h => upsertFederated_error hup h.1.2
  | ok r =>
    obtain ⟨p, users'⟩ := r
    have hupserted : upserted rt e.1 st e.2 = some (a, p, users') := by simp [upserted, ha, hup, Except.toOption]
    rw [hupserted, Option.bind_some, federatedSession, AuthService.issueForFederated]
    cases ht : e.1.tenants.find? a.tenantId with
    | none => exact iff_of_false (fun h => by cases h) fun h => by simp [Opens, ht] at h
    | some tenant =>
      have hopens : Opens rt e.1 st.users a := ⟨by rw [ht]; rfl, exists_of_upsertFederated hup⟩
      have hlogin : (⟨a.tenantId, a.kind, a.subject,
          (AuthService.openSession rt.toAuthRuntime e.1 p tenant false).user.id⟩ : Login) =
            ⟨a.tenantId, a.kind, a.subject, accountId rt st.users a⟩ := by
        rw [← upsertFederated_id hup]
        rfl
      simp only [hopens, true_and]
      exact ⟨fun h => (Option.some.inj h).symm.trans hlogin, fun h => congrArg some (hlogin.trans h.symm)⟩

theorem obtained_of_none (h : asserted rt e.1 st e.2 = none) : obtained rt st e = none := by
  rw [obtained, h]
  rfl

/-! ### The accounts of the logins -/

theorem separate_append_singleton {past : List Login} (h : Separate past) (l : Login) :
    Separate (past ++ [l]) ↔
      ∀ l' ∈ past, l'.tenantId = l.tenantId → l'.kind = l.kind → (l'.subject = l.subject ↔ l'.row = l.row) := by
  constructor
  · intro hsep l' hl'
    exact hsep l' (List.mem_append_left _ hl') l (by simp)
  · intro hfits x hx y hy ht hk
    rw [List.mem_append, List.mem_singleton] at hx hy
    rcases hx with hx | rfl <;> rcases hy with hy | rfl
    · exact h x hx y hy ht hk
    · exact hfits x hx ht hk
    · rw [eq_comm, eq_comm (a := x.row)]
      exact hfits y hy ht.symm hk.symm
    · exact iff_of_true rfl rfl

theorem separate_track_iff (h : Separate s.2.logins) :
    Separate (track rt s e).2.logins ↔
      ∀ a, asserted rt e.1 s.1 e.2 = some a → Opens rt e.1 s.1.users a →
        Fits s.2.logins a (accountId rt s.1.users a) := by
  cases ha : asserted rt e.1 s.1 e.2 with
  | none =>
    refine iff_of_true ?_ fun a ha' => nomatch ha'
    rw [track, obtained_of_none ha]
    simpa using h
  | some a =>
    simp only [Option.some.injEq, forall_eq']
    by_cases hopens : Opens rt e.1 s.1.users a
    · have hl := (obtained_eq ha _).2 ⟨hopens, rfl⟩
      rw [track, hl]
      simp only [Option.toList_some, hopens, forall_true_left]
      exact separate_append_singleton h _
    · have hnone : obtained rt s.1 e = none := by
        rw [Option.eq_none_iff_forall_ne_some]
        exact fun l hl => hopens ((obtained_eq ha l).1 hl).1
      rw [track, hnone]
      exact iff_of_true (by simpa using h) fun ho => absurd ho hopens

theorem Separate.of_append {past more : List Login} (h : Separate (past ++ more)) : Separate past :=
  fun l hl l' hl' => h l (List.mem_append_left _ hl) l' (List.mem_append_left _ hl')

theorem logins_append (rt : SsoRuntime) (s : AccountStore × History) (es : List AccountEvent) :
    ∃ more, (run (track rt) s es).2.logins = s.2.logins ++ more := by
  induction es generalizing s with
  | nil => exact ⟨[], by simp⟩
  | cons e es ih =>
    obtain ⟨more, hmore⟩ := ih (track rt s e)
    exact ⟨(obtained rt s.1 e).toList ++ more, by rw [run_cons, hmore, track, List.append_assoc]⟩

/-! ### The rights of the rows -/

theorem rights_of_upsert {users' : Users} {a : Assertion} {id : Uuid} {b b' : Account}
    (hup : upsertFederated rt users a = .ok (p, users')) (hreset : NothingToReset rt users a)
    (hb : users.find? id = some b) (hb' : users'.find? id = some b') :
    b'.role = b.role ∧ b'.regionAccess = b.regionAccess := by
  rcases upsertFederated_cases hup with
    ⟨row, hrow, -, rfl⟩ | ⟨row, hnone, hrow, -, hput⟩ | ⟨name, -, hnew, -, -, hput⟩
  · have hfind := (Indexed.find?_modify users row.id (link a) (fun _ => rfl) (fun _ => rfl) id).symm.trans hb'
    rw [hb] at hfind
    split at hfind
    · obtain rfl := Option.some.inj hfind
      exact ⟨rfl, rfl⟩
    · obtain rfl := Option.some.inj hfind
      exact ⟨rfl, rfl⟩
  · rw [Indexed.find?_put? hput] at hb'
    split at hb'
    · rename_i hid
      obtain rfl := Option.some.inj hb'
      have hrowid : row.id = a.stableId rt := Indexed.key_of_find? hrow
      have hstable : id = a.stableId rt := hid.symm.trans hrowid
      rw [hstable, hrow, Option.some.injEq] at hb
      obtain ⟨hrole, hregions⟩ := hreset hnone row hrow
      exact hb ▸ ⟨hrole.symm, hregions.symm⟩
    · rw [hb, Option.some.injEq] at hb'
      exact hb' ▸ ⟨rfl, rfl⟩
  · rw [Indexed.find?_put? hput] at hb'
    split at hb'
    · rename_i hid
      have hstable : id = a.stableId rt := hid.symm
      rw [hstable, hnew] at hb
      cases hb
    · rw [hb, Option.some.injEq] at hb'
      exact hb' ▸ ⟨rfl, rfl⟩

theorem find?_of_upsert {users' : Users} {a : Assertion} {row : Account}
    (hup : upsertFederated rt users a = .ok (p, users')) (hnone : findByName users a.tenantId a.username = none)
    (hrow : users.find? (a.stableId rt) = some row) : users'.find? (a.stableId rt) = some (overwrite a row) := by
  rcases upsertFederated_cases hup with ⟨r, hr, -⟩ | ⟨r, -, hr, -, hput⟩ | ⟨name, -, hstable, -⟩
  · rw [hnone] at hr
    cases hr
  · obtain rfl := Option.some.inj (hrow.symm.trans hr)
    rw [Indexed.find?_put? hput]
    exact if_pos (Indexed.key_of_find? hrow)
  · rw [hstable] at hrow
    cases hrow

theorem keepsRights_iff :
    KeepsRights rt st e ↔ ∀ a, asserted rt e.1 st e.2 = some a → NothingToReset rt st.users a := by
  constructor
  · intro h a ha hnone row hrow
    have hfed := isFederated_of_asserted ha
    have hsome : (federatedRow rt st.users a).isSome = true := by simp [federatedRow, hnone, hrow]
    obtain ⟨⟨p, users'⟩, hup⟩ := exists_upsertFederated (.inl hsome)
    obtain ⟨husers, -⟩ := serve_federated rt e.1 st hfed
    have hupserted : upserted rt e.1 st e.2 = some (a, p, users') := by simp [upserted, ha, hup, Except.toOption]
    have hafter : (advance rt st e).users.find? (a.stableId rt) = some (overwrite a row) := by
      simp only [advance, husers, hupserted, Option.map_some, Option.getD_some]
      exact find?_of_upsert hup hnone hrow
    obtain ⟨hrole, hregions⟩ := h hfed _ row _ hrow hafter
    exact ⟨hrole.symm, hregions.symm⟩
  · intro h hfed id b b' hb hb'
    obtain ⟨husers, -⟩ := serve_federated rt e.1 st hfed
    rw [advance, husers] at hb'
    cases hupserted : upserted rt e.1 st e.2 with
    | none =>
      rw [hupserted, Option.map_none, Option.getD_none, hb, Option.some.injEq] at hb'
      exact hb' ▸ ⟨rfl, rfl⟩
    | some r =>
      obtain ⟨a, p, users'⟩ := r
      rw [hupserted, Option.map_some, Option.getD_some] at hb'
      simp only [upserted, Option.bind_eq_some_iff, Option.map_eq_some_iff, toOption_eq_some,
        Prod.mk.injEq] at hupserted
      obtain ⟨a', ha, r, hup, rfl, rfl⟩ := hupserted
      exact rights_of_upsert hup (h a' ha) hb hb'

/-! ### Whole runs -/

theorem run_track_fst (s : AccountStore × History) (es : List AccountEvent) :
    (run (track rt) s es).1 = run (advance rt) s.1 es := by
  induction es generalizing s with
  | nil => rfl
  | cons e es ih => exact ih (track rt s e)

theorem separate_logins_iff (st : AccountStore) (es : List AccountEvent) :
    Separate (logins rt st es) ↔
      ∀ p e q, es = p ++ e :: q → ∀ a, asserted rt e.1 (run (advance rt) st p) e.2 = some a →
        Opens rt e.1 (run (advance rt) st p).users a →
          Fits (logins rt st p) a (accountId rt (run (advance rt) st p).users a) := by
  have hparts : Separate (logins rt st es) ↔ ∀ p q, es = p ++ q → Separate (run (track rt) (st, {}) p).2.logins := by
    constructor
    · rintro h p q rfl
      rw [logins, run_append] at h
      obtain ⟨more, hmore⟩ := logins_append rt (run (track rt) (st, {}) p) q
      rw [hmore] at h
      exact h.of_append
    · intro h
      exact h es [] (by simp)
  have hempty : Separate ((st, {}) : AccountStore × History).2.logins := fun l hl => nomatch hl
  have hsteps : AllSteps (track rt) (fun s e => ∀ a, asserted rt e.1 s.1 e.2 = some a → Opens rt e.1 s.1.users a →
      Fits s.2.logins a (accountId rt s.1.users a)) (st, {}) es ↔
        ∀ p q, es = p ++ q → Separate (run (track rt) (st, {}) p).2.logins :=
    allSteps_iff_forall_prefix (I := fun s : AccountStore × History => Separate s.2.logins)
      (P := fun s => Separate s.2.logins) (D := fun _ => True)
      (fun _ h => h) (fun _ _ h _ hC => (separate_track_iff h).2 hC) (fun _ _ h _ hP => (separate_track_iff h).1 hP)
      hempty fun _ _ => trivial
  rw [hparts, ← hsteps, allSteps_iff]
  simp only [run_track_fst, logins]

/-! ### Asserted names -/

/-- The user of every login goes by the name that was last asserted of its identity. -/
def Known (s : AccountStore × History) : Prop :=
  ∀ l ∈ s.2.logins, ∃ b ∈ latest s.2.asserted,
    identity b = (l.tenantId, l.kind, l.subject) ∧ GoesBy s.1.users b l.row

theorem mem_latest_append {past : List Assertion} {b : Assertion} :
    b ∈ latest (past ++ [a]) ↔ b ∈ latest past ∧ identity b ≠ identity a ∨ b = a := by
  simp [latest, List.foldl_append]

theorem findByName_of_find? {id : Uuid} {row : Account} (h : users.find? id = some row) :
    findByName users row.tenantId (some row.username) = some row := by
  have hmem := Table.mem_of_find? h
  simp only [findByName, Indexed.lookup]
  rw [List.find?_eq_some_iff_getElem]
  obtain ⟨i, hi, heq⟩ := List.getElem_of_mem hmem
  refine ⟨by simp [Account.login], i, hi, heq, fun j hj => ?_⟩
  have hne : Account.login users.rows[j] ≠ Account.login row := by
    rw [← heq]
    have hnodup := List.pairwise_iff_getElem.1 users.unique j i (by simp; omega) (by simpa using hi) hj
    simpa using hnodup
  simpa [Account.login, imp_iff_not_or] using hne

theorem name_of_findByName {row : Account} (hname : a.username.isSome = true)
    (h : findByName users a.tenantId a.username = some row) :
    row.tenantId = a.tenantId ∧ a.username = some row.username := by
  obtain ⟨name, hname⟩ := Option.isSome_iff_exists.1 hname
  rw [hname] at h ⊢
  have hlogin := (Indexed.lookup_eq_some h).2
  exact ⟨congrArg Prod.fst hlogin, congrArg some (congrArg Prod.snd hlogin).symm⟩

theorem findByName_of_goesBy {b : Assertion} {id : Uuid} (h : GoesBy users b id) :
    ∃ row, users.find? id = some row ∧ row.id = id ∧ findByName users b.tenantId b.username = some row := by
  obtain ⟨row, hrow, hten, hname⟩ := h
  refine ⟨row, hrow, Indexed.key_of_find? hrow, ?_⟩
  rw [hten, hname]
  exact findByName_of_find? hrow

theorem fits_of_ownName (h : Known s) (ha : OwnName rt s.1.users s.2.asserted a) :
    Fits s.2.logins a (accountId rt s.1.users a) := by
  intro l hl ht hk
  obtain ⟨b, hb, hid, hgoes⟩ := h l hl
  obtain ⟨hbt, hbk, hbs⟩ : b.tenantId = l.tenantId ∧ b.kind = l.kind ∧ b.subject = l.subject := by
    simpa [identity] using hid
  obtain ⟨row, hrow, hrowid, hfound⟩ := findByName_of_goesBy hgoes
  rw [accountId]
  constructor
  · intro hsame
    have hident : identity b = identity a := by rw [hid, identity, ht, hk, hsame]
    by_cases hname : b.username = a.username
    · rw [hbt, ht, hname] at hfound
      rw [hfound, Option.map_some, Option.getD_some, hrowid]
    · obtain ⟨hnone, hstable⟩ := ha.moved b hb hident hname
      obtain ⟨row', -, hrowid', hfound'⟩ := findByName_of_goesBy hstable
      rw [hnone, Option.map_none, Option.getD_none, ← hrowid, ← hrowid',
        Option.some.inj (hfound.symm.trans hfound')]
  · intro hsame
    by_contra hne
    cases hr : findByName s.1.users a.tenantId a.username with
    | some r =>
      obtain ⟨-, hrname⟩ := name_of_findByName ha.named hr
      rw [hr, Option.map_some, Option.getD_some] at hsame
      rw [hsame, findByName_eq_some hr] at hrow
      obtain ⟨row', hrow', -, hname'⟩ := hgoes
      rw [hsame, findByName_eq_some hr, Option.some.injEq] at hrow'
      refine ha.others b hb (hbt.trans ht) (hbk.trans hk) (hbs ▸ hne) ?_
      rw [hname', hrname, hrow']
    | none =>
      rw [hr, Option.map_none, Option.getD_none] at hsame
      rw [hsame] at hgoes
      exact hne (hbs.symm.trans (congrArg (fun i => i.2.2) (ha.alone hr b hb hgoes)))

/-- The row of an assertion has its name afterwards, and the others keep theirs. -/
theorem goesBy_of_upsert {users' : Users} {past : List Assertion} (ha : OwnName rt users past a)
    (hup : upsertFederated rt users a = .ok (p, users')) :
    GoesBy users' a (accountId rt users a) ∧
      ∀ b ∈ latest past, identity b ≠ identity a → ∀ id, GoesBy users b id → GoesBy users' b id := by
  obtain ⟨name, hname⟩ := Option.isSome_iff_exists.1 ha.named
  rcases upsertFederated_cases hup with
    ⟨r, hr, -, rfl⟩ | ⟨r, hnone, hstable, -, hput⟩ | ⟨name', hnone, hstable, hname', -, hput⟩
  · obtain ⟨hrten, hrname⟩ := name_of_findByName ha.named hr
    have hfind := Indexed.find?_modify users r.id (link a) (fun _ => rfl) (fun _ => rfl)
    refine ⟨⟨link a r, ?_, hrten.symm, hrname⟩, fun b _ _ id hgoes => ?_⟩
    · rw [accountId, hr, Option.map_some, Option.getD_some, hfind, if_pos rfl, findByName_eq_some hr, Option.map_some]
    · obtain ⟨row, hrow, hten, hbname⟩ := hgoes
      rw [GoesBy, hfind, hrow]
      split
      · exact ⟨link a row, rfl, hten, hbname⟩
      · exact ⟨row, rfl, hten, hbname⟩
  · refine ⟨⟨overwrite a r, ?_, rfl, ?_⟩, fun b hb hne id hgoes => ?_⟩
    · rw [accountId, hnone, Option.map_none, Option.getD_none, Indexed.find?_put? hput]
      exact if_pos (Indexed.key_of_find? hstable)
    · rw [hname, overwrite, hname, Option.getD_some]
    · rw [GoesBy, Indexed.find?_put? hput, if_neg]
      · exact hgoes
      · intro hid
        have hkey : r.id = a.stableId rt := Indexed.key_of_find? hstable
        have hrid : a.stableId rt = id := hkey.symm.trans hid
        exact hne (ha.alone hnone b hb (hrid ▸ hgoes))
  · refine ⟨⟨freshRow rt a name', ?_, rfl, hname'⟩, fun b hb _ id hgoes => ?_⟩
    · rw [accountId, hnone, Option.map_none, Option.getD_none, Indexed.find?_put? hput]
      exact if_pos rfl
    · rw [GoesBy, Indexed.find?_put? hput, if_neg]
      · exact hgoes
      · intro hid
        have hrid : a.stableId rt = id := hid
        obtain ⟨row, hrow, -⟩ := hgoes
        rw [← hrid, hstable] at hrow
        cases hrow

/-- **One call.** -/
theorem known_track (h : Known s) (he : Orderly rt s e) : Known (track rt s e) := by
  cases ha : asserted rt e.1 s.1 e.2 with
  | none =>
    rw [track, obtained_of_none ha, ha, Option.toList_none, Option.toList_none, List.append_nil, List.append_nil]
    intro l hl
    obtain ⟨b, hb, hid, hgoes⟩ := h l hl
    exact ⟨b, hb, hid, he.other ha b hb l.row hgoes⟩
  | some a =>
    have hown := he.login a ha
    have hfits := fits_of_ownName h hown
    obtain ⟨⟨p, users'⟩, hup⟩ := @exists_upsertFederated rt s.1.users a (.inr hown.named)
    have husers : (advance rt s.1 e).users = users' := by
      rw [advance, (serve_federated rt e.1 s.1 (isFederated_of_asserted ha)).1]
      simp [upserted, ha, hup, Except.toOption]
    obtain ⟨hgoesA, hkeeps⟩ := goesBy_of_upsert hown hup
    rw [← husers] at hgoesA hkeeps
    have hlatest : ∀ b, b ∈ latest (track rt s e).2.asserted ↔
        b ∈ latest s.2.asserted ∧ identity b ≠ identity a ∨ b = a := by
      intro b
      rw [track, ha]
      exact mem_latest_append
    intro l hl
    rcases List.mem_append.1 hl with hl | hl
    · obtain ⟨b, hb, hid, hgoes⟩ := h l hl
      by_cases hsame : identity b = identity a
      · -- the login is of the same identity, so its row is the one of this assertion
        obtain ⟨ht, hk, hs⟩ : l.tenantId = a.tenantId ∧ l.kind = a.kind ∧ l.subject = a.subject := by
          simpa [identity] using hid.symm.trans hsame
        refine ⟨a, (hlatest a).2 (.inr rfl), hsame.symm.trans hid, ?_⟩
        rw [(hfits l hl ht hk).1 hs]
        exact hgoesA
      · exact ⟨b, (hlatest b).2 (.inl ⟨hb, hsame⟩), hid, hkeeps b hb hsame l.row hgoes⟩
    · obtain ⟨-, rfl⟩ := (obtained_eq ha l).1 (Option.mem_toList.1 hl)
      exact ⟨a, (hlatest a).2 (.inr rfl), rfl, hgoesA⟩

/-- **Identities and accounts.** In a run of federated logins, edits of users and any other calls in which the logins
are under own names and the other calls leave the asserted names alone: of the logins of one tenant and kind that obtain
a session, those with the same subject, and no others, obtain it for the same user row, and no federated login changes
the role or the regions of a stored user. -/
theorem identities_separate {rt : SsoRuntime} {st : AccountStore} {es : List AccountEvent}
    (h : AllSteps (track rt) (Orderly rt) (st, {}) es) :
    Separate (logins rt st es) ∧ ∀ p e q, es = p ++ e :: q → KeepsRights rt (run (advance rt) st p) e := by
  have hempty : Known (st, {}) := fun l hl => nomatch hl
  have hsteps := (allSteps_iff ..).1 h
  have hknown : ∀ p e q, es = p ++ e :: q → Known (run (track rt) (st, {}) p) := by
    rintro p e q rfl
    refine run_invariant (I := Known) (C := fun s e => Orderly rt s e) (fun s e hs he => known_track hs he) hempty ?_
    rw [allSteps_iff]
    rintro p' e' q' rfl
    exact hsteps p' e' (q' ++ e :: q) (by simp)
  rw [separate_logins_iff]
  refine ⟨fun p e q hes a ha _ => ?_, fun p e q hes => keepsRights_iff.2 fun a ha => ?_⟩
  · rw [← run_track_fst (st, {}) p] at ha ⊢
    exact fits_of_ownName (hknown p e q hes) ((hsteps p e q hes).login a ha)
  · rw [← run_track_fst (st, {}) p] at ha ⊢
    exact ((hsteps p e q hes).login a ha).fresh

/-! ### Two persons of a directory -/

theorem KeepsNames.of_rows {past : List Assertion} {users' : Users}
    (h : ∀ row ∈ users.rows, ∃ row' ∈ users'.rows, row'.id = row.id ∧ row'.tenantId = row.tenantId ∧ row'.username = row.username) :
    KeepsNames past users users' := by
  rintro b - id ⟨row, hrow, hten, hname⟩
  obtain ⟨row', hmem, hid', hten', hname'⟩ := h row (Table.mem_of_find? hrow)
  refine ⟨row', ?_, hten.trans hten'.symm, hname.trans (congrArg some hname'.symm)⟩
  rw [← Indexed.key_of_find? hrow]
  exact (congrArg users'.find? hid'.symm).trans (Table.find?_of_mem hmem)

theorem Orderly.of_login (ha : asserted rt e.1 s.1 e.2 = some a) (hown : OwnName rt s.1.users s.2.asserted a) :
    Orderly rt s e :=
  ⟨fun _ hb => Option.some.inj (ha.symm.trans hb) ▸ hown, fun hnone => nomatch ha.symm.trans hnone⟩

def directory : SsoRuntime :=
  { plain with
    search := fun provider filter =>
      let domain := (provider.config.lookup "domain").getD "acme.test"
      .ok (some ⟨some ("uid=" ++ filter), none, [("mail", [filter ++ "@" ++ domain])]⟩) }

def acmeLdap : Moment := { acme with providers := ⟨[⟨"p1", "t1", "ad", .ldap, true, []⟩], by decide⟩ }

def acmeRenamed : Moment :=
  { acme with providers := ⟨[⟨"p1", "t1", "ad", .ldap, true, [("domain", "acme.example")]⟩], by decide⟩ }

def noUsers : AccountStore := { users := .empty }

def promotion : List AccountEvent :=
  [(acmeLdap, .ldapLogin "acme" "ad" "ann" "pw"), (acmeLdap, .ldapLogin "acme" "ad" "bob" "pw"),
    (acme, .updateUser "t1" "fsd-mrbs/t1/uid=ann" { role := .value "Secretary" }),
    (acmeLdap, .ldapLogin "acme" "ad" "ann" "pw"), (acmeRenamed, .ldapLogin "acme" "ad" "bob" "pw")]

/-- Each person keeps the own account, Bob under his new address, and Ann the role she was given. -/
theorem promotion_separate :
    (Separate (logins directory noUsers promotion) ∧
      ∀ p e q, promotion = p ++ e :: q → KeepsRights directory (run (advance directory) noUsers p) e) ∧
    (logins directory noUsers promotion).map (fun l => (l.subject, l.row)) =
      [(some "uid=ann", "fsd-mrbs/t1/uid=ann"), (some "uid=bob", "fsd-mrbs/t1/uid=bob"),
        (some "uid=ann", "fsd-mrbs/t1/uid=ann"), (some "uid=bob", "fsd-mrbs/t1/uid=bob")] := by
  refine ⟨identities_separate ⟨?_, ?_, ?_, ?_, ?_, trivial⟩, by decide⟩
  · exact .of_login rfl ⟨by decide, by decide, by decide, by decide, by decide⟩
  · exact .of_login rfl ⟨by decide, by decide, by decide, by decide, by decide⟩
  · exact ⟨fun a ha => (nomatch ha), fun _ => KeepsNames.of_rows (by decide)⟩
  · exact .of_login rfl ⟨by decide, by decide, by decide, by decide, by decide⟩
  · exact .of_login rfl ⟨by decide, by decide, by decide, by decide, by decide⟩

/-! ### An address that moves to another person -/

def reassigned : SsoRuntime :=
  { plain with
    search := fun _ filter => .ok (some ⟨some ("uid=" ++ filter), none, [("mail", ["sales@acme.test"])]⟩) }

def bothLogIn : List AccountEvent :=
  [(acmeLdap, .ldapLogin "acme" "ad" "ann" "pw"), (acmeLdap, .ldapLogin "acme" "ad" "bob" "pw")]

theorem reassigned_address_shares_account :
    ¬ (Separate (logins reassigned noUsers bothLogIn) ∧
      ∀ p e q, bothLogIn = p ++ e :: q → KeepsRights reassigned (run (advance reassigned) noUsers p) e) := by
  rintro ⟨hsep, -⟩
  have hlogins : logins reassigned noUsers bothLogIn =
      [⟨"t1", .ldap, some "uid=ann", "fsd-mrbs/t1/uid=ann"⟩,
        ⟨"t1", .ldap, some "uid=bob", "fsd-mrbs/t1/uid=ann"⟩] := by
    decide
  rw [hlogins] at hsep
  have hsame := (hsep _ (.head _) _ (.tail _ (.head _)) rfl rfl).2 rfl
  exact absurd hsame (by decide)

end BookingSystem.Runs.Federated
