import Mathlib.Data.Finset.Lattice.Basic
import BookingSystem.Base.Run
import BookingSystem.Base.Fields
import BookingSystem.Model.Permissions
import BookingSystem.Model.Approvals

/-!
# Permissions do not spread

`eff` is what a role may do: the permissions of its row, else the default of the catalog, else nothing. A run of the
service keeps the cache in step with the rows (`Coherent`), so that whoever edits a role is measured against what they
really hold, and no step gives a role more than it had and its editor has (`eff_serve`). An answer of `hasPermission` is
`eff`; there is none for a role without a row that is called like a name every object inherits
(`permissions_bounded_iff`).
-/

namespace BookingSystem.Runs.Permissions

open Base Model Model.PermissionsService

/-- The permissions of a role in a tenant. -/
def eff (rows : Table RoleRow) (tenantId : TenantId) (role : String) : Finset String :=
  match rows.find? (tenantId, role) with
  | some row => row.permissions.toFinset
  | none => (((defaultMatrix.lookup role).getD []).map Perm.key).toFinset

def spread (rows : Table RoleRow) (tenantId : TenantId) : Set String :=
  {p | ∃ role, role ≠ Roles.systemAdmin ∧ p ∈ eff rows tenantId role}

/-- What the actor of a call holds in the tenant. -/
def held (rows : Table RoleRow) (call : Call) (tenantId : TenantId) : Finset String :=
  match call with
  | .setRole t _ _ _ (some actor) => if t = tenantId then eff rows tenantId actor else ∅
  | _ => ∅

/-- An edit of a role is made by someone who is no System Admin. -/
def NonRoot : Call → Prop
  | .setRole _ _ _ _ actor => ∃ role, actor = some role ∧ role ≠ Roles.systemAdmin
  | _ => True

/-- The role has a row, or its name is not one that every object inherits. -/
def Answerable (rows : Table RoleRow) (tenantId : TenantId) (role : String) : Prop :=
  (rows.find? (tenantId, role)).isSome = true ∨ role ∉ inheritedNames

/-! ### The keys of the cache -/

section Keys

theorem toList_cacheKey (t : TenantId) (role : String) :
    (cacheKey t role).toList = t.text.toList ++ ':' :: ':' :: role.toList := by
  simp [cacheKey, String.toList_append]

theorem tenantId_ext {t t' : TenantId} (h : t.text.toList = t'.text.toList) : t = t' := by
  cases t
  cases t'
  simpa [String.toList_inj] using h

theorem cacheKey_inj {t t' : TenantId} {role role' : String} (h : cacheKey t role = cacheKey t' role') :
    t = t' ∧ role = role' := by
  have hlist := congrArg String.toList h
  rw [toList_cacheKey, toList_cacheKey] at hlist
  obtain ⟨ht, hrest⟩ := eq_of_append_sep t.no_colon t'.no_colon hlist
  exact ⟨tenantId_ext ht, String.toList_inj.1 (List.cons.inj hrest).2⟩

theorem prefix_cacheKey {t t' : TenantId} {role : String} :
    (t.text ++ "::").toList <+: (cacheKey t' role).toList ↔ t = t' := by
  constructor
  · rintro ⟨rest, hrest⟩
    rw [toList_cacheKey, String.toList_append, List.append_assoc] at hrest
    exact tenantId_ext (eq_of_append_sep t.no_colon t'.no_colon hrest).1
  · rintro rfl
    refine ⟨role.toList, ?_⟩
    simp [cacheKey, String.toList_append]

end Keys

/-! ### Reading permissions -/

section Reads

variable {st : State} {rows : Table RoleRow} {clock : Clock} {t : TenantId} {role : String}

theorem mem_of_lookup {ps : List Perm} (h : defaultMatrix.lookup role = some ps) : (role, ps) ∈ defaultMatrix := by
  obtain ⟨l₁, l₂, hl, -⟩ := List.lookup_eq_some_iff.1 h
  rw [hl]
  exact List.mem_append_right _ List.mem_cons_self

theorem inherited_not_default : ∀ p ∈ defaultMatrix, p.1 ∉ inheritedNames := by decide

theorem resolve_eq_ok {perms : Finset String} :
    resolve rows t role = .ok perms ↔ Answerable rows t role ∧ perms = eff rows t role := by
  unfold resolve eff Answerable
  cases hrow : rows.find? (t, role) with
  | some row => simp [eq_comm]
  | none =>
    cases hdefault : defaultMatrix.lookup role with
    | some ps =>
      have hname : role ∉ inheritedNames := inherited_not_default _ (mem_of_lookup hdefault)
      simp [hname, eq_comm]
    | none =>
      by_cases hname : role ∈ inheritedNames
      · simp [hname]
      · have hempty : ([] : List String).toFinset = ∅ := rfl
        simp [hname, hempty, @eq_comm _ ∅]

/-- The entries of the cache are what a read would find. -/
def Coherent (st : State) : Prop :=
  ∀ t role hit, st.cache (cacheKey t role) = some hit → resolve st.rows t role = .ok hit.perms

theorem coherent_readPerms (h : Coherent st) : Coherent (readPerms clock t role st).2 := by
  unfold readPerms
  cases hread : resolve st.rows t role with
  | error e => exact h
  | ok perms =>
    intro t' role' hit hhit
    dsimp only at hhit ⊢
    by_cases hkey : cacheKey t' role' = cacheKey t role
    · obtain ⟨rfl, rfl⟩ := cacheKey_inj hkey
      rw [Function.update_self, Option.some.injEq] at hhit
      rw [← hhit]
      exact hread
    · rw [Function.update_of_ne hkey] at hhit
      exact h t' role' hit hhit

theorem readPerms_fst : (readPerms clock t role st).1 = resolve st.rows t role := by
  unfold readPerms
  cases resolve st.rows t role <;> rfl

theorem readPerms_rows : (readPerms clock t role st).2.rows = st.rows := by
  unfold readPerms
  cases resolve st.rows t role <;> rfl

theorem permsForRole_rows : (permsForRole clock t role st).2.rows = st.rows := by
  unfold permsForRole
  split
  · split
    · rfl
    · exact readPerms_rows
  · exact readPerms_rows

theorem permsForRole_fst (h : Coherent st) : (permsForRole clock t role st).1 = resolve st.rows t role := by
  unfold permsForRole
  split
  · rename_i hit hhit
    split
    · exact (h t role hit hhit).symm
    · exact readPerms_fst
  · exact readPerms_fst

theorem coherent_permsForRole (h : Coherent st) : Coherent (permsForRole clock t role st).2 := by
  unfold permsForRole
  split
  · split
    · exact h
    · exact coherent_readPerms h
  · exact coherent_readPerms h

theorem coherent_dropLocal {payload : String} (h : Coherent st) : Coherent (dropLocal payload st) := by
  unfold dropLocal
  split
  · exact fun _ _ _ hhit => nomatch hhit
  · intro t role hit hhit
    dsimp only at hhit
    split at hhit
    · cases hhit
    · exact h t role hit hhit

theorem coherent_invalidate {rows' : Table RoleRow} (h : Coherent st)
    (hother : ∀ t' role, t ≠ t' → rows'.find? (t', role) = st.rows.find? (t', role)) :
    Coherent (invalidate t { st with rows := rows' }) := by
  unfold invalidate dropLocal
  split
  · exact fun _ _ _ hhit => nomatch hhit
  · intro t' role hit hhit
    dsimp only at hhit
    split at hhit
    · cases hhit
    · rename_i hkeep
      have hne : t ≠ t' := fun e => hkeep (prefix_cacheKey.2 e)
      have hread := h t' role hit hhit
      unfold resolve at hread ⊢
      rw [hother t' role hne]
      exact hread

theorem invalidate_rows : (invalidate t st).rows = st.rows := by
  unfold invalidate dropLocal
  split <;> rfl

theorem hasPermission_iff (h : Coherent st) :
    (∀ p, (hasPermission clock t role p st).1 = .ok (decide (p ∈ eff st.rows t role))) ↔
      Answerable st.rows t role := by
  simp only [hasPermission, permsForRole_fst h]
  constructor
  · intro hall
    have hone := hall ""
    cases hread : resolve st.rows t role with
    | error e =>
      rw [hread] at hone
      cases hone
    | ok perms => exact (resolve_eq_ok.1 hread).1
  · intro hans p
    rw [resolve_eq_ok.2 ⟨hans, rfl⟩]
    rfl

end Reads

/-! ### Writing rows -/

section Writes

variable {rt : Runtime} {st : State} {rows rows' : Table RoleRow} {clock : Clock} {t : TenantId} {role : String}

/-- The rows of `rows'` are those of `rows`, but for the role `role` of the tenant `t`. -/
def Edited (rows rows' : Table RoleRow) (t : TenantId) (role : String) (new : Option RoleRow) : Prop :=
  ∀ k, rows'.find? k = if (t, role) = k then new else rows.find? k

theorem Edited.coherent {new : Option RoleRow} (h : Coherent st) (hrows : Edited st.rows rows' t role new) :
    Coherent (invalidate t { st with rows := rows' }) := by
  refine coherent_invalidate h fun t' role' hne => ?_
  rw [hrows, if_neg fun e => hne (Prod.mk.inj e).1]

theorem eff_congr {t' : TenantId} {role' : String} (h : rows'.find? (t', role') = rows.find? (t', role')) :
    eff rows' t' role' = eff rows t' role' := by
  unfold eff
  rw [h]

theorem Edited.eff_subset {new : Option RoleRow} {more : TenantId → Finset String}
    (hrows : Edited rows rows' t role new) (hself : eff rows' t role ⊆ eff rows t role ∪ more t)
    (t' : TenantId) (role' : String) : eff rows' t' role' ⊆ eff rows t' role' ∪ more t' := by
  by_cases hk : (t, role) = (t', role')
  · obtain ⟨rfl, rfl⟩ := Prod.mk.inj hk
    exact hself
  · have hsame : eff rows' t' role' = eff rows t' role' := eff_congr (by rw [hrows, if_neg hk])
    rw [hsame]
    exact Finset.subset_union_left

theorem saveRow_ok {permissions : List String} (h : saveRow clock t role permissions rows = .ok rows') :
    Edited rows rows' t role (some ⟨t, role, permissions, clock.saved⟩) := by
  intro k
  unfold saveRow at h
  cases hrow : rows.find? (t, role) with
  | some row =>
    simp only [hrow, Except.ok.injEq] at h
    subst h
    rw [Table.find?_save, key_row]
    by_cases hk : (t, role) = k
    · subst hk
      simp [hrow]
    · simp [hk]
  | none =>
    simp only [hrow, bind_eq_ok, found_eq_ok] at h
    obtain ⟨-, -, hins⟩ := h
    rw [Table.find?_insert? hins, key_row]

theorem find?_seeds (t' : TenantId) : ((seeds clock t).find? fun row => decide (key row = (t', role))) =
    if t = t' then (defaultMatrix.lookup role).map fun ps => ⟨t, role, ps.map Perm.key, clock.saved⟩ else none := by
  unfold seeds
  induction defaultMatrix with
  | nil => simp
  | cons p l ih =>
    rw [List.map_cons, List.find?_cons, List.lookup_cons, ih]
    by_cases ht : t = t'
    · subst ht
      by_cases hp : p.1 = role
      · subst hp
        simp
      · have hne : (role == p.1) = false := by simpa using Ne.symm hp
        simp [hp, hne]
    · simp [ht]

/-- Seeding writes the default rows of a tenant that has none: a read finds what it found before. -/
theorem find?_get (t' : TenantId) :
    (get rt clock t st).2.rows.find? (t', role) = st.rows.find? (t', role) ∨
      (st.rows.find? (t', role) = none ∧ ∃ ps, defaultMatrix.lookup role = some ps ∧
        (get rt clock t st).2.rows.find? (t', role) = some ⟨t', role, ps.map Perm.key, clock.saved⟩) := by
  simp only [PermissionsService.get]
  split
  · split
    · rename_i hempty rows hins
      simp only [Table.find?_insertAll? hins, find?_seeds]
      cases hrow : st.rows.find? (t', role) with
      | some row => exact .inl rfl
      | none =>
        by_cases ht : t = t'
        · subst ht
          cases hps : defaultMatrix.lookup role with
          | none => exact .inl (by simp)
          | some ps => exact .inr ⟨rfl, ps, rfl, by simp⟩
        · exact .inl (by simp [ht])
    · exact .inl rfl
  · exact .inl rfl

theorem get_cache : (get rt clock t st).2.cache = st.cache := by
  simp only [PermissionsService.get]
  split
  · split <;> rfl
  · rfl

theorem eff_get (t' : TenantId) (role' : String) : eff (get rt clock t st).2.rows t' role' = eff st.rows t' role' := by
  rcases find?_get t' with h | ⟨hnone, ps, hps, h⟩
  · exact eff_congr h
  · simp [eff, h, hnone, hps]

theorem coherent_get (h : Coherent st) : Coherent (get rt clock t st).2 := by
  intro t' role' hit hhit
  rw [get_cache] at hhit
  have hread := h t' role' hit hhit
  rcases find?_get t' with hsame | ⟨hnone, ps, hps, hrow⟩
  · unfold resolve at hread ⊢
    rw [hsame]
    exact hread
  · simpa [resolve, hnone, hps, hrow] using hread

end Writes

/-! ### One call -/

section Calls

variable {rt : Runtime} {st : State} {clock : Clock} {t : TenantId} {role : String}

theorem assertGrants_rows {actor : Option String} {previous next : List String} :
    (assertGrants clock t actor previous next st).2.rows = st.rows := by
  unfold assertGrants
  split
  · rfl
  · split
    · rfl
    · exact permsForRole_rows

theorem coherent_assertGrants {actor : Option String} {previous next : List String} (h : Coherent st) :
    Coherent (assertGrants clock t actor previous next st).2 := by
  unfold assertGrants
  split
  · exact h
  · split
    · exact h
    · exact coherent_permsForRole h

theorem assertGrants_ok {actor : String} {previous next : List String} (h : Coherent st)
    (hactor : actor ≠ Roles.systemAdmin)
    (hok : (assertGrants clock t (some actor) previous next st).1 = .ok ()) :
    ∀ p ∈ next, p ∈ previous ∨ p ∈ eff st.rows t actor := by
  simp only [assertGrants, if_neg hactor, permsForRole_fst h] at hok
  obtain ⟨perms, hread, hnone⟩ := bind_eq_ok.1 hok
  obtain ⟨-, rfl⟩ := resolve_eq_ok.1 hread
  rw [require_eq_ok, List.isEmpty_iff, List.filter_eq_nil_iff] at hnone
  intro p hp
  have hp' := hnone p hp
  simp only [Bool.and_eq_true, Bool.not_eq_true', List.contains_eq_mem, decide_eq_false_iff_not, decide_eq_true_eq,
    not_and_or, not_not] at hp'
  exact hp'

/-- What an edit of a role leaves: the rows as they were, or the row of the role with permissions that the role or the
actor had. -/
theorem setRole_cases {permissions : List String} {version : Option String} {actor : String} (h : Coherent st)
    (hactor : actor ≠ Roles.systemAdmin) :
    Coherent (setRole rt clock t role permissions version (some actor) st).2 ∧
      ((setRole rt clock t role permissions version (some actor) st).2.rows = st.rows ∨
        ∃ row, Edited st.rows (setRole rt clock t role permissions version (some actor) st).2.rows t role (some row) ∧
          ∀ p ∈ row.permissions, p ∈ eff st.rows t role ∪ eff st.rows t actor) := by
  unfold setRole
  split
  · exact ⟨h, .inl rfl⟩
  · dsimp only
    split
    · exact ⟨h, .inl rfl⟩
    · have hrows := @assertGrants_rows st clock t (some actor)
        (((st.rows.find? (t, role)).map (·.permissions)).getD []) (clean permissions)
      have hcoh := @coherent_assertGrants st clock t (some actor)
        (((st.rows.find? (t, role)).map (·.permissions)).getD []) (clean permissions) h
      split
      · exact ⟨hcoh, .inl hrows⟩
      · rename_i hok
        split
        · exact ⟨hcoh, .inl hrows⟩
        · rename_i rows' hsave
          have hedit := saveRow_ok hsave
          refine ⟨hedit.coherent hcoh, .inr ⟨⟨t, role, clean permissions, clock.saved⟩, ?_, ?_⟩⟩
          · rw [invalidate_rows]
            rw [hrows] at hedit
            exact hedit
          · intro p hp
            rw [Finset.mem_union]
            refine (assertGrants_ok h hactor hok p hp).imp_left fun hprev => ?_
            unfold eff
            cases hrow : st.rows.find? (t, role) with
            | none => simp [hrow] at hprev
            | some row => simpa [hrow] using hprev

theorem createRole_cases {name : String} (h : Coherent st) :
    Coherent (createRole rt clock t name st).2 ∧
      ((createRole rt clock t name st).2.rows = st.rows ∨
        ∃ role row, Edited st.rows (createRole rt clock t name st).2.rows t role (some row) ∧
          row.permissions = []) := by
  unfold createRole
  split
  · exact ⟨h, .inl rfl⟩
  · rename_i role hname
    split
    · exact ⟨h, .inl rfl⟩
    · rename_i rows' hsave
      have hedit := saveRow_ok hsave
      refine ⟨hedit.coherent h, .inr ⟨role, ⟨t, role, [], clock.saved⟩, ?_, rfl⟩⟩
      rw [invalidate_rows]
      exact hedit

theorem deleteRole_cases {users : Table User} (h : Coherent st) :
    Coherent (deleteRole users t role st).2 ∧
      ((deleteRole users t role st).2.rows = st.rows ∨
        Edited st.rows (deleteRole users t role st).2.rows t role none ∧ role ∉ systemRoles) := by
  unfold deleteRole
  dsimp only
  split
  · exact ⟨h, .inl rfl⟩
  · rename_i hsystem
    split
    · exact ⟨h, .inl rfl⟩
    · split
      · exact ⟨h, .inl rfl⟩
      · have hedit : Edited st.rows (st.rows.delete (t, role)) t role none := fun k => by
          rw [Table.find?_delete]
        refine ⟨hedit.coherent h, .inr ⟨?_, by simpa using hsystem⟩⟩
        rw [invalidate_rows]
        exact hedit

/-- **One call.** The cache stays in step with the rows. -/
theorem coherent_serve {call : Call} (h : Coherent st) (hactor : NonRoot call) :
    Coherent (serve rt st (clock, call)) := by
  cases call with
  | hasPermission t role p => exact coherent_permsForRole h
  | get t => exact coherent_get h
  | setRole t role permissions version actor =>
    obtain ⟨a, rfl, ha⟩ := hactor
    exact (setRole_cases h ha).1
  | createRole t name => exact (createRole_cases h).1
  | deleteRole users t role => exact (deleteRole_cases h).1
  | message payload => exact coherent_dropLocal h

theorem eff_of_same {rows : Table RoleRow} {more : TenantId → Finset String} (h : rows = st.rows) (t : TenantId)
    (role : String) : eff rows t role ⊆ eff st.rows t role ∪ more t := by
  rw [h]
  exact Finset.subset_union_left

/-- **One call.** No role gets more than it had and the actor holds. -/
theorem eff_serve {call : Call} (h : Coherent st) (hactor : NonRoot call) (t' : TenantId) (role' : String) :
    eff (serve rt st (clock, call)).rows t' role' ⊆ eff st.rows t' role' ∪ held st.rows call t' := by
  cases call with
  | hasPermission t role p => exact eff_of_same permsForRole_rows t' role'
  | get t =>
    have hsame := @eff_get rt st clock t t' role'
    simp only [serve, hsame]
    exact Finset.subset_union_left
  | setRole t role permissions version actor =>
    obtain ⟨a, rfl, ha⟩ := hactor
    simp only [serve]
    rcases (@setRole_cases rt st clock t role permissions version a h ha).2 with hsame | ⟨row, hedit, hperms⟩
    · exact eff_of_same hsame t' role'
    · refine hedit.eff_subset ?_ t' role'
      have hheld : held st.rows (.setRole t role permissions version (some a)) t = eff st.rows t a := if_pos rfl
      rw [hheld]
      intro p hp
      rw [eff, hedit, if_pos rfl] at hp
      exact hperms p (List.mem_toFinset.1 hp)
  | createRole t name =>
    simp only [serve]
    rcases (@createRole_cases rt st clock t name h).2 with hsame | ⟨role, row, hedit, hperms⟩
    · exact eff_of_same hsame t' role'
    · refine hedit.eff_subset ?_ t' role'
      intro p hp
      rw [eff, hedit, if_pos rfl] at hp
      simp [hperms] at hp
  | deleteRole users t role =>
    simp only [serve]
    rcases (@deleteRole_cases st t role users h).2 with hsame | ⟨hedit, hsystem⟩
    · exact eff_of_same hsame t' role'
    · refine hedit.eff_subset ?_ t' role'
      intro p hp
      have hnone : defaultMatrix.lookup role = none := by
        rw [List.lookup_eq_none_iff]
        intro q hq
        rw [bne_iff_ne]
        rintro rfl
        exact hsystem (List.mem_map.2 ⟨q, hq, rfl⟩)
      rw [eff, hedit, if_pos rfl] at hp
      simp [hnone] at hp
  | message payload =>
    have hrows : (dropLocal payload st).rows = st.rows := by
      unfold dropLocal
      split <;> rfl
    exact eff_of_same hrows t' role'

theorem spread_serve {call : Call} (h : Coherent st) (hactor : NonRoot call) (t' : TenantId) :
    spread (serve rt st (clock, call)).rows t' ⊆ spread st.rows t' := by
  rintro p ⟨role, hrole, hp⟩
  rcases Finset.mem_union.1 (eff_serve h hactor t' role hp) with hp | hp
  · exact ⟨role, hrole, hp⟩
  · -- the actor holds it, and is no System Admin
    cases call with
    | setRole t role permissions version actor =>
      obtain ⟨a, rfl, ha⟩ := hactor
      simp only [held] at hp
      split at hp
      · exact ⟨a, ha, hp⟩
      · simp at hp
    | _ => simp [held] at hp

end Calls

/-! ### The other reader -/

/-- The approvals ask for one permission of a role, and read `eff` too. -/
theorem mayApprove_eq {env : Env} {rows : Table RoleRow} {t : TenantId} {role : String}
    (henv : env.rolePermissions = rows.rows.map fun row => ⟨row.tenantId.text, row.role, row.permissions⟩) :
    ApprovalsService.mayApprove env t.text role = decide (Perm.approvalDecide.key ∈ eff rows t role) := by
  have hfind : (env.rolePermissions.find? fun p => p.tenantId == t.text && p.role == role) =
      (rows.find? (t, role)).map fun row => ⟨row.tenantId.text, row.role, row.permissions⟩ := by
    rw [henv, List.find?_map, Table.find?]
    congr 2
    funext row
    have htext : row.tenantId.text = t.text ↔ row.tenantId = t :=
      ⟨fun h => tenantId_ext (congrArg String.toList h), fun h => congrArg TenantId.text h⟩
    rw [Bool.eq_iff_iff]
    simp [htext]
  unfold ApprovalsService.mayApprove eff
  rw [hfind]
  cases hrow : rows.find? (t, role) with
  | some row => simp [ApprovalsService.approvalDecide, Perm.key]
  | none =>
    have hdefault : ∀ p ∈ defaultMatrix, ApprovalsService.defaultDeciders.contains p.1 =
        decide (Perm.approvalDecide.key ∈ (p.2.map Perm.key).toFinset) := by decide
    have hdecider : ∀ r ∈ ApprovalsService.defaultDeciders, r ∈ systemRoles := by decide
    cases hps : defaultMatrix.lookup role with
    | some ps => exact hdefault (role, ps) (mem_of_lookup hps)
    | none =>
      have hnot : role ∉ ApprovalsService.defaultDeciders := by
        intro hmem
        obtain ⟨p, hp, rfl⟩ := List.mem_map.1 (hdecider role hmem)
        simpa using List.lookup_eq_none_iff.1 hps p hp
      simpa using hnot

/-! ### A run -/

def start (rows : Table RoleRow) : State := ⟨rows, fun _ => none⟩

theorem coherent_start (rows : Table RoleRow) : Coherent (start rows) := fun _ _ _ h => nomatch h

/-- **Permissions.** In every run whose edits are made by actors other than the System Admin, no step gives a role more
than it had and the actor holds, what the roles hold between them does not grow, and after every step `hasPermission`
answers `eff` for a role if and only if the role has a row or its name is not inherited by every object. -/
theorem permissions_bounded_iff (rt : Runtime) (rows : Table RoleRow) (calls : List (Clock × Call))
    (hactor : ∀ e ∈ calls, NonRoot e.2) (before : List (Clock × Call)) (e : Clock × Call) (after : List (Clock × Call))
    (hcalls : calls = before ++ e :: after) :
    let st := run (serve rt) (start rows) before
    let st' := serve rt st e
    (∀ t role, eff st'.rows t role ⊆ eff st.rows t role ∪ held st.rows e.2 t) ∧
      (∀ t, spread st'.rows t ⊆ spread st.rows t) ∧
      ∀ clock t role, (∀ p, (hasPermission clock t role p st').1 = .ok (decide (p ∈ eff st'.rows t role))) ↔
        Answerable st'.rows t role := by
  have hbefore : Coherent (run (serve rt) (start rows) before) := by
    refine run_invariant (C := fun _ (e : Clock × Call) => NonRoot e.2) (fun s e h he => coherent_serve h he)
      (coherent_start rows) ?_
    rw [allSteps_iff]
    intro p e' r hp
    refine hactor e' ?_
    rw [hcalls, hp]
    simp
  have he : NonRoot e.2 := hactor e (by simp [hcalls])
  exact ⟨eff_serve hbefore he, spread_serve hbefore he,
    fun clock t role => hasPermission_iff (coherent_serve hbefore he)⟩

/-! ### An edit, and a question without an answer -/

def tenant : TenantId := ⟨"t", by decide⟩

def noon : Clock := ⟨0, 0, 0⟩

def runtime : Runtime := ⟨id, fun _ => "1970-01-01T00:00:00.000Z"⟩

def promotion : Clock × Call :=
  (noon, .setRole tenant Roles.secretary ["booking.create", "resource.create"] none (some Roles.roomAdmin))

theorem permissions_bounded_promotion :
    let st' := serve runtime (start .empty) promotion
    (∀ t role, eff st'.rows t role ⊆ eff Table.empty t role ∪ held Table.empty promotion.2 t) ∧
      (∀ t, spread st'.rows t ⊆ spread Table.empty t) ∧
      ∀ clock t role, (∀ p, (hasPermission clock t role p st').1 = .ok (decide (p ∈ eff st'.rows t role))) ↔
        Answerable st'.rows t role :=
  permissions_bounded_iff runtime .empty [promotion]
    (List.forall_mem_singleton.2 ⟨Roles.roomAdmin, rfl, by decide⟩) [] promotion [] rfl

/-- A role that is called like an inherited name and has no row. After the matrix was opened, the question whether it
has a permission has no answer, where `eff` is empty. -/
theorem inherited_name_unanswered :
    let st := serve runtime (start .empty) (noon, .get tenant)
    (hasPermission noon tenant "constructor" "booking.create" st).1 =
        .error (.internal "TypeError: object is not iterable") ∧
      eff st.rows tenant "constructor" = ∅ := by
  constructor
  · rfl
  · rfl

end BookingSystem.Runs.Permissions
