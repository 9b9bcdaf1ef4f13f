import BookingSystem.Runs.Permissions
import Mathlib.Logic.Function.Basic

/-!
# Edits of the permission matrix beside reads through the cache

Calls of `hasPermission` and `setRole` side by side in one process. A call goes from one `await` to the next; meanwhile
the database takes its statement, and the other calls go on. So a read that has missed the cache can store what it was
told after the row was written and the entries of the tenant were dropped. When no read does, whoever asks after an edit
has returned is answered by it, until the role is written again (`edit_seen`).
-/

namespace BookingSystem.Concurrency.Revocations

open Base Model Model.PermissionsService

/-! ### The calls -/

/-- The arguments of `setRole`. -/
structure Edit where
  tenantId : TenantId
  role : String
  permissions : List String
  expectedVersion : Option String := none
  actor : Option String := none

/-- The arguments of `hasPermission`. -/
structure Question where
  tenantId : TenantId
  role : String
  permission : String

inductive Job
  | ask (q : Question)
  | edit (e : Edit)

/-- What the permissions of a role are looked up for: the answer to a question, or the check of an edit by an actor that
has found a row or none. -/
inductive Use
  | answer (q : Question)
  | grant (e : Edit) (existing : Option RoleRow) (actor : String)

def Use.tenantId : Use → TenantId
  | .answer q => q.tenantId
  | .grant e _ _ => e.tenantId

def Use.role : Use → String
  | .answer q => q.role
  | .grant _ _ actor => actor

/-- How far a call is: it waits for the database (`loading`, `asking`, `saving`), it has the answer of the database and
waits for its turn (`loaded`, `told`, `saved`), or it has come to its end. -/
inductive Phase
  | ready
  | loading (e : Edit)
  | loaded (e : Edit) (existing : Option RoleRow)
  | asking (use : Use)
  | told (use : Use) (found : Except HttpError (Finset String))
  | saving (e : Edit) (existing : Option RoleRow)
  | saved (e : Edit) (result : SetRoleResult)
  | answered (q : Question) (answer : Bool)
  | wrote (e : Edit) (result : SetRoleResult)
  | failed (e : HttpError)

def previous (existing : Option RoleRow) : List String := (existing.map (·.permissions)).getD []

def checkGrants (previous next : List String) (actorPerms : Finset String) : Except HttpError Unit :=
  let escalated := next.filter fun p => !previous.contains p && decide (p ∉ actorPerms)
  require escalated.isEmpty (.forbidden ("You cannot grant permission(s) you do not hold yourself: " ++
    ", ".intercalate escalated ++ "."))

/-- A call goes on with the permissions it has asked for. -/
def Use.next (perms : Finset String) : Use → Phase
  | .answer q => .answered q (decide (q.permission ∈ perms))
  | .grant e existing _ =>
    match checkGrants (previous existing) (clean e.permissions) perms with
    | .ok _ => .saving e existing
    | .error err => .failed err

/-- `permsForRole` as far as its `await`. -/
def lookUp (now : Instant) (cache : String → Option CacheEntry) (use : Use) : Phase :=
  match cache (cacheKey use.tenantId use.role) with
  | some hit => if now < hit.expiresAt then use.next hit.perms else .asking use
  | none => .asking use

/-- A call begins. -/
def begin (now : Instant) (cache : String → Option CacheEntry) : Job → Phase
  | .ask q => lookUp now cache (.answer q)
  | .edit e =>
    if e.role = Roles.systemAdmin then
      .failed (.forbidden "The System Admin role is immutable and cannot be edited.")
    else .loading e

/-- `setRole` goes on with the row that it has found. -/
def afterLoad (rt : Runtime) (now : Instant) (cache : String → Option CacheEntry) (e : Edit)
    (existing : Option RoleRow) : Phase :=
  if isStale rt e.expectedVersion existing then
    .failed (.conflict ("The \"" ++ e.role ++
      "\" permissions were changed by someone else. Reload and re-apply your edits."))
  else
    match e.actor with
    | none => .saving e existing
    | some actor =>
      if actor = Roles.systemAdmin then .saving e existing else lookUp now cache (.grant e existing actor)

/-- `repo.save` of a row that was found, or of a new one. A row that was found is looked up again. -/
def persist (existing : Option RoleRow) (row : RoleRow) (rows : Table RoleRow) : Except HttpError (Table RoleRow) :=
  if existing.isSome && (rows.find? (key row)).isSome then .ok (rows.save row)
  else do
    require (row.role.length ≤ 64) (.internal "value too long for type character varying(64)")
    found (rows.insert? row) (.internal "duplicate key value violates unique constraint")

/-! ### The process -/

/-- The rows and the cache, how far each call is, and which call was the last to write a role. -/
structure State (ι : Type) where
  store : PermissionsService.State
  phase : ι → Phase := fun _ => .ready
  writer : TenantId × String → Option ι := fun _ => none

def start {ι : Type} (rows : Table RoleRow) : State ι := { store := ⟨rows, fun _ => none⟩ }

/-- What happens: a call begins, the database takes or rejects the statement that a call waits for, a call goes on after
its `await`, or a message of the invalidation channel comes in. -/
inductive Event (ι : Type)
  | call (i : ι) (job : Job) (now : Instant)
  | query (i : ι) (now : Instant)
  | reject (i : ι) (err : HttpError)
  | resume (i : ι) (now : Instant)
  | message (tenantId : String)

variable {ι : Type} [DecidableEq ι]

def State.goto (s : State ι) (i : ι) (phase : Phase) : State ι := { s with phase := Function.update s.phase i phase }

def keep (now : Instant) (use : Use) (perms : Finset String) (st : PermissionsService.State) :
    PermissionsService.State :=
  { st with cache := Function.update st.cache (cacheKey use.tenantId use.role) (some ⟨perms, now + cacheTtlMs⟩) }

def step (rt : Runtime) (s : State ι) : Event ι → State ι
  | .call i job now =>
    match s.phase i with
    | .ready => s.goto i (begin now s.store.cache job)
    | _ => s
  | .query i now =>
    match s.phase i with
    | .loading e => s.goto i (.loaded e (s.store.rows.find? (e.tenantId, e.role)))
    | .asking use => s.goto i (.told use (resolve s.store.rows use.tenantId use.role))
    | .saving e existing =>
      match persist existing ⟨e.tenantId, e.role, clean e.permissions, now⟩ s.store.rows with
      | .error err => s.goto i (.failed err)
      | .ok rows =>
        { s.goto i (.saved e ⟨previous existing, clean e.permissions, rt.toISOString now⟩) with
          store := { s.store with rows := rows }
          writer := Function.update s.writer (e.tenantId, e.role) (some i) }
    | _ => s
  | .reject i err =>
    match s.phase i with
    | .loading _ | .asking _ | .saving _ _ => s.goto i (.failed err)
    | _ => s
  | .resume i now =>
    match s.phase i with
    | .loaded e existing => s.goto i (afterLoad rt now s.store.cache e existing)
    | .told use (.ok perms) => { s.goto i (use.next perms) with store := keep now use perms s.store }
    | .told _ (.error err) => s.goto i (.failed err)
    | .saved e result => { s.goto i (.wrote e result) with store := invalidate e.tenantId s.store }
    | _ => s
  | .message tenantId => { s with store := dropLocal tenantId s.store }

/-! ### A call alone -/

def askAlone (i : ι) (q : Question) (clock : Clock) : List (Event ι) :=
  [.call i (.ask q) clock.checked, .query i clock.saved, .resume i clock.cached]

def editLoads (i : ι) (e : Edit) (clock : Clock) : List (Event ι) :=
  [.call i (.edit e) clock.checked, .query i clock.saved, .resume i clock.checked]

def editAlone (i : ι) (e : Edit) (clock : Clock) : List (Event ι) :=
  editLoads i e clock ++ [.query i clock.saved, .resume i clock.cached, .query i clock.saved, .resume i clock.cached]

section Alone

variable {rt : Runtime} {s : State ι} {i : ι} {clock : Clock}

theorem phase_goto (s : State ι) (i : ι) (phase : Phase) (j : ι) :
    (s.goto i phase).phase j = if j = i then phase else s.phase j := by
  simp only [State.goto, Function.update_apply]

@[simp] theorem phase_goto_self (s : State ι) (i : ι) (phase : Phase) : (s.goto i phase).phase i = phase := by
  rw [phase_goto, if_pos rfl]

@[simp] theorem store_goto (s : State ι) (i : ι) (phase : Phase) : (s.goto i phase).store = s.store := rfl

theorem lookUp_cases (use : Use) (st : PermissionsService.State) :
    (∃ perms, permsForRole clock use.tenantId use.role st = (.ok perms, st) ∧
      lookUp clock.checked st.cache use = use.next perms) ∨
    permsForRole clock use.tenantId use.role st = readPerms clock use.tenantId use.role st ∧
      lookUp clock.checked st.cache use = .asking use := by
  unfold lookUp permsForRole
  cases st.cache (cacheKey use.tenantId use.role) with
  | none => exact .inr ⟨rfl, rfl⟩
  | some hit =>
    by_cases hlt : clock.checked < hit.expiresAt
    · exact .inl ⟨hit.perms, if_pos hlt, if_pos hlt⟩
    · exact .inr ⟨if_neg hlt, if_neg hlt⟩

theorem run_askAlone (hi : s.phase i = .ready) (q : Question) :
    let out := hasPermission clock q.tenantId q.role q.permission s.store
    let s' := run (step rt) s (askAlone i q clock)
    s'.store = out.2 ∧ s'.phase i = match out.1 with
      | .ok answer => .answered q answer
      | .error e => .failed e := by
  simp only [askAlone, run_cons, run_nil, step, hi, begin, hasPermission]
  rcases @lookUp_cases clock (.answer q) s.store with ⟨perms, hperms, hlook⟩ | ⟨hperms, hlook⟩
  · simp only [Use.tenantId, Use.role] at hperms
    simp [hlook, hperms, Use.next, Except.map]
  · simp only [Use.tenantId, Use.role] at hperms
    simp only [hlook, hperms, phase_goto_self, store_goto, readPerms, Use.tenantId, Use.role]
    cases resolve s.store.rows q.tenantId q.role with
    | error e => simp [Except.map]
    | ok perms => simp [Except.map, Use.next, keep, Use.tenantId, Use.role]

def ended (e : Edit) : Except HttpError SetRoleResult → Phase
  | .ok result => .wrote e result
  | .error err => .failed err

theorem step_ended {e : Edit} {out : Except HttpError SetRoleResult} (h : s.phase i = ended e out) (now : Instant) :
    step rt s (.query i now) = s ∧ step rt s (.resume i now) = s := by
  cases out <;> simp only [step, h, ended, and_self]

/-- What `setRole` leaves once the grants are checked. -/
def written (rt : Runtime) (clock : Clock) (e : Edit) (st : PermissionsService.State) :
    Except HttpError SetRoleResult × PermissionsService.State :=
  match saveRow clock e.tenantId e.role (clean e.permissions) st.rows with
  | .error err => (.error err, st)
  | .ok rows => (.ok ⟨previous (st.rows.find? (e.tenantId, e.role)), clean e.permissions, rt.toISOString clock.saved⟩,
      invalidate e.tenantId { st with rows := rows })

/-- What `setRole` leaves once the permissions of its actor are known. -/
def granted (rt : Runtime) (clock : Clock) (e : Edit) (perms : Finset String) (st : PermissionsService.State) :
    Except HttpError SetRoleResult × PermissionsService.State :=
  match checkGrants (previous (st.rows.find? (e.tenantId, e.role))) (clean e.permissions) perms with
  | .error err => (.error err, st)
  | .ok _ => written rt clock e st

theorem run_saving {e : Edit} {now : Instant} (h : s.phase i = .saving e (s.store.rows.find? (e.tenantId, e.role))) :
    let s' := run (step rt) s [.query i clock.saved, .resume i now]
    s'.store = (written rt clock e s.store).2 ∧ s'.phase i = ended e (written rt clock e s.store).1 := by
  have hsave : persist (s.store.rows.find? (e.tenantId, e.role)) ⟨e.tenantId, e.role, clean e.permissions, clock.saved⟩
      s.store.rows = saveRow clock e.tenantId e.role (clean e.permissions) s.store.rows := by
    unfold persist saveRow
    rw [key_row]
    cases s.store.rows.find? (e.tenantId, e.role) <;> rfl
  simp only [run_cons, run_nil, step, h, hsave, written]
  cases saveRow clock e.tenantId e.role (clean e.permissions) s.store.rows with
  | error err => simp [ended]
  | ok rows => simp [ended, State.goto]

theorem run_granted {e : Edit} {actor : String} {perms : Finset String} {now : Instant}
    (h : s.phase i = (Use.grant e (s.store.rows.find? (e.tenantId, e.role)) actor).next perms) :
    let s' := run (step rt) s [.query i clock.saved, .resume i now]
    s'.store = (granted rt clock e perms s.store).2 ∧ s'.phase i = ended e (granted rt clock e perms s.store).1 := by
  rw [Use.next] at h
  unfold granted
  split at h
  · rename_i u hcheck
    simp only [hcheck]
    exact run_saving h
  · rename_i err hcheck
    have hfailed : s.phase i = ended e (.error err) := h
    simp only [hcheck, run_cons, run_nil, (step_ended hfailed _).1, (step_ended hfailed _).2, true_and]
    exact hfailed

theorem run_asking {use : Use} (h : s.phase i = .asking use) :
    let s' := run (step rt) s [.query i clock.saved, .resume i clock.cached]
    s'.store = (readPerms clock use.tenantId use.role s.store).2 ∧
      s'.phase i = match (readPerms clock use.tenantId use.role s.store).1 with
        | .error err => .failed err
        | .ok perms => use.next perms := by
  simp only [run_cons, run_nil, step, h, phase_goto_self, store_goto, readPerms]
  cases resolve s.store.rows use.tenantId use.role with
  | error err => simp
  | ok perms => simp [keep]

theorem setRole_of_actor {e : Edit} {actor : String} {st : PermissionsService.State}
    (hroot : e.role ≠ Roles.systemAdmin)
    (hstale : ¬ isStale rt e.expectedVersion (st.rows.find? (e.tenantId, e.role)) = true)
    (hactor : e.actor = some actor) (hadmin : actor ≠ Roles.systemAdmin) :
    setRole rt clock e.tenantId e.role e.permissions e.expectedVersion e.actor st =
      match permsForRole clock e.tenantId actor st with
      | (.error err, st') => (.error err, st')
      | (.ok perms, st') => granted rt clock e perms st' := by
  have hrows : (permsForRole clock e.tenantId actor st).2.rows = st.rows := Runs.Permissions.permsForRole_rows
  simp only [setRole, if_neg hroot, if_neg hstale, hactor, assertGrants, if_neg hadmin]
  generalize permsForRole clock e.tenantId actor st = out at hrows
  obtain ⟨err | perms, st'⟩ := out
  · rfl
  · simp only [granted, written, show st'.rows = st.rows from hrows]
    show (match (checkGrants _ _ _, st').1 with | .error err => _ | .ok _ => _) = _
    generalize hcheck : checkGrants _ _ perms = checked
    have hcheck' : checkGrants (previous (st.rows.find? (e.tenantId, e.role))) (clean e.permissions) perms = checked :=
      hcheck
    rw [hcheck']
    cases checked <;> rfl

/-- An edit alone is `setRole`. -/
theorem run_editAlone (hi : s.phase i = .ready) (e : Edit) :
    let out := setRole rt clock e.tenantId e.role e.permissions e.expectedVersion e.actor s.store
    let s' := run (step rt) s (editAlone i e clock)
    s'.store = out.2 ∧ s'.phase i = ended e out.1 := by
  -- an edit that has come to its end stays there
  have hend : ∀ {s₁ : State ι} {st : PermissionsService.State} {res : Except HttpError SetRoleResult}
      (now now' : Instant), s₁.store = st ∧ s₁.phase i = ended e res →
      (run (step rt) s₁ [.query i now, .resume i now']).store = st ∧
        (run (step rt) s₁ [.query i now, .resume i now']).phase i = ended e res := fun now now' h => by
    rw [run_cons, (step_ended h.2 now).1, run_cons, (step_ended h.2 now').2, run_nil]
    exact h
  have hsplit : editAlone i e clock = editLoads i e clock ++ [Event.query i clock.saved, Event.resume i clock.cached] ++
      [Event.query i clock.saved, Event.resume i clock.cached] := rfl
  rw [hsplit, run_append, run_append]
  by_cases hroot : e.role = Roles.systemAdmin
  · refine hend _ _ (hend _ _ ?_)
    simp [editLoads, run_cons, step, hi, begin, setRole, hroot, ended]
  obtain ⟨hstore, hphase⟩ : (run (step rt) s (editLoads i e clock)).store = s.store ∧
      (run (step rt) s (editLoads i e clock)).phase i =
        afterLoad rt clock.checked s.store.cache e (s.store.rows.find? (e.tenantId, e.role)) := by
    simp [editLoads, run_cons, step, hi, begin, hroot]
  generalize run (step rt) s (editLoads i e clock) = s₁ at hstore hphase ⊢
  rw [← hstore] at hphase ⊢
  unfold afterLoad at hphase
  split at hphase
  · rename_i hstale
    simp only [setRole, if_neg hroot, if_pos hstale]
    exact hend _ _ (hend _ _ ⟨rfl, hphase⟩)
  rename_i hstale
  split at hphase
  · rename_i hactor
    simp only [setRole, if_neg hroot, if_neg hstale, hactor]
    exact hend _ _ (run_saving hphase)
  rename_i actor hactor
  split at hphase
  · rename_i hadmin
    simp only [setRole, if_neg hroot, if_neg hstale, hactor, assertGrants, if_pos hadmin]
    exact hend _ _ (run_saving hphase)
  rename_i hadmin
  have hset := @setRole_of_actor rt clock e actor s₁.store hroot hstale hactor hadmin
  rcases @lookUp_cases clock (.grant e (s₁.store.rows.find? (e.tenantId, e.role)) actor) s₁.store with
    ⟨perms, hperms, hlook⟩ | ⟨hperms, hlook⟩
  · rw [hlook] at hphase
    simp only [Use.tenantId, Use.role] at hperms
    rw [hperms] at hset
    rw [hset]
    exact hend _ _ (run_granted hphase)
  · rw [hlook] at hphase
    obtain ⟨hstore', hphase'⟩ := @run_asking _ _ rt _ _ clock _ hphase
    simp only [Use.tenantId, Use.role] at hperms hstore' hphase'
    rw [hperms] at hset
    rw [hset]
    generalize run (step rt) s₁ [.query i clock.saved, .resume i clock.cached] = s₂ at hstore' hphase' ⊢
    have hrows : (readPerms clock e.tenantId actor s₁.store).2.rows = s₁.store.rows := Runs.Permissions.readPerms_rows
    generalize readPerms clock e.tenantId actor s₁.store = out at hrows hstore' hphase' ⊢
    obtain ⟨err | perms, st'⟩ := out
    · exact hend _ _ ⟨hstore', hphase'⟩
    · rw [← show s₂.store.rows = s₁.store.rows by rw [hstore', ← hrows]] at hphase'
      rw [← show s₂.store = st' from hstore']
      exact run_granted hphase'

end Alone

/-! ### What the cache holds -/

/-- The permissions are those of the role in the database, or the call that was the last to write the role is still to
drop the entries of its tenant. -/
def UpToDate (s : State ι) (t : TenantId) (role : String) (perms : Finset String) : Prop :=
  resolve s.store.rows t role = .ok perms ∨ ∃ j e result, s.writer (t, role) = some j ∧ s.phase j = .saved e result

/-- **A timely store**: what a call puts into the cache is up to date. -/
def StoresTimely (s : State ι) : Event ι → Prop
  | .resume i _ => ∀ use perms, s.phase i = .told use (.ok perms) → UpToDate s use.tenantId use.role perms
  | .call .. | .query .. | .reject .. | .message _ => True

/-- The call has written the role. -/
def Wrote (s : State ι) (j : ι) (e : Edit) : Prop := ∃ result, s.phase j = .saved e result ∨ s.phase j = .wrote e result

/-- The entries of the cache are up to date, and the row of a role is what its last writer has written. -/
structure Inv (s : State ι) : Prop where
  entry : ∀ t role hit, s.store.cache (cacheKey t role) = some hit → UpToDate s t role hit.perms
  writer : ∀ t role j, s.writer (t, role) = some j → ∃ e, Wrote s j e ∧ (e.tenantId, e.role) = (t, role) ∧
    resolve s.store.rows t role = .ok (clean e.permissions).toFinset

def Phase.Unwritten : Phase → Prop
  | .saved .. | .wrote .. => False
  | _ => True

variable {rt : Runtime} {s : State ι} {i j : ι} {e e' : Edit}

theorem phase_goto_of_ne {phase : Phase} (h : j ≠ i) : (s.goto i phase).phase j = s.phase j := by
  rw [phase_goto, if_neg h]

omit [DecidableEq ι] in
theorem Wrote.ne (h : Wrote s j e) (hi : (s.phase i).Unwritten) : j ≠ i := by
  rintro rfl
  obtain ⟨result, hj | hj⟩ := h <;> rw [hj] at hi <;> exact hi

omit [DecidableEq ι] in
theorem Wrote.edit_eq {result : SetRoleResult} (h : Wrote s j e)
    (hj : s.phase j = .saved e' result ∨ s.phase j = .wrote e' result) : e = e' := by
  obtain ⟨result', h | h⟩ := h <;> rcases hj with hj | hj <;> rw [h] at hj <;> cases hj <;> rfl

theorem Inv.goto (h : Inv s) (hi : (s.phase i).Unwritten) (phase : Phase) : Inv (s.goto i phase) where
  entry t role hit hhit := by
    refine (h.entry t role hit hhit).imp id ?_
    rintro ⟨j, e, result, hj, hphase⟩
    exact ⟨j, e, result, hj, (phase_goto_of_ne (Wrote.ne ⟨result, .inl hphase⟩ hi)).trans hphase⟩
  writer t role j hj := by
    obtain ⟨e, hwrote, he, hrow⟩ := h.writer t role j hj
    refine ⟨e, ?_, he, hrow⟩
    rw [Wrote, phase_goto_of_ne (hwrote.ne hi)]
    exact hwrote

omit [DecidableEq ι] in
theorem Inv.cache (h : Inv s) {cache : String → Option CacheEntry}
    (hcache : ∀ t role hit, cache (cacheKey t role) = some hit → UpToDate s t role hit.perms) :
    Inv { s with store := { s.store with cache := cache } } := ⟨hcache, h.writer⟩

omit [DecidableEq ι] in
theorem Inv.keep (h : Inv s) {use : Use} {perms : Finset String} (hperms : UpToDate s use.tenantId use.role perms)
    (now : Instant) : Inv { s with store := keep now use perms s.store } := by
  refine h.cache fun t role hit hhit => ?_
  by_cases hkey : cacheKey t role = cacheKey use.tenantId use.role
  · obtain ⟨rfl, rfl⟩ := Runs.Permissions.cacheKey_inj hkey
    rw [Function.update_self, Option.some.injEq] at hhit
    rw [← hhit]
    exact hperms
  · rw [Function.update_of_ne hkey] at hhit
    exact h.entry t role hit hhit

theorem dropLocal_eq (tenantId : String) (st : PermissionsService.State) :
    ∃ cache, dropLocal tenantId st = { st with cache := cache } ∧ ∀ k hit, cache k = some hit →
      st.cache k = some hit ∧ ¬ (tenantId ++ "::").toList <+: k.toList := by
  unfold dropLocal
  split
  · exact ⟨_, rfl, fun _ _ h => nomatch h⟩
  · refine ⟨_, rfl, fun k hit h => ?_⟩
    split at h
    · cases h
    · rename_i hkeep
      exact ⟨h, hkeep⟩

theorem resolve_congr {rows rows' : Table RoleRow} {t : TenantId} {role : String}
    (h : rows'.find? (t, role) = rows.find? (t, role)) : resolve rows' t role = resolve rows t role := by
  unfold resolve
  rw [h]

theorem persist_ok {existing : Option RoleRow} {row : RoleRow} {rows rows' : Table RoleRow}
    (h : persist existing row rows = .ok rows') (k : TenantId × String) :
    rows'.find? k = if key row = k then some row else rows.find? k := by
  unfold persist at h
  split at h
  · rename_i hthere
    obtain ⟨old, hold⟩ := Option.isSome_iff_exists.1 (Bool.and_eq_true _ _ ▸ hthere).2
    rw [← Except.ok.inj h, Table.find?_save]
    split
    · rename_i hk
      rw [← hk, hold]
      rfl
    · rfl
  · simp only [bind_eq_ok, found_eq_ok] at h
    obtain ⟨-, -, hins⟩ := h
    rw [Table.find?_insert? hins]

/-- A call writes the role. -/
theorem Inv.write (h : Inv s) {existing : Option RoleRow} (hi : s.phase i = .saving e existing) {rows : Table RoleRow}
    {now : Instant} (hrows : persist existing ⟨e.tenantId, e.role, clean e.permissions, now⟩ s.store.rows = .ok rows)
    (result : SetRoleResult) :
    Inv { s.goto i (.saved e result) with
      store := { s.store with rows := rows }
      writer := Function.update s.writer (e.tenantId, e.role) (some i) } := by
  have hfind := persist_ok hrows
  have hunwritten : (s.phase i).Unwritten := by
    rw [hi]
    trivial
  -- another role has the row and the writer that it had
  have hother : ∀ {t role}, (e.tenantId, e.role) ≠ (t, role) → resolve rows t role = resolve s.store.rows t role ∧
      Function.update s.writer (e.tenantId, e.role) (some i) (t, role) = s.writer (t, role) := fun hne =>
    ⟨resolve_congr (by rw [hfind, key_row, if_neg hne]), Function.update_of_ne (Ne.symm hne) ..⟩
  constructor
  · intro t role hit hhit
    by_cases hk : (e.tenantId, e.role) = (t, role)
    · refine .inr ⟨i, e, result, ?_, phase_goto_self ..⟩
      rw [← hk]
      exact Function.update_self ..
    · rcases h.entry t role hit hhit with hrow | ⟨j, e', result', hj, hphase⟩
      · exact .inl ((hother hk).1.trans hrow)
      · refine .inr ⟨j, e', result', (hother hk).2.trans hj, ?_⟩
        exact (phase_goto_of_ne (Wrote.ne ⟨result', .inl hphase⟩ hunwritten)).trans hphase
  · intro t role j hj
    by_cases hk : (e.tenantId, e.role) = (t, role)
    · rw [show State.writer _ (t, role) = some i by rw [← hk]; exact Function.update_self ..] at hj
      obtain rfl := Option.some.inj hj
      refine ⟨e, ⟨result, .inl (phase_goto_self ..)⟩, hk, ?_⟩
      simp only [resolve, hfind, key_row, if_pos hk]
    · obtain ⟨e', hwrote, he', hrow⟩ := h.writer t role j ((hother hk).2.symm.trans hj)
      refine ⟨e', ?_, he', (hother hk).1.trans hrow⟩
      obtain ⟨result', hphase⟩ := hwrote
      refine ⟨result', ?_⟩
      rw [show State.phase _ j = s.phase j from phase_goto_of_ne (Wrote.ne ⟨result', hphase⟩ hunwritten)]
      exact hphase

/-- A call that has written drops the entries of its tenant. -/
theorem Inv.drop (h : Inv s) {result : SetRoleResult} (hi : s.phase i = .saved e result) :
    Inv { s.goto i (.wrote e result) with store := invalidate e.tenantId s.store } := by
  obtain ⟨cache, hdrop, hkeep⟩ := dropLocal_eq e.tenantId.text s.store
  rw [invalidate, hdrop]
  constructor
  · intro t role hit hhit
    obtain ⟨hold, hout⟩ := hkeep _ _ hhit
    refine (h.entry t role hit hold).imp id ?_
    rintro ⟨j, e', result', hj, hphase⟩
    refine ⟨j, e', result', hj, ?_⟩
    -- the last writer of a role of another tenant is another call
    have hne : j ≠ i := by
      rintro rfl
      obtain ⟨e'', hwrote, hrole, -⟩ := h.writer t role j hj
      obtain rfl := hwrote.edit_eq (.inl hi)
      exact hout (Runs.Permissions.prefix_cacheKey.2 (Prod.mk.inj hrole).1)
    exact (phase_goto_of_ne hne).trans hphase
  · intro t role j hj
    obtain ⟨e', hwrote, hrole, hrow⟩ := h.writer t role j hj
    refine ⟨e', ?_, hrole, hrow⟩
    by_cases hji : j = i
    · subst hji
      obtain rfl := hwrote.edit_eq (.inl hi)
      exact ⟨result, .inr (phase_goto_self ..)⟩
    · obtain ⟨result', hphase⟩ := hwrote
      refine ⟨result', ?_⟩
      rw [show State.phase _ j = s.phase j from phase_goto_of_ne hji]
      exact hphase

omit [DecidableEq ι] in
theorem inv_start (rows : Table RoleRow) : Inv (start rows : State ι) where
  entry _ _ _ hhit := nomatch hhit
  writer _ _ _ hj := nomatch hj

theorem inv_step (h : Inv s) {ev : Event ι} (hC : StoresTimely s ev) : Inv (step rt s ev) := by
  have hmove : ∀ {i phase} (phase'), s.phase i = phase → phase.Unwritten → Inv (s.goto i phase') :=
    fun phase' hi hunwritten => h.goto (by rwa [hi]) phase'
  cases ev with
  | call i job now =>
    simp only [step]
    split
    · rename_i hi
      exact hmove _ hi trivial
    · exact h
  | query i now =>
    simp only [step]
    split
    · rename_i hi
      exact hmove _ hi trivial
    · rename_i hi
      exact hmove _ hi trivial
    · rename_i hi
      split
      · exact hmove _ hi trivial
      · rename_i rows hrows
        exact h.write hi hrows _
    · exact h
  | reject i err =>
    simp only [step]
    split
    · rename_i hi
      exact hmove _ hi trivial
    · rename_i hi
      exact hmove _ hi trivial
    · rename_i hi
      exact hmove _ hi trivial
    · exact h
  | resume i now =>
    simp only [step]
    split
    · rename_i hi
      exact hmove _ hi trivial
    · rename_i use perms hi
      have hkept := h.keep (hC use perms hi) now
      exact hkept.goto (by rw [hi]; trivial) _
    · rename_i hi
      exact hmove _ hi trivial
    · rename_i hi
      exact h.drop hi
    · exact h
  | message tenantId =>
    obtain ⟨cache, hdrop, hkeep⟩ := dropLocal_eq tenantId s.store
    simp only [step, hdrop]
    exact h.cache fun t role hit hhit => h.entry t role hit (hkeep _ _ hhit).1

/-! ### Answers after an edit -/

def Phase.Plain : Phase → Prop
  | .told .. | .answered .. => False
  | _ => True

theorem plain_grant (existing : Option RoleRow) (actor : String) (perms : Finset String) :
    ((Use.grant e existing actor).next perms).Plain := by
  rw [Use.next]
  split <;> trivial

theorem plain_afterLoad (now : Instant) (cache : String → Option CacheEntry) (existing : Option RoleRow) :
    (afterLoad rt now cache e existing).Plain := by
  unfold afterLoad
  split
  · trivial
  split
  · trivial
  split
  · trivial
  unfold lookUp
  split
  · split
    · exact plain_grant ..
    · trivial
  · trivial

/-- How the phase of a call changes in a step, as far as its answer goes; a call that has returned stays so. -/
inductive Moves (s : State ι) (i : ι) : Phase → Prop
  | stay : Moves s i (s.phase i)
  | begin (now : Instant) (job : Job) : s.phase i = .ready → Moves s i (begin now s.store.cache job)
  | told (use : Use) : s.phase i = .asking use →
      Moves s i (.told use (resolve s.store.rows use.tenantId use.role))
  | next (use : Use) (perms : Finset String) : s.phase i = .told use (.ok perms) → Moves s i (use.next perms)
  | plain (phase : Phase) : (∀ e result, s.phase i ≠ .wrote e result) → phase.Plain → Moves s i phase

theorem Moves.goto {i' : ι} {phase : Phase} (h : i' = i → Moves s i phase) : Moves s i ((s.goto i' phase).phase i) := by
  by_cases hi : i = i'
  · subst hi
    rw [phase_goto_self]
    exact h rfl
  · rw [phase_goto_of_ne hi]
    exact .stay

theorem moves_step (s : State ι) (i : ι) (ev : Event ι) : Moves s i ((step rt s ev).phase i) := by
  have hplain : ∀ {i' phase} (phase' : Phase), s.phase i' = phase → (∀ e result, phase ≠ .wrote e result) →
      phase'.Plain → Moves s i ((s.goto i' phase').phase i) := fun phase' hi hne hphase' =>
    .goto fun heq => .plain _ (by rw [← heq, hi]; exact hne) hphase'
  cases ev with
  | call i' job now =>
    simp only [step]
    split
    · rename_i hi
      exact .goto fun heq => .begin now job (heq ▸ hi)
    · exact .stay
  | query i' now =>
    simp only [step]
    split
    · rename_i hi
      exact hplain _ hi (fun _ _ h => by cases h) trivial
    · rename_i use hi
      exact .goto fun heq => .told use (heq ▸ hi)
    · rename_i hi
      split
      · exact hplain _ hi (fun _ _ h => by cases h) trivial
      · exact hplain _ hi (fun _ _ h => by cases h) trivial
    · exact .stay
  | reject i' err =>
    simp only [step]
    split
    · rename_i hi
      exact hplain _ hi (fun _ _ h => by cases h) trivial
    · rename_i hi
      exact hplain _ hi (fun _ _ h => by cases h) trivial
    · rename_i hi
      exact hplain _ hi (fun _ _ h => by cases h) trivial
    · exact .stay
  | resume i' now =>
    simp only [step]
    split
    · rename_i hi
      exact hplain _ hi (fun _ _ h => by cases h) (plain_afterLoad ..)
    · rename_i use perms hi
      exact .goto fun heq => .next use perms (heq ▸ hi)
    · rename_i hi
      exact hplain _ hi (fun _ _ h => by cases h) trivial
    · rename_i hi
      exact hplain _ hi (fun _ _ h => by cases h) trivial
    · exact .stay
  | message tenantId => exact .stay

theorem writer_of_step {ev : Event ι} {k : TenantId × String} {result : SetRoleResult}
    (hj : s.phase j = .wrote e result) (h : (step rt s ev).writer k = some j) : s.writer k = some j := by
  cases ev with
  | query i now =>
    simp only [step] at h
    split at h
    · exact h
    · exact h
    · rename_i hi
      split at h
      · exact h
      · simp only [Function.update_apply] at h
        split at h
        · obtain rfl := Option.some.inj h
          rw [hi] at hj
          cases hj
        · exact h
    · exact h
  | call i job now =>
    simp only [step] at h
    split at h <;> exact h
  | reject i err =>
    simp only [step] at h
    split at h <;> exact h
  | resume i now =>
    simp only [step] at h
    split at h <;> exact h
  | message tenantId => exact h

/-- The call `j` has returned; what `i` was told and has answered is what `j` has written, as long as no other call
writes the role. -/
structure Since (i j : ι) (e : Edit) (s : State ι) : Prop where
  returned : ∃ result, s.phase j = .wrote e result
  told : ∀ q found, s.phase i = .told (.answer q) found → s.writer (q.tenantId, q.role) = some j →
    found = .ok (clean e.permissions).toFinset
  answered : ∀ q answer, s.phase i = .answered q answer → s.writer (q.tenantId, q.role) = some j →
    answer = decide (q.permission ∈ clean e.permissions)

omit [DecidableEq ι] in
theorem Inv.of_returned (h : Inv s) {result : SetRoleResult} (hj : s.phase j = .wrote e result) {t : TenantId}
    {role : String} (hwriter : s.writer (t, role) = some j) :
    resolve s.store.rows t role = .ok (clean e.permissions).toFinset ∧ ∀ hit,
      s.store.cache (cacheKey t role) = some hit → hit.perms = (clean e.permissions).toFinset := by
  obtain ⟨e', hwrote, -, hrow⟩ := h.writer t role j hwriter
  obtain rfl := hwrote.edit_eq (.inr hj)
  refine ⟨hrow, fun hit hhit => ?_⟩
  rcases h.entry t role hit hhit with hread | ⟨j', e'', result', hj', hphase⟩
  · exact Except.ok.inj (hread.symm.trans hrow)
  · obtain rfl := Option.some.inj (hj'.symm.trans hwriter)
    rw [hphase] at hj
    cases hj

theorem answered_of_next {use : Use} {perms : Finset String} {q : Question} {answer : Bool}
    (h : use.next perms = .answered q answer) : use = .answer q ∧ answer = decide (q.permission ∈ perms) := by
  cases use with
  | answer q' =>
    obtain ⟨rfl, rfl⟩ := Phase.answered.inj h
    exact ⟨rfl, rfl⟩
  | grant e existing actor =>
    have hplain := @plain_grant e existing actor perms
    rw [h] at hplain
    exact hplain.elim

theorem answered_of_begin {now : Instant} {cache : String → Option CacheEntry} {job : Job} {q : Question}
    {answer : Bool} (h : begin now cache job = .answered q answer) :
    ∃ hit, cache (cacheKey q.tenantId q.role) = some hit ∧ answer = decide (q.permission ∈ hit.perms) := by
  cases job with
  | ask q' =>
    rw [begin, lookUp] at h
    split at h
    · rename_i hit hhit
      split at h
      · obtain ⟨heq, hanswer⟩ := answered_of_next h
        obtain rfl := Use.answer.inj heq
        exact ⟨hit, hhit, hanswer⟩
      · cases h
    · cases h
  | edit e =>
    rw [begin] at h
    split at h <;> cases h

theorem begin_ne_told (now : Instant) (cache : String → Option CacheEntry) (job : Job) (q : Question)
    (found : Except HttpError (Finset String)) : begin now cache job ≠ .told (.answer q) found := by
  cases job with
  | ask q' =>
    rw [begin, lookUp]
    split
    · split <;> nofun
    · nofun
  | edit e =>
    rw [begin]
    split <;> nofun

theorem since_step (hinv : Inv s) (h : Since i j e s) (ev : Event ι) : Since i j e (step rt s ev) := by
  obtain ⟨result, hj⟩ := h.returned
  have hmoves := @moves_step ι _ rt s i ev
  have hback : ∀ {k}, (step rt s ev).writer k = some j → s.writer k = some j := writer_of_step hj
  refine ⟨⟨result, ?_⟩, fun q found hphase hwriter => ?_, fun q answer hphase hwriter => ?_⟩
  · have hmovesj := @moves_step ι _ rt s j ev
    generalize (step rt s ev).phase j = phase at hmovesj ⊢
    cases hmovesj with
    | stay => exact hj
    | plain _ hne _ => exact absurd hj (hne e result)
    | begin _ _ hi => rw [hi] at hj; cases hj
    | told _ hi => rw [hi] at hj; cases hj
    | next _ _ hi => rw [hi] at hj; cases hj
  · replace hwriter := hback hwriter
    generalize hnew : (step rt s ev).phase i = phase at hmoves hphase
    cases hmoves with
    | stay => exact h.told q found hphase hwriter
    | begin now job hi => exact absurd hphase (begin_ne_told now s.store.cache job q found)
    | told use hi =>
      obtain ⟨rfl, rfl⟩ := Phase.told.inj hphase
      exact (hinv.of_returned hj hwriter).1
    | next use perms hi => cases use with
      | answer q' => cases hphase
      | grant e' existing actor =>
        have hplain := @plain_grant e' existing actor perms
        rw [hphase] at hplain
        exact hplain.elim
    | plain _ _ hplain =>
      rw [hphase] at hplain
      exact hplain.elim
  · replace hwriter := hback hwriter
    generalize hnew : (step rt s ev).phase i = phase at hmoves hphase
    have hmem : ∀ {perms : Finset String}, perms = (clean e.permissions).toFinset →
        decide (q.permission ∈ perms) = decide (q.permission ∈ clean e.permissions) := by
      rintro _ rfl
      simp
    cases hmoves with
    | stay => exact h.answered q answer hphase hwriter
    | begin now job hi =>
      obtain ⟨hit, hhit, rfl⟩ := answered_of_begin hphase
      exact hmem ((hinv.of_returned hj hwriter).2 hit hhit)
    | told use hi => cases hphase
    | next use perms hi =>
      obtain ⟨rfl, rfl⟩ := answered_of_next hphase
      exact hmem (Except.ok.inj (h.told q _ hi hwriter))
    | plain _ _ hplain =>
      rw [hphase] at hplain
      exact hplain.elim

/-- **Edits are seen at once.** A call that was still to begin when an edit had returned is answered by that edit,
unless the role was written again. -/
def EditSeen (s₀ s₁ : State ι) : Prop :=
  ∀ i j e result q answer, s₀.phase i = .ready → s₀.phase j = .wrote e result →
    s₁.writer (q.tenantId, q.role) = some j → s₁.phase i = .answered q answer →
      answer = decide (q.permission ∈ clean e.permissions)

/-- **Revocation is visible at once** in every run of a process in which no call stores in the cache what another call
has written over and dropped already. -/
theorem edit_seen (rows : Table RoleRow) (p q : List (Event ι))
    (h : AllSteps (step rt) StoresTimely (start rows) (p ++ q)) :
    EditSeen (run (step rt) (start rows) p) (run (step rt) (start rows) (p ++ q)) := by
  intro i j e result question answer hi hj hwriter hanswer
  rw [allSteps_append] at h
  have hinv : Inv (run (step rt) (start rows) p) :=
    run_invariant (I := Inv) (fun _ _ hs hC => inv_step hs hC) (inv_start rows) h.1
  have hsince : Since i j e (run (step rt) (start rows) p) := by
    refine ⟨⟨result, hj⟩, fun _ _ hphase => ?_, fun _ _ hphase => ?_⟩ <;> rw [hi] at hphase <;> cases hphase
  have hrun : Inv (run (step rt) (start rows) (p ++ q)) ∧ Since i j e (run (step rt) (start rows) (p ++ q)) := by
    rw [run_append]
    exact run_invariant (I := fun s => Inv s ∧ Since i j e s)
      (fun _ ev hs hC => ⟨inv_step hs.1 hC, since_step hs.1 hs.2 ev⟩) ⟨hinv, hsince⟩ h.2
  exact hrun.2.answered question answer hanswer hwriter

section Example

def tenant : TenantId := ⟨"9e107d9d-372b-4b6e-8b6f-0a2d1c3e4f50", by decide⟩

def plainRuntime : Runtime := ⟨id, fun _ => ""⟩

def revoke : Edit := { tenantId := tenant, role := Roles.secretary, permissions := [] }

def mayBook : Question := ⟨tenant, Roles.secretary, "booking.create"⟩

def revoked : List (Event ℕ) := askAlone 0 mayBook ⟨0, 0, 0⟩ ++ editAlone 1 revoke ⟨1, 1, 1⟩

/-- The question before the edit is answered by the defaults, and the one after it by the edit. -/
theorem edit_seen_alone :
    EditSeen (run (step plainRuntime) (start .empty) revoked)
        (run (step plainRuntime) (start .empty) (revoked ++ askAlone 2 mayBook ⟨2, 2, 2⟩)) ∧
      (run (step plainRuntime) (start .empty) revoked).phase 0 = .answered mayBook true ∧
      (run (step plainRuntime) (start .empty) (revoked ++ askAlone 2 mayBook ⟨2, 2, 2⟩)).phase 2 =
        .answered mayBook false := by
  refine ⟨edit_seen .empty _ _ ⟨trivial, trivial, fun use perms h => ?_, trivial, trivial, fun use perms h => ?_,
    trivial, fun use perms h => ?_, trivial, fun use perms h => ?_, trivial, trivial, fun use perms h => ?_, trivial⟩,
    rfl, rfl⟩
  · obtain ⟨rfl, hperms⟩ := Phase.told.inj h
    exact .inl hperms
  · cases h
  · cases h
  · cases h
  · obtain ⟨rfl, hperms⟩ := Phase.told.inj h
    exact .inl hperms

def overtaken : List (Event ℕ) :=
  [.call 0 (.ask mayBook) 0, .query 0 0, .call 1 (.edit revoke) 0, .query 1 0, .resume 1 0, .query 1 0, .resume 1 0,
    .resume 0 0]

/-- The next question is answered from the cache, as before the edit. -/
theorem revocation_unseen : ¬ EditSeen (run (step plainRuntime) (start .empty) overtaken)
    (run (step plainRuntime) (start .empty) (overtaken ++ [.call 2 (.ask mayBook) 1])) := by
  intro h
  have hanswer := h 2 1 revoke ⟨[], [], ""⟩ mayBook true rfl rfl rfl rfl
  revert hanswer
  decide

end Example

end BookingSystem.Concurrency.Revocations
