import BookingSystem.Base.Versions
import BookingSystem.Concurrency.Revocations

/-!
# Edits of the permission matrix with the version that was read

Administrators read the matrix and edit roles with the versions that they have read, side by side. `setRole` compares
the version of the row with the one it was given, and writes the row some steps later without another look. An edit is
not overwritten silently as long as the row that was compared is still there when it is written, a new version differs
from all those before it, and a role that had no version when the matrix was read has no row when `setRole` looks for
it (`Guarded`, `Inv.record`).
-/

namespace BookingSystem.Concurrency.MatrixEdits

open Function (update update_apply update_of_ne update_self)
open Base Model Model.PermissionsService
open Concurrency.Revocations (Edit Question Use lookUp afterLoad persist phase_goto_self phase_goto_of_ne
  persist_ok)

/-! ### The calls -/

/-- What an administrator has read: the version of each role that has one, and which of the role's versions that is. -/
structure View where
  tenantId : TenantId
  version : String → Option String
  seen : String → ℕ

/-- How far the `get` of an administrator is: it has found no rows and is about to save the default ones, or it is
done. -/
inductive Look
  | none
  | empty (tenantId : TenantId)
  | done (v : View)

/-- The process, what each administrator has read, and the versions that the row of a role has had. -/
structure State (ι : Type) where
  process : Revocations.State ι
  look : ι → Look := fun _ => .none
  record : TenantId × String → Record ι (Option String)

def versionOf (rt : Runtime) (rows : Table RoleRow) (k : TenantId × String) : Option String :=
  (rows.find? k).map fun row => rt.toISOString row.updatedAt

def start {ι : Type} (rt : Runtime) (rows : Table RoleRow) : State ι :=
  { process := Revocations.start rows, record := fun k => ⟨[versionOf rt rows k], []⟩ }

/-- What happens: an administrator begins to read the matrix, saves the default rows, or goes on with what another one
has read or was handed by an edit; an edit begins, with the version of its role; the rest is as in the process. -/
inductive Event (ι : Type)
  | get (i : ι) (tenantId : TenantId)
  | seed (i : ι) (now : Instant)
  | copy (i j : ι)
  | edit (i : ι) (role : String) (permissions : List String) (actor : Option String) (now : Instant)
  | ask (i : ι) (q : Question) (now : Instant)
  | query (i : ι) (now : Instant)
  | reject (i : ι) (err : HttpError)
  | resume (i : ι) (now : Instant)
  | message (tenantId : String)

variable {ι : Type} [DecidableEq ι]

def shown (rt : Runtime) (tenantId : TenantId) (rows : List RoleRow) (role : String) : Option String :=
  (matrix rt tenantId rows).versions.lookup role

def State.looks (s : State ι) (i : ι) (look : Look) : State ι :=
  match s.process.phase i with
  | .ready => { s with look := update s.look i look }
  | _ => s

/-- A call of the process moves; an edit that has written its row brings a version. -/
def State.moves (rt : Runtime) (s : State ι) (i : ι) (ev : Revocations.Event ι) : State ι :=
  let process := Revocations.step rt s.process ev
  match s.process.phase i, process.phase i, s.look i with
  | .saving e _, .saved _ result, .done v =>
    let k := (e.tenantId, e.role)
    { process := process
      look := update s.look i (.done ⟨v.tenantId, update v.version e.role (some result.version),
        update v.seen e.role ((s.record k).place + 1)⟩)
      record := update s.record k
        ((s.record k).write i e.expectedVersion (v.seen e.role) (some result.version)) }
  | _, _, _ => { s with process := process }

def seeded (rt : Runtime) (record : TenantId × String → Record ι (Option String)) (tenantId : TenantId) (now : Instant)
    (k : TenantId × String) : Record ι (Option String) :=
  if k.1 = tenantId ∧ k.2 ∈ systemRoles then (record k).renew (some (rt.toISOString now)) else record k

def step (rt : Runtime) (s : State ι) : Event ι → State ι
  | .get i t =>
    let rows := s.process.store.rows.rows.filter fun row => row.tenantId == t
    s.looks i (if rows.isEmpty then .empty t
      else .done ⟨t, shown rt t rows, fun role => (s.record (t, role)).place⟩)
  | .seed i now =>
    match s.process.phase i, s.look i with
    | .ready, .empty t =>
      match s.process.store.rows.insertAll? (seeds ⟨now, now, now⟩ t) with
      | none => { s with look := update s.look i .none }
      | some rows =>
        let record := seeded rt s.record t now
        { process := { s.process with store := { s.process.store with rows := rows } }
          look := update s.look i
            (.done ⟨t, shown rt t (seeds ⟨now, now, now⟩ t), fun role => (record (t, role)).place⟩)
          record := record }
    | _, _ => s
  | .copy i j => s.looks i (s.look j)
  | .edit i role permissions actor now =>
    match s.look i with
    | .done v => s.moves rt i (.call i (.edit ⟨v.tenantId, role, permissions, v.version role, actor⟩) now)
    | _ => s
  | .ask i q now => s.moves rt i (.call i (.ask q) now)
  | .query i now => s.moves rt i (.query i now)
  | .reject i err => s.moves rt i (.reject i err)
  | .resume i now => s.moves rt i (.resume i now)
  | .message tenantId => { s with process := Revocations.step rt s.process (.message tenantId) }

/-- **A guarded edit.** When it looks for the row of a role that had no version, there is none. When it writes over a
row, that is the row it has compared, and the new version is not one that the row has had. -/
structure Guarded (rt : Runtime) (s : State ι) (i : ι) (now : Instant) : Prop where
  unseen : ∀ e, s.process.phase i = .loading e → e.expectedVersion = none →
    s.process.store.rows.find? (e.tenantId, e.role) = none
  same : ∀ e row, s.process.phase i = .saving e (some row) →
    s.process.store.rows.find? (e.tenantId, e.role) = some row
  fresh : ∀ e row, s.process.phase i = .saving e (some row) →
    some (rt.toISOString now) ∉ (s.record (e.tenantId, e.role)).versions

def EditsGuarded (rt : Runtime) (s : State ι) : Event ι → Prop
  | .query i now => Guarded rt s i now
  | _ => True

/-! ### The invariant -/

/-- The edit is one of what the administrator has read. -/
def Echoes (look : Look) (e : Edit) : Prop :=
  ∃ v, look = .done v ∧ e.tenantId = v.tenantId ∧ e.expectedVersion = v.version e.role

/-- The row that the edit has found, if there is one, has the version that the edit names. -/
def Compared (rt : Runtime) (look : Look) (e : Edit) (existing : Option RoleRow) : Prop :=
  Echoes look e ∧ ∀ row, existing = some row → e.expectedVersion = some (rt.toISOString row.updatedAt)

def Good (rt : Runtime) (look : Look) : Revocations.Phase → Prop
  | .loading e => Echoes look e
  | .loaded e existing => Echoes look e ∧ (e.expectedVersion = none → existing = none)
  | .asking (.grant e existing _) | .told (.grant e existing _) _ | .saving e existing => Compared rt look e existing
  | _ => True

/-- The versions that were read are versions of the rows. -/
def Read (record : TenantId × String → Record ι (Option String)) (v : View) : Prop :=
  ∀ role, v.seen role < (record (v.tenantId, role)).versions.length ∧
    ∀ version, v.version role = some version → (record (v.tenantId, role)).Saw (v.seen role) (some version)

structure Inv (rt : Runtime) (s : State ι) : Prop where
  phase : ∀ i, Good rt (s.look i) (s.process.phase i)
  look : ∀ i v, s.look i = .done v → Read s.record v
  current : ∀ k, (s.record k).Current (versionOf rt s.process.store.rows k)
  first : ∀ k, s.process.store.rows.find? k = none → (s.record k).versions = [none]
  sound : ∀ k, (s.record k).Sound

variable {rt : Runtime} {s : State ι} {i j : ι}

omit [DecidableEq ι] in
theorem inv_start (rows : Table RoleRow) : Inv rt (start rt rows : State ι) where
  phase _ := trivial
  look _ _ h := nomatch h
  current _ := rfl
  first k hk := by
    show [versionOf rt rows k] = [none]
    rw [versionOf, show rows.find? k = none from hk]
    rfl
  sound _ := Record.sound_singleton _

/-! ### Phases -/

section Phases

variable {look : Look} {e : Edit} {existing : Option RoleRow}

theorem good_next {use : Use} (h : Good rt look (.asking use)) (perms : Finset String) :
    Good rt look (use.next perms) := by
  cases use with
  | answer q => trivial
  | grant e existing actor =>
    rw [Use.next]
    split
    · exact h
    · trivial

theorem good_lookUp {use : Use} (h : Good rt look (.asking use)) (now : Instant) (cache : String → Option CacheEntry) :
    Good rt look (lookUp now cache use) := by
  unfold lookUp
  split
  · split
    · exact good_next h _
    · exact h
  · exact h

theorem compared_of_not_stale (h : Good rt look (.loaded e existing))
    (hstale : ¬ isStale rt e.expectedVersion existing = true) : Compared rt look e existing := by
  obtain ⟨hecho, hnone⟩ := h
  refine ⟨hecho, ?_⟩
  rintro row rfl
  cases hversion : e.expectedVersion with
  | none => cases hnone hversion
  | some expected =>
    rw [hversion] at hstale
    have hsame : rt.toISOString row.updatedAt = expected := by simpa [isStale] using hstale
    rw [hsame]

theorem good_afterLoad (h : Good rt look (.loaded e existing)) (now : Instant) (cache : String → Option CacheEntry) :
    Good rt look (afterLoad rt now cache e existing) := by
  unfold afterLoad
  split
  · trivial
  · rename_i hstale
    have hcompared := compared_of_not_stale h hstale
    split
    · exact hcompared
    · rename_i actor _
      split
      · exact hcompared
      · have hasking : Good rt look (.asking (.grant e existing actor)) := hcompared
        exact good_lookUp hasking now cache

theorem good_begin (job : Revocations.Job) (h : ∀ e, job = .edit e → Echoes look e) (now : Instant)
    (cache : String → Option CacheEntry) : Good rt look (Revocations.begin now cache job) := by
  cases job with
  | ask q =>
    have hasking : Good rt look (.asking (.answer q)) := trivial
    exact good_lookUp hasking now cache
  | edit e =>
    rw [Revocations.begin]
    split
    · trivial
    · exact h e rfl

end Phases

/-- The phases of the calls after a step of the process. -/
theorem good_step {p : Revocations.State ι} {look : ι → Look} (h : ∀ j, Good rt (look j) (p.phase j))
    {ev : Revocations.Event ι} (hcall : ∀ i e now, ev = .call i (.edit e) now → Echoes (look i) e)
    (hload : ∀ i now e, ev = .query i now → p.phase i = .loading e → e.expectedVersion = none →
      p.store.rows.find? (e.tenantId, e.role) = none) (j : ι) :
    Good rt (look j) ((Revocations.step rt p ev).phase j) := by
  have hgood : ∀ {i phase}, p.phase i = phase → Good rt (look i) phase := fun hi => hi ▸ h _
  have hgoto : ∀ {i phase}, Good rt (look i) phase → Good rt (look j) ((p.goto i phase).phase j) := by
    intro i phase hphase
    by_cases hj : j = i
    · subst hj
      rw [phase_goto_self]
      exact hphase
    · rw [phase_goto_of_ne hj]
      exact h j
  cases ev with
  | call i job now =>
    simp only [Revocations.step]
    split
    · refine hgoto (good_begin job ?_ _ _)
      rintro e rfl
      exact hcall i e now rfl
    · exact h j
  | query i now =>
    simp only [Revocations.step]
    split
    · rename_i e hi
      have hecho : Echoes (look i) e := hgood hi
      exact hgoto ⟨hecho, hload i now e rfl hi⟩
    · rename_i use hi
      have hasking : Good rt (look i) (.asking use) := hgood hi
      exact hgoto (by cases use <;> exact hasking)
    · split
      · exact hgoto trivial
      · have hsaved : ∀ {e result}, Good rt (look i) (.saved e result) := trivial
        exact hgoto hsaved
    · exact h j
  | reject i err =>
    simp only [Revocations.step]
    split
    · exact hgoto trivial
    · exact hgoto trivial
    · exact hgoto trivial
    · exact h j
  | resume i now =>
    simp only [Revocations.step]
    split
    · rename_i hi
      exact hgoto (good_afterLoad (hgood hi) _ _)
    · rename_i use perms hi
      have hasking : Good rt (look i) (.asking use) := by
        have htold := hgood hi
        cases use <;> exact htold
      exact hgoto (good_next hasking perms)
    · exact hgoto trivial
    · have hwrote : ∀ {e result}, Good rt (look i) (.wrote e result) := trivial
      exact hgoto hwrote
    · exact h j
  | message tenantId => exact h j

theorem rows_step {p : Revocations.State ι} {ev : Revocations.Event ι}
    (h : ∀ i now e existing, ev = .query i now → p.phase i ≠ .saving e existing) :
    (Revocations.step rt p ev).store.rows = p.store.rows := by
  cases ev with
  | call i job now =>
    simp only [Revocations.step]
    split <;> rfl
  | query i now =>
    simp only [Revocations.step]
    split
    · rfl
    · rfl
    · rename_i e existing hi
      exact absurd hi (h i now e existing rfl)
    · rfl
  | reject i err =>
    simp only [Revocations.step]
    split <;> rfl
  | resume i now =>
    simp only [Revocations.step]
    split
    · rfl
    · rfl
    · rfl
    · exact Runs.Permissions.invalidate_rows
    · rfl
  | message tenantId =>
    obtain ⟨cache, hdrop, -⟩ := Revocations.dropLocal_eq tenantId p.store
    simp only [Revocations.step, hdrop]

/-! ### Steps -/

omit [DecidableEq ι] in
theorem Inv.go (h : Inv rt s) {p : Revocations.State ι} (hrows : p.store.rows = s.process.store.rows)
    (hphase : ∀ j, Good rt (s.look j) (p.phase j)) : Inv rt { s with process := p } where
  phase := hphase
  look := h.look
  current k := by
    rw [show State.process { s with process := p } = p from rfl, hrows]
    exact h.current k
  first k hk := h.first k (hrows ▸ hk)
  sound := h.sound

theorem Inv.looks (h : Inv rt s) {look : Look} (hlook : ∀ v, look = .done v → Read s.record v) :
    Inv rt (s.looks i look) := by
  unfold State.looks
  split
  · rename_i hi
    refine ⟨fun j => ?_, fun j v hv => ?_, h.current, h.first, h.sound⟩
    · show Good rt (update s.look i look j) (s.process.phase j)
      rw [update_apply]
      split
      · rename_i hj
        rw [hj, hi]
        trivial
      · exact h.phase j
    · have hv' : update s.look i look j = .done v := hv
      rw [update_apply] at hv'
      split at hv'
      · exact hlook v hv'
      · exact h.look j v hv'
  · exact h

theorem moves_eq {ev : Revocations.Event ι} (h : ∀ e existing e' result, s.process.phase i = .saving e existing →
    (Revocations.step rt s.process ev).phase i ≠ .saved e' result) :
    s.moves rt i ev = { s with process := Revocations.step rt s.process ev } := by
  unfold State.moves
  dsimp only
  split
  · rename_i e existing e' result v hsaving hsaved _
    exact absurd hsaved (h _ _ _ _ hsaving)
  · rfl

omit [DecidableEq ι] in
theorem Read.mono {record record' : TenantId × String → Record ι (Option String)} {v : View} (h : Read record v)
    (hmore : ∀ k, ∃ vs, (record' k).versions = (record k).versions ++ vs) : Read record' v := by
  intro role
  obtain ⟨hlt, hsaw⟩ := h role
  obtain ⟨vs, hvs⟩ := hmore (v.tenantId, role)
  refine ⟨by rw [hvs, List.length_append]; omega, fun version hv => ?_⟩
  rw [Record.Saw, hvs]
  exact (hsaw version hv).append vs []

omit [DecidableEq ι] in
theorem saw_place_append (vs : List (Option String)) (v : Option String) (log : List (Base.Write ι (Option String))) :
    (Record.place ⟨vs ++ [v], log⟩ : ℕ) < (vs ++ [v]).length ∧
      Record.Saw ⟨vs ++ [v], log⟩ (Record.place (⟨vs ++ [v], log⟩ : Record ι (Option String))) v := by
  have hcur := Record.Current.append vs v log
  refine ⟨?_, hcur.saw⟩
  have := hcur.pos
  rw [Record.place]
  dsimp only at this ⊢
  omega

/-- **An edit is written**, over the version that its administrator has read. -/
theorem Inv.write (h : Inv rt s) {now : Instant} {e : Edit} {existing : Option RoleRow}
    (hi : s.process.phase i = .saving e existing) (hguard : Guarded rt s i now) {rows : Table RoleRow}
    (hrows : persist existing ⟨e.tenantId, e.role, clean e.permissions, now⟩ s.process.store.rows = .ok rows) :
    Inv rt (s.moves rt i (.query i now)) := by
  obtain ⟨⟨v, hv, hten, hexpected⟩, hsame⟩ : Compared rt (s.look i) e existing := by
    have hgood := h.phase i
    rwa [hi] at hgood
  have hfind := persist_ok hrows
  obtain ⟨hlt, hsaw⟩ := h.look i v hv e.role
  rw [← hten] at hlt hsaw
  have hcurrent := h.current (e.tenantId, e.role)
  -- the edit names the current version, and brings a new one
  obtain ⟨hnamed, hread, hfresh⟩ : (s.record (e.tenantId, e.role)).Current e.expectedVersion ∧
      (s.record (e.tenantId, e.role)).Saw (v.seen e.role) e.expectedVersion ∧
      some (rt.toISOString now) ∉ (s.record (e.tenantId, e.role)).versions := by
    cases existing with
    | some row =>
      have hversion := hsame row rfl
      rw [versionOf, hguard.same e row hi, Option.map_some, ← hversion] at hcurrent
      refine ⟨hcurrent, ?_, hguard.fresh e row hi⟩
      rw [hversion]
      exact hsaw _ (by rw [← hexpected, hversion])
    | none =>
      have hnone : s.process.store.rows.find? (e.tenantId, e.role) = none := by
        unfold persist at hrows
        simp only [Option.isSome_none, Bool.false_and, Bool.false_eq_true, if_false, bind_eq_ok, found_eq_ok] at hrows
        obtain ⟨-, -, hins⟩ := hrows
        exact (Table.insert?_eq_some_iff.1 hins).1
      have hfirst := h.first _ hnone
      have hzero : v.seen e.role = 0 := by
        rw [hfirst] at hlt
        simpa using hlt
      have hno : e.expectedVersion = none := by
        cases hversion : e.expectedVersion with
        | none => rfl
        | some version =>
          have hseen := hsaw version (by rw [← hexpected, hversion])
          rw [Record.Saw, hfirst, hzero] at hseen
          cases hseen
      rw [hno, hzero, Record.Current, Record.Saw, hfirst]
      exact ⟨rfl, rfl, by simp⟩
  have hstep : Revocations.step rt s.process (.query i now) =
      { s.process.goto i (.saved e ⟨Revocations.previous existing, clean e.permissions, rt.toISOString now⟩) with
        store := { s.process.store with rows := rows }
        writer := update s.process.writer (e.tenantId, e.role) (some i) } := by
    simp only [Revocations.step, hi, hrows]
  have hphase : (Revocations.step rt s.process (.query i now)).phase i =
      .saved e ⟨Revocations.previous existing, clean e.permissions, rt.toISOString now⟩ := by
    rw [hstep]
    exact phase_goto_self ..
  have hgood : ∀ j, Good rt (s.look j) ((Revocations.step rt s.process (.query i now)).phase j) :=
    good_step h.phase (fun _ _ _ hev => by cases hev) fun i' now' e' hev => by
      obtain ⟨rfl, rfl⟩ := Revocations.Event.query.inj hev
      exact hguard.unseen e'
  set key : TenantId × String := (e.tenantId, e.role)
  set record := update s.record key
    ((s.record key).write i e.expectedVersion (v.seen e.role) (some (rt.toISOString now))) with hrecord
  have hmore : ∀ k, ∃ vs, (record k).versions = (s.record k).versions ++ vs := by
    intro k
    rw [hrecord, update_apply]
    split
    · rename_i hk
      rw [hk]
      exact ⟨_, rfl⟩
    · exact ⟨[], (List.append_nil _).symm⟩
  have hmoves : s.moves rt i (.query i now) = ⟨Revocations.step rt s.process (.query i now),
      update s.look i (.done ⟨v.tenantId, update v.version e.role (some (rt.toISOString now)),
        update v.seen e.role ((s.record key).place + 1)⟩), record⟩ := by
    simp only [State.moves, hi, hphase, hv]
    rfl
  rw [hmoves]
  refine ⟨fun j => ?_, fun j w hw => ?_, fun k => ?_, fun k hk => ?_, fun k => ?_⟩
  · by_cases hj : j = i
    · subst hj
      dsimp only
      rw [hphase]
      trivial
    · dsimp only
      rw [update_of_ne hj]
      exact hgood j
  · dsimp only at hw
    rw [update_apply] at hw
    split at hw
    · obtain rfl := Look.done.inj hw
      intro role
      dsimp only
      by_cases hrole : role = e.role
      · subst hrole
        rw [update_self, update_self, ← hten, hrecord, update_self]
        obtain ⟨hplace, hlast⟩ := saw_place_append (s.record key).versions (some (rt.toISOString now))
          ((s.record key).write i e.expectedVersion (v.seen e.role) (some (rt.toISOString now))).log
        rw [Record.place_append hnamed.pos] at hplace hlast
        refine ⟨hplace, fun version hversion => ?_⟩
        rw [← hversion]
        exact hlast
      · rw [update_of_ne hrole, update_of_ne hrole]
        exact (h.look i v hv).mono hmore role
    · exact (h.look j w hw).mono hmore
  · dsimp only
    rw [hstep, versionOf, hfind, key_row]
    by_cases hk : k = key
    · rw [hk, hrecord, update_self, if_pos rfl]
      exact Record.Current.append ..
    · rw [hrecord, update_of_ne hk, if_neg (Ne.symm hk)]
      exact h.current k
  · dsimp only at hk ⊢
    rw [hstep, hfind, key_row] at hk
    by_cases hke : key = k
    · rw [if_pos hke] at hk
      cases hk
    · rw [if_neg hke] at hk
      rw [hrecord, update_of_ne (Ne.symm hke)]
      exact h.first k hk
  · dsimp only
    rw [hrecord]
    by_cases hk : k = key
    · rw [hk, update_self]
      exact (h.sound _).write hnamed hread hfresh
    · rw [update_of_ne hk]
      exact h.sound k

theorem shown_eq_some {t : TenantId} {rows : List RoleRow} {role version : String}
    (h : shown rt t rows role = some version) :
    ∃ row ∈ rows, row.role = role ∧ rt.toISOString row.updatedAt = version := by
  obtain ⟨l₁, l₂, hl, -⟩ := List.lookup_eq_some_iff.1 h
  have hmem : (role, version) ∈ (matrix rt t rows).versions := by
    rw [hl]
    exact List.mem_append_right _ List.mem_cons_self
  obtain ⟨row, hrow, heq⟩ := List.mem_map.1 hmem
  obtain ⟨rfl, rfl⟩ := Prod.mk.inj heq
  exact ⟨row, (List.mem_filter.1 hrow).1, rfl, rfl⟩

theorem Inv.get (h : Inv rt s) (t : TenantId) : Inv rt (step rt s (.get i t)) := by
  refine h.looks fun v hv => ?_
  split at hv
  · cases hv
  obtain rfl := Look.done.inj hv
  intro role
  have hcur := h.current (t, role)
  refine ⟨(List.getElem?_eq_some_iff.1 hcur.saw).1, fun version hversion => ?_⟩
  obtain ⟨row, hrow, rfl, rfl⟩ := shown_eq_some hversion
  obtain ⟨hmem, hten⟩ := List.mem_filter.1 hrow
  obtain rfl : row.tenantId = t := by simpa using hten
  have hfind := Table.find?_of_mem hmem
  rw [key_row] at hfind
  rw [versionOf, hfind] at hcur
  exact hcur.saw

/-- The default rows are saved: the versions that come are the first ones. -/
theorem Inv.seed (h : Inv rt s) (now : Instant) : Inv rt (step rt s (.seed i now)) := by
  simp only [step]
  split
  swap
  · exact h
  rename_i t hi hempty
  split
  · have hlooks : Inv rt (s.looks i .none) := h.looks nofun
    rwa [State.looks, hi] at hlooks
  rename_i rows hins
  have hnew : ∀ role ∈ systemRoles, s.process.store.rows.find? (t, role) = none := by
    intro role hrole
    obtain ⟨p, hp, rfl⟩ := List.mem_map.1 hrole
    exact Table.find?_of_insertAll? hins (a := ⟨t, p.1, p.2.map Perm.key, now⟩) (List.mem_map_of_mem hp)
  -- a seeded role has the new row, another one what it had
  have hseeded : ∀ role ∈ systemRoles, ∃ row, rows.find? (t, role) = some row ∧ row.updatedAt = now := by
    intro role hrole
    obtain ⟨ps, hps⟩ : ∃ ps, defaultMatrix.lookup role = some ps := by
      rw [← Option.isSome_iff_exists, List.lookup_isSome_iff]
      obtain ⟨p, hp, rfl⟩ := List.mem_map.1 hrole
      exact ⟨p, hp, by simp⟩
    refine ⟨⟨t, role, ps.map Perm.key, now⟩, ?_, rfl⟩
    rw [Table.find?_insertAll? hins, hnew role hrole, Option.none_or, Runs.Permissions.find?_seeds, if_pos rfl, hps]
    rfl
  have hother : ∀ k : TenantId × String, ¬ (k.1 = t ∧ k.2 ∈ systemRoles) →
      rows.find? k = s.process.store.rows.find? k := by
    rintro ⟨t', role⟩ hk
    rw [Table.find?_insertAll? hins, Runs.Permissions.find?_seeds]
    split
    · rename_i ht
      have hno : defaultMatrix.lookup role = none := by
        rw [List.lookup_eq_none_iff]
        intro p hp
        have hne : role ≠ p.1 := fun heq => hk ⟨ht.symm, heq ▸ List.mem_map_of_mem hp⟩
        simpa using hne
      rw [hno, Option.map_none, Option.or_none]
    · rw [Option.or_none]
  have hmore : ∀ k, ∃ vs, (seeded rt s.record t now k).versions = (s.record k).versions ++ vs := by
    intro k
    unfold seeded
    split
    · exact ⟨_, rfl⟩
    · exact ⟨[], (List.append_nil _).symm⟩
  have hcurrent : ∀ k, (seeded rt s.record t now k).Current (versionOf rt rows k) := by
    rintro ⟨t', role⟩
    unfold seeded
    split
    · rename_i hk
      obtain ⟨rfl, hrole⟩ := hk
      obtain ⟨row, hrow, rfl⟩ := hseeded role hrole
      rw [versionOf, hrow]
      exact Record.Current.append ..
    · rename_i hk
      rw [versionOf, hother _ hk]
      exact h.current _
  refine ⟨fun j => ?_, fun j v hv => ?_, hcurrent, fun k hk => ?_, fun k => ?_⟩
  · dsimp only
    rw [update_apply]
    split
    · rename_i hj
      rw [hj, hi]
      trivial
    · exact h.phase j
  · dsimp only at hv
    rw [update_apply] at hv
    split at hv
    · obtain rfl := Look.done.inj hv
      intro role
      have hcur := hcurrent (t, role)
      refine ⟨(List.getElem?_eq_some_iff.1 hcur.saw).1, fun version hversion => ?_⟩
      obtain ⟨row, hrow, rfl, rfl⟩ := shown_eq_some hversion
      obtain ⟨p, hp, rfl⟩ := List.mem_map.1 hrow
      obtain ⟨row, hfind, hnow⟩ := hseeded p.1 (List.mem_map_of_mem hp)
      rw [versionOf, hfind, Option.map_some, hnow] at hcur
      exact hcur.saw
    · exact (h.look j v hv).mono hmore
  · dsimp only at hk ⊢
    unfold seeded
    split
    · rename_i hs
      obtain ⟨row, hrow, -⟩ := hseeded k.2 hs.2
      rw [show k = (t, k.2) from Prod.ext hs.1 rfl, hrow] at hk
      cases hk
    · rename_i hs
      exact h.first k ((hother k hs).symm.trans hk)
  · dsimp only
    unfold seeded
    split
    · rename_i hs
      have hfirst := h.first k (by rw [show k = (t, k.2) from Prod.ext hs.1 rfl]; exact hnew k.2 hs.2)
      refine (h.sound k).renew (by rw [hfirst]; exact Nat.one_pos) ?_
      rw [hfirst]
      simp
    · exact h.sound k

theorem inv_step (h : Inv rt s) {ev : Event ι} (hC : EditsGuarded rt s ev) : Inv rt (step rt s ev) := by
  have hgo : ∀ {i : ι} {ev : Revocations.Event ι}, (∀ i now e existing, ev = .query i now →
        s.process.phase i ≠ .saving e existing) →
      (∀ e existing e' result, s.process.phase i = .saving e existing →
        (Revocations.step rt s.process ev).phase i ≠ .saved e' result) →
      (∀ j, Good rt (s.look j) ((Revocations.step rt s.process ev).phase j)) → Inv rt (s.moves rt i ev) :=
    fun hquery hsaving hphase => by
      rw [moves_eq hsaving]
      exact h.go (rows_step hquery) hphase
  have hphase : ∀ i now, Guarded rt s i now → ∀ j,
      Good rt (s.look j) ((Revocations.step rt s.process (.query i now)).phase j) := fun i now hguard =>
    good_step h.phase (fun _ _ _ hev => by cases hev) fun i' now' e hev => by
      obtain ⟨rfl, rfl⟩ := Revocations.Event.query.inj hev
      exact hguard.unseen e
  cases ev with
  | get i t => exact h.get t
  | seed i now => exact h.seed now
  | copy i j => exact h.looks fun v hv => h.look j v hv
  | edit i role permissions actor now =>
    simp only [step]
    split
    · rename_i v hv
      refine hgo (fun _ _ _ _ hev => by cases hev) (fun e existing e' result hi => by simp [Revocations.step, hi])
        (good_step h.phase (fun i' e now' hev => ?_) fun _ _ _ hev => by cases hev)
      obtain ⟨rfl, hjob, rfl⟩ := Revocations.Event.call.inj hev
      obtain rfl := Revocations.Job.edit.inj hjob
      exact ⟨v, hv, rfl, rfl⟩
    · exact h
  | ask i q now =>
    refine hgo (fun _ _ _ _ hev => by cases hev) (fun e existing e' result hi => by simp [Revocations.step, hi])
      (good_step h.phase (fun i' e now' hev => ?_) fun _ _ _ hev => by cases hev)
    obtain ⟨-, hjob, -⟩ := Revocations.Event.call.inj hev
    cases hjob
  | query i now =>
    by_cases hi : ∃ e existing, s.process.phase i = .saving e existing
    · obtain ⟨e, existing, hi⟩ := hi
      cases hrows : persist existing ⟨e.tenantId, e.role, clean e.permissions, now⟩ s.process.store.rows with
      | ok rows => exact h.write hi hC hrows
      | error err =>
        have hstep : Revocations.step rt s.process (.query i now) = s.process.goto i (.failed err) := by
          simp only [Revocations.step, hi, hrows]
        have hfailed : (Revocations.step rt s.process (.query i now)).phase i = .failed err := by
          rw [hstep]
          exact phase_goto_self ..
        rw [step, moves_eq fun _ _ _ _ _ hsaved => by rw [hfailed] at hsaved; cases hsaved]
        exact h.go (by rw [hstep]; rfl) (hphase i now hC)
    · refine hgo (fun i' now' e existing hev => ?_)
        (fun e existing e' result hsaving => absurd ⟨e, existing, hsaving⟩ hi) (hphase i now hC)
      obtain ⟨rfl, rfl⟩ := Revocations.Event.query.inj hev
      exact fun hsaving => hi ⟨e, existing, hsaving⟩
  | reject i err =>
    have hquiet : ∀ j, Good rt (s.look j) ((Revocations.step rt s.process (.reject i err)).phase j) :=
      good_step h.phase (fun _ _ _ hev => by cases hev) fun _ _ _ hev => by cases hev
    refine hgo (fun _ _ _ _ hev => ?_) (fun e existing e' result hi => ?_) hquiet
    · cases hev
    · simp [Revocations.step, hi]
  | resume i now =>
    have hquiet : ∀ j, Good rt (s.look j) ((Revocations.step rt s.process (.resume i now)).phase j) :=
      good_step h.phase (fun _ _ _ hev => by cases hev) fun _ _ _ hev => by cases hev
    refine hgo (fun _ _ _ _ hev => ?_) (fun e existing e' result hi => ?_) hquiet
    · cases hev
    · simp [Revocations.step, hi]
  | message tenantId =>
    have hquiet : ∀ j, Good rt (s.look j) ((Revocations.step rt s.process (.message tenantId)).phase j) :=
      good_step h.phase (fun _ _ _ hev => by cases hev) fun _ _ _ hev => by cases hev
    refine h.go (rows_step fun _ _ _ _ hev => ?_) hquiet
    cases hev

omit [DecidableEq ι] in
theorem Inv.record (h : Inv rt s) (k : TenantId × String) : NoSilentOverwrite (s.record k).log :=
  (h.sound k).noSilentOverwrite

end BookingSystem.Concurrency.MatrixEdits
