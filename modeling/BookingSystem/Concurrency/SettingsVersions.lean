import BookingSystem.Concurrency.SettingsSaves

/-!
# Optimistic locking of the settings

Administrators work on the settings of their tenants and on the permission matrix side by side. Each of them writes with
the version that they have read. Nothing is overwritten silently in a run whose steps are all `Guarded`
(`none_overwritten`).
-/

namespace BookingSystem.Concurrency.SettingsVersions

open Base Model

/-- The settings and the permission matrix. -/
structure State (ι : Type) where
  settings : SettingsSaves.State ι
  matrix : MatrixEdits.State ι

inductive Event (ι : Type)
  | settings (ev : SettingsSaves.Event ι)
  | matrix (ev : MatrixEdits.Event ι)

/-- Functions of the runtime. -/
structure Runtime where
  numbers : CustomizationService.Runtime
  texts : PermissionsService.Runtime

def start {ι : Type} (rt : Runtime) (settings : Table CustomizationService.SettingsRow)
    (roles : Table PermissionsService.RoleRow) : State ι :=
  ⟨SettingsSaves.start settings, MatrixEdits.start rt.texts roles⟩

variable {ι : Type} [DecidableEq ι]

def step (rt : Runtime) (s : State ι) : Event ι → State ι
  | .settings ev => { s with settings := SettingsSaves.step rt.numbers s.settings ev }
  | .matrix ev => { s with matrix := MatrixEdits.step rt.texts s.matrix ev }

/-- **A guarded step.** A save of settings that has found no row does not find one later; an edit of a role writes over
the row that it has compared, with a version of its own, and over none if it knows of none. -/
def Guarded (rt : Runtime) (s : State ι) : Event ι → Prop
  | .settings ev => SettingsSaves.FindsNone s.settings ev
  | .matrix ev => MatrixEdits.EditsGuarded rt.texts s.matrix ev

/-- No save of settings and no edit of a role is overwritten silently. -/
structure NoneOverwritten (s : State ι) : Prop where
  settings : ∀ tenantId, NoSilentOverwrite (s.settings.record tenantId).log
  matrix : ∀ k, NoSilentOverwrite (s.matrix.record k).log

/-- **No silent overwrite** in any run of guarded steps, whatever rows there are at first. -/
theorem none_overwritten (rt : Runtime) (settings : Table CustomizationService.SettingsRow)
    (roles : Table PermissionsService.RoleRow) (es : List (Event ι))
    (h : AllSteps (step rt) (Guarded rt) (start rt settings roles) es) :
    NoneOverwritten (run (step rt) (start rt settings roles) es) := by
  have hinv : SettingsSaves.Inv (run (step rt) (start rt settings roles) es).settings ∧
      MatrixEdits.Inv rt.texts (run (step rt) (start rt settings roles) es).matrix := by
    refine run_invariant (I := fun s => SettingsSaves.Inv s.settings ∧ MatrixEdits.Inv rt.texts s.matrix)
      (fun s ev hs hC => ?_) ⟨SettingsSaves.inv_start settings, MatrixEdits.inv_start roles⟩ h
    cases ev with
    | settings ev => exact ⟨SettingsSaves.inv_step hs.1 hC, hs.2⟩
    | matrix ev => exact ⟨hs.1, MatrixEdits.inv_step hs.2 hC⟩
  exact ⟨hinv.1.record, hinv.2.record⟩

section Example

def plainRuntime : Runtime := ⟨⟨fun _ => false, fun n => n.literal⟩, ⟨id, fun t => toString t⟩⟩

def secretaries : PermissionsService.RoleRow := ⟨Revocations.tenant, Roles.secretary, ["booking.create"], 0⟩

def oneRole : Table PermissionsService.RoleRow := ⟨[secretaries], List.nodup_singleton _⟩

/-- One administrator saves the settings, another one edits the role. -/
theorem none_overwritten_alone : NoneOverwritten (run (step plainRuntime) (start plainRuntime .empty oneRole)
    ([.settings (.get 0 "t"), .settings (.save 0 []), .settings (.find 0), .settings (.look 0), .settings (.write 0),
      .settings (.commit 0), .matrix (.get 1 Revocations.tenant), .matrix (.edit 1 Roles.secretary [] none 1),
      .matrix (.query 1 1), .matrix (.resume 1 1), .matrix (.query 1 1), .matrix (.resume 1 1)] : List (Event ℕ))) := by
  refine none_overwritten _ _ _ _ ⟨trivial, trivial, trivial, fun _ _ _ => rfl, trivial, trivial, trivial, trivial, ?_,
    trivial, ?_, trivial, trivial⟩
  · refine ⟨fun e he hnone => ?_, fun e row h => ?_, fun e row h => ?_⟩
    · cases he
      cases hnone
    · cases h
    · cases h
  · refine ⟨fun e h => ?_, fun e row h => ?_, fun e row h => ?_⟩
    · cases h
    · cases h
      rfl
    · cases h
      decide

/-- Two administrators save the settings of a tenant that has none yet; the second one looks for the row again after the
first one has committed. -/
def firstSaves : List (Event ℕ) :=
  [.settings (.get 0 "t"), .settings (.get 1 "t"), .settings (.save 0 []), .settings (.save 1 []), .settings (.find 0),
    .settings (.find 1), .settings (.look 0), .settings (.write 0), .settings (.commit 0), .settings (.look 1),
    .settings (.write 1), .settings (.commit 1)]

/-- Two administrators edit a role; both have compared its version before one of them writes. -/
def bothCompared : List (Event ℕ) :=
  [.matrix (.get 0 Revocations.tenant), .matrix (.get 1 Revocations.tenant),
    .matrix (.edit 0 Roles.secretary [] none 1), .matrix (.edit 1 Roles.secretary ["booking.update"] none 1),
    .matrix (.query 0 1), .matrix (.query 1 1), .matrix (.resume 0 1), .matrix (.resume 1 1), .matrix (.query 0 1),
    .matrix (.query 1 2)]

/-- Both writes succeed, with the settings as with the matrix. -/
theorem both_overwritten :
    ¬ NoneOverwritten (run (step plainRuntime) (start plainRuntime .empty .empty) firstSaves) ∧
    ¬ NoneOverwritten (run (step plainRuntime) (start plainRuntime .empty oneRole) bothCompared) := by
  constructor
  · intro h
    have hseen := (h.settings "t").seen ⟨1, 0, 0, 1⟩ (List.mem_cons_of_mem _ List.mem_cons_self)
    cases hseen
  · intro h
    have hseen := (h.matrix (Revocations.tenant, Roles.secretary)).seen ⟨1, some "0", 0, 1⟩
      (List.mem_cons_of_mem _ List.mem_cons_self)
    cases hseen

end Example

end BookingSystem.Concurrency.SettingsVersions
