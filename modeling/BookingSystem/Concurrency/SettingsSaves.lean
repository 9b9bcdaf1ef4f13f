import BookingSystem.Model.Customization
import BookingSystem.Concurrency.MatrixEdits
import Mathlib.Data.List.Nodup
import Mathlib.Logic.Function.Basic

/-!
# Saves of the settings of a tenant side by side

Administrators read the settings and save them with the version that they have read, under READ COMMITTED. A save holds
the lock of the row from its first lookup to its commit, if there is a row. If there is none it holds nothing, and
`repository.save` looks for the row again: it inserts a row when it finds none, and writes over the one that it finds.
As long as it finds none (`FindsNone`), no save is overwritten silently (`Inv.record`).
-/

namespace BookingSystem.Concurrency.SettingsSaves

open Function (update update_apply update_idem update_of_ne update_self)
open Base Model Model.CustomizationService

/-! ### The calls -/

/-- What an administrator has read: the version, and which one of the row's versions that is. -/
structure View where
  tenantId : Uuid
  version : ℕ
  seen : ℕ

/-- How far a save is: its transaction waits for the row, has locked it, or has found none; `repository.save` inserts or
updates; the statement is done and not committed. -/
inductive Phase
  | ready
  | waiting (v : View) (data : Members)
  | locked (v : View) (data : Members) (row : SettingsRow)
  | missing (v : View) (data : Members)
  | inserting (v : View) (data : Members)
  | updating (v : View) (data : Members)
  | written (v : View) (row : SettingsRow)
  | saved (result : Settings)
  | failed (e : HttpError)

/-- The committed rows, the transactions that hold a row lock or have inserted a key, how far each call is, what each
administrator has read, and the versions that the row of a tenant has had. -/
structure State (ι : Type) where
  rows : Table SettingsRow
  lock : Uuid → Option ι := fun _ => none
  phase : ι → Phase := fun _ => .ready
  view : ι → Option View := fun _ => none
  record : Uuid → Record ι ℕ

/-- The version that `get` hands out. -/
def version (rows : Table SettingsRow) (tenantId : Uuid) : ℕ := (CustomizationService.get tenantId rows).version

def start {ι : Type} (rows : Table SettingsRow) : State ι :=
  { rows := rows, record := fun t => ⟨[version rows t], []⟩ }

/-- What happens: an administrator reads the settings, or goes on with what another one has read or was handed by a
save; a save begins, looks for the row, looks for it again inside `repository.save`, writes, commits, or fails. -/
inductive Event (ι : Type)
  | get (i : ι) (tenantId : Uuid)
  | copy (i j : ι)
  | save (i : ι) (incoming : Members)
  | find (i : ι)
  | look (i : ι)
  | write (i : ι)
  | commit (i : ι)
  | reject (i : ι) (err : HttpError)

variable {ι : Type} [DecidableEq ι]

def State.goto (s : State ι) (i : ι) (phase : Phase) : State ι := { s with phase := update s.phase i phase }

def State.hold (s : State ι) (i : ι) (tenantId : Uuid) (phase : Phase) : State ι :=
  { s.goto i phase with lock := update s.lock tenantId (some i) }

def State.fail (s : State ι) (i : ι) (err : HttpError) : State ι :=
  { s.goto i (.failed err) with lock := fun t => if s.lock t = some i then none else s.lock t }

def put (row : SettingsRow) (rows : Table SettingsRow) : Table SettingsRow :=
  match rows.find? row.tenantId with
  | some _ => rows.save row
  | none => (rows.insert? row).getD rows

def uniqueViolation : HttpError := .internal "duplicate key value violates unique constraint"

def step (rt : Runtime) (s : State ι) : Event ι → State ι
  | .get i t =>
    { s with view := update s.view i (some ⟨t, version s.rows t, (s.record t).place⟩) }
  | .copy i j => { s with view := update s.view i (s.view j) }
  | .save i incoming =>
    match s.phase i, s.view i with
    | .ready, some v =>
      match sanitise rt incoming with
      | .ok data => s.goto i (.waiting v data)
      | .error err => s.goto i (.failed err)
    | _, _ => s
  | .find i =>
    match s.phase i with
    | .waiting v data =>
      match s.rows.find? v.tenantId with
      | none => s.goto i (.missing v data)
      | some row =>
        if s.lock v.tenantId = none then
          if isStale (some v.version) (some row) then s.fail i conflict
          else s.hold i v.tenantId (.locked v data row)
        else s
    | _ => s
  | .look i =>
    match s.phase i with
    | .missing v data =>
      s.goto i (if (s.rows.find? v.tenantId).isSome then .updating v data else .inserting v data)
    | _ => s
  | .write i =>
    match s.phase i with
    | .locked v data row => s.goto i (.written v (nextRow v.tenantId data (some row)))
    | .inserting v data =>
      if s.lock v.tenantId = none then
        if (s.rows.find? v.tenantId).isSome then s.fail i uniqueViolation
        else s.hold i v.tenantId (.written v (nextRow v.tenantId data none))
      else s
    | .updating v data =>
      if s.lock v.tenantId = none then s.hold i v.tenantId (.written v (nextRow v.tenantId data none)) else s
    | _ => s
  | .commit i =>
    match s.phase i with
    | .written v row =>
      { s.goto i (.saved ⟨row.data, row.version⟩) with
        rows := put row s.rows
        lock := update s.lock v.tenantId none
        view := update s.view i (some ⟨v.tenantId, row.version, (s.record v.tenantId).place + 1⟩)
        record := update s.record v.tenantId ((s.record v.tenantId).write i v.version v.seen row.version) }
    | _ => s
  | .reject i err =>
    match s.phase i with
    | .ready | .saved _ | .failed _ => s
    | _ => s.fail i err

def saveAlone (i : ι) (incoming : Members) : List (Event ι) := [.save i incoming, .find i, .look i, .write i, .commit i]

section alone

variable {rt : Runtime} {s : State ι} {i : ι} {v : View} {data : Members} {phase : Phase}

@[simp] theorem goto_phase : (s.goto i phase).phase i = phase := update_self ..

@[simp] theorem goto_rows : (s.goto i phase).rows = s.rows := rfl

@[simp] theorem goto_lock : (s.goto i phase).lock = s.lock := rfl

theorem goto_goto (phase' : Phase) : (s.goto i phase).goto i phase' = s.goto i phase' := by
  simp only [State.goto, update_idem]

theorem run_failed {err : HttpError} (h : s.phase i = .failed err) :
    run (step rt) s [.find i, .look i, .write i, .commit i] = s := by
  simp only [run_cons, run_nil, step, h]

theorem run_missing (hrow : s.rows.find? v.tenantId = none) :
    run (step rt) (s.goto i (.waiting v data)) [.find i, .look i] = s.goto i (.inserting v data) := by
  have hfind : step rt (s.goto i (.waiting v data)) (.find i) = s.goto i (.missing v data) := by
    simp only [step, goto_phase, goto_rows, hrow, goto_goto]
  have hlook : step rt (s.goto i (.missing v data)) (.look i) = s.goto i (.inserting v data) := by
    simp only [step, goto_phase, goto_rows, hrow, goto_goto, Option.isSome_none, Bool.false_eq_true, if_false]
  rw [run_cons, hfind, run_cons, hlook, run_nil]

variable (rt s) in
theorem commit_written {row : SettingsRow} (h : s.phase i = .written v row) :
    (step rt s (.commit i)).rows = put row s.rows ∧
      (step rt s (.commit i)).phase i = .saved ⟨row.data, row.version⟩ := by
  simp only [step, h]
  exact ⟨trivial, goto_phase⟩

theorem put_of_none {row : SettingsRow} {rows rows' : Table SettingsRow} (hrow : rows.find? row.tenantId = none)
    (hins : rows.insert? row = some rows') : put row rows = rows' := by
  rw [put, hrow, hins]
  rfl

theorem put_of_some {row old : SettingsRow} {rows : Table SettingsRow} (hrow : rows.find? row.tenantId = some old) :
    put row rows = rows.save row := by
  rw [put, hrow]

/-- A save alone is `save`. -/
theorem run_saveAlone {incoming : Members} (hi : s.phase i = .ready) (hv : s.view i = some v)
    (hfree : s.lock v.tenantId = none) :
    let s' := run (step rt) s (saveAlone i incoming)
    match save rt v.tenantId (some v.version) incoming s.rows with
    | .ok (result, rows) => s'.rows = rows ∧ s'.phase i = .saved result
    | .error err => s'.rows = s.rows ∧ s'.phase i = .failed err := by
  cases hdata : sanitise rt incoming with
  | error err =>
    have hbegin : step rt s (.save i incoming) = s.goto i (.failed err) := by simp only [step, hi, hv, hdata]
    have hsave : save rt v.tenantId (some v.version) incoming s.rows = .error err := by
      rw [save, hdata]
      rfl
    rw [saveAlone, run_cons, hbegin, run_failed goto_phase, hsave]
    exact ⟨rfl, goto_phase⟩
  | ok data =>
    have hbegin : step rt s (.save i incoming) = s.goto i (.waiting v data) := by simp only [step, hi, hv, hdata]
    cases hrow : s.rows.find? v.tenantId with
    | none =>
      obtain ⟨rows, hins⟩ := Table.insert?_of_find? (t := s.rows) (a := nextRow v.tenantId data none) hrow
      have hsave : save rt v.tenantId (some v.version) incoming s.rows =
          .ok (⟨data, (nextRow v.tenantId data none).version⟩, rows) := by
        rw [save, hdata]
        simp only [hrow, bind, Except.bind, isStale, require, hins, found]
        rfl
      have hwrite : step rt (s.goto i (.inserting v data)) (.write i) =
          (s.goto i (.inserting v data)).hold i v.tenantId (.written v (nextRow v.tenantId data none)) := by
        simp only [step, goto_phase, goto_rows, goto_lock, hrow, hfree, Option.isSome_none, Bool.false_eq_true,
          if_false, if_true]
      have hrun : run (step rt) s (saveAlone i incoming) =
          step rt ((s.goto i (.inserting v data)).hold i v.tenantId
            (.written v (nextRow v.tenantId data none))) (.commit i) := by
        rw [saveAlone, run_cons, hbegin]
        exact (run_append (step rt) _ [.find i, .look i] _).trans (by rw [run_missing hrow, run_cons, hwrite]; rfl)
      rw [hrun, hsave]
      have hcommit := commit_written rt ((s.goto i (.inserting v data)).hold i v.tenantId
        (.written v (nextRow v.tenantId data none))) goto_phase
      exact ⟨hcommit.1.trans (put_of_none hrow hins), hcommit.2⟩
    | some row =>
      by_cases hstale : isStale (some v.version) (some row) = true
      · have hfind : step rt (s.goto i (.waiting v data)) (.find i) = (s.goto i (.waiting v data)).fail i conflict := by
          simp only [step, goto_phase, goto_rows, goto_lock, hrow, hfree, hstale, if_true]
        have hsave : save rt v.tenantId (some v.version) incoming s.rows = .error conflict := by
          rw [save, hdata]
          simp only [hrow, bind, Except.bind, hstale, require]
          rfl
        have hfailed : ((s.goto i (.waiting v data)).fail i conflict).phase i = .failed conflict := goto_phase
        rw [saveAlone, run_cons, hbegin, run_cons, hfind, hsave]
        simp only [run_cons, run_nil, step, hfailed]
        exact ⟨rfl, trivial⟩
      · rw [Bool.not_eq_true] at hstale
        have hfind : step rt (s.goto i (.waiting v data)) (.find i) =
            (s.goto i (.waiting v data)).hold i v.tenantId (.locked v data row) := by
          simp only [step, goto_phase, goto_rows, goto_lock, hrow, hfree, hstale, if_true, Bool.false_eq_true, if_false]
        have hsave : save rt v.tenantId (some v.version) incoming s.rows = .ok (⟨data,
            (nextRow v.tenantId data (some row)).version⟩, s.rows.save (nextRow v.tenantId data (some row))) := by
          rw [save, hdata]
          simp only [hrow, bind, Except.bind, hstale, require]
          rfl
        have hlocked : ((s.goto i (.waiting v data)).hold i v.tenantId (.locked v data row)).phase i =
            .locked v data row := goto_phase
        rw [saveAlone, run_cons, hbegin, run_cons, hfind, hsave]
        simp only [run_cons, run_nil]
        have hlook : step rt ((s.goto i (.waiting v data)).hold i v.tenantId (.locked v data row)) (.look i) =
            (s.goto i (.waiting v data)).hold i v.tenantId (.locked v data row) := by simp only [step, hlocked]
        have hwrite : step rt ((s.goto i (.waiting v data)).hold i v.tenantId (.locked v data row)) (.write i) =
            ((s.goto i (.waiting v data)).hold i v.tenantId (.locked v data row)).goto i
              (.written v (nextRow v.tenantId data (some row))) := by simp only [step, hlocked]
        rw [hlook, hwrite]
        have hcommit := commit_written rt (((s.goto i (.waiting v data)).hold i v.tenantId
          (.locked v data row)).goto i (.written v (nextRow v.tenantId data (some row)))) goto_phase
        exact ⟨hcommit.1.trans (put_of_some hrow), hcommit.2⟩

end alone

/-- **No row turns up**: when `repository.save` looks for the row that the lookup before it has not found, there is
still none. -/
def FindsNone (s : State ι) : Event ι → Prop
  | .look i => ∀ v data, s.phase i = .missing v data → s.rows.find? v.tenantId = none
  | _ => True

/-! ### The invariant -/

/-- The version that was read is one of the row's. -/
def Read (record : Uuid → Record ι ℕ) (v : View) : Prop := (record v.tenantId).Saw v.seen v.version

/-- What holds of a call in its phase: it has read one of the row's versions; if it has locked the row or written it, it
has read the current version. -/
def Good (rows : Table SettingsRow) (lock : Uuid → Option ι) (record : Uuid → Record ι ℕ) (i : ι) : Phase → Prop
  | .waiting v _ | .missing v _ | .inserting v _ => Read record v
  | .locked v _ row => Read record v ∧ lock v.tenantId = some i ∧ rows.find? v.tenantId = some row ∧
      row.version = v.version
  | .written v row => Read record v ∧ lock v.tenantId = some i ∧ row.tenantId = v.tenantId ∧
      version rows v.tenantId = v.version ∧ row.version = v.version + 1
  | .updating _ _ => False
  | .ready | .saved _ | .failed _ => True

structure Inv (s : State ι) : Prop where
  phase : ∀ i, Good s.rows s.lock s.record i (s.phase i)
  view : ∀ i v, s.view i = some v → Read s.record v
  current : ∀ t, (s.record t).Current (version s.rows t)
  latest : ∀ t, ∀ v ∈ (s.record t).versions, v ≤ version s.rows t
  sound : ∀ t, (s.record t).Sound

variable {rt : Runtime} {s : State ι} {i j : ι}

omit [DecidableEq ι] in
theorem inv_start (rows : Table SettingsRow) : Inv (start rows : State ι) where
  phase _ := trivial
  view _ _ h := nomatch h
  current _ := rfl
  latest _ _ hv := (List.mem_singleton.1 hv).le
  sound _ := Record.sound_singleton _

omit [DecidableEq ι] in
theorem Good.frame {rows rows' : Table SettingsRow} {lock lock' : Uuid → Option ι} {record record' : Uuid → Record ι ℕ}
    {phase : Phase} (h : Good rows lock record i phase)
    (hlock : ∀ t, lock t = some i → lock' t = some i ∧ rows'.find? t = rows.find? t)
    (hread : ∀ v, Read record v → Read record' v) : Good rows' lock' record' i phase := by
  cases phase with
  | waiting v data => exact hread v h
  | missing v data => exact hread v h
  | inserting v data => exact hread v h
  | locked v data row =>
    obtain ⟨hv, hl, hrow, hversion⟩ := h
    exact ⟨hread v hv, (hlock _ hl).1, (hlock _ hl).2.trans hrow, hversion⟩
  | written v row =>
    obtain ⟨hv, hl, ht, hcur, hversion⟩ := h
    refine ⟨hread v hv, (hlock _ hl).1, ht, ?_, hversion⟩
    rw [← hcur, version, version, CustomizationService.get, CustomizationService.get, (hlock _ hl).2]
  | _ => exact h

theorem Inv.move (h : Inv s) {phase : Phase} {lock : Uuid → Option ι}
    (hlock : ∀ t j, j ≠ i → s.lock t = some j → lock t = some j) (hphase : Good s.rows lock s.record i phase) :
    Inv { s.goto i phase with lock := lock } where
  phase j := by
    show Good s.rows lock s.record j (update s.phase i phase j)
    rw [update_apply]
    split
    · rename_i hj
      rw [hj]
      exact hphase
    · rename_i hj
      exact (h.phase j).frame (fun t ht => ⟨hlock t j hj ht, rfl⟩) fun _ hv => hv
  view := h.view
  current := h.current
  latest := h.latest
  sound := h.sound

theorem Inv.goto (h : Inv s) {phase : Phase} (hphase : Good s.rows s.lock s.record i phase) : Inv (s.goto i phase) :=
  h.move (fun _ _ _ ht => ht) hphase

theorem Inv.fail (h : Inv s) (err : HttpError) : Inv (s.fail i err) := by
  refine h.move (fun t j hj ht => ?_) trivial
  rw [if_neg (by rw [ht]; exact fun heq => hj (Option.some.inj heq))]
  exact ht

theorem Inv.hold (h : Inv s) {t : Uuid} (hfree : s.lock t = none) {phase : Phase}
    (hphase : Good s.rows (update s.lock t (some i)) s.record i phase) : Inv (s.hold i t phase) := by
  refine h.move (fun t' j hj ht' => ?_) hphase
  rw [update_of_ne ?_]
  · exact ht'
  · rintro rfl
    rw [hfree] at ht'
    cases ht'

theorem Inv.looks (h : Inv s) {v : Option View} (hv : ∀ w, v = some w → Read s.record w) :
    Inv { s with view := update s.view i v } where
  phase := h.phase
  view j w hw := by
    have hw' : update s.view i v j = some w := hw
    rw [update_apply] at hw'
    split at hw'
    · exact hv w hw'
    · exact h.view j w hw'
  current := h.current
  latest := h.latest
  sound := h.sound

omit [DecidableEq ι] in
theorem Inv.version_eq (h : Inv s) {v : View} (hv : Read s.record v) (hnone : s.rows.find? v.tenantId = none) :
    v.version = 0 := by
  have hle := h.latest v.tenantId v.version hv.mem
  have hzero : version s.rows v.tenantId = 0 := by
    rw [version, CustomizationService.get, hnone]
    rfl
  omega

theorem find?_put (row : SettingsRow) (rows : Table SettingsRow) (t : Uuid) :
    (put row rows).find? t = if row.tenantId = t then some row else rows.find? t := by
  unfold put
  cases hrow : rows.find? row.tenantId with
  | some old =>
    simp only [Table.find?_save, key_settingsRow]
    by_cases ht : row.tenantId = t
    · rw [if_pos ht, if_pos ht, ← ht, hrow]
      rfl
    · rw [if_neg ht, if_neg ht]
  | none =>
    obtain ⟨rows', hins⟩ : ∃ rows', rows.insert? row = some rows' := Table.insert?_of_find? hrow
    rw [hins, Option.getD_some, Table.find?_insert? hins, key_settingsRow]

/-- **A commit** brings the next version, over the one that its writer has read. -/
theorem Inv.commit (h : Inv s) {v : View} {row : SettingsRow} (hi : s.phase i = .written v row) :
    Inv (step rt s (.commit i)) := by
  obtain ⟨hread, hl, ht, hcur, hversion⟩ : Good s.rows s.lock s.record i (.written v row) := hi ▸ h.phase i
  have hfind := find?_put row s.rows
  rw [ht] at hfind
  have hother : ∀ {t}, v.tenantId ≠ t → version (put row s.rows) t = version s.rows t := fun hne => by
    rw [version, version, CustomizationService.get, CustomizationService.get, hfind, if_neg hne]
  have hself : version (put row s.rows) v.tenantId = row.version := by
    rw [version, CustomizationService.get, hfind, if_pos rfl]
    rfl
  have hcurrent := h.current v.tenantId
  rw [hcur] at hcurrent
  have hfresh : row.version ∉ (s.record v.tenantId).versions := fun hmem => by
    have := h.latest v.tenantId row.version hmem
    omega
  have hsaw : ∀ w : View, Read s.record w → Read (update s.record v.tenantId
      ((s.record v.tenantId).write i v.version v.seen row.version)) w := fun w hw => by
    unfold Read at hw ⊢
    by_cases hwt : w.tenantId = v.tenantId
    · rw [hwt, update_self]
      rw [hwt] at hw
      exact hw.append ..
    · rw [update_of_ne hwt]
      exact hw
  simp only [step, hi]
  refine ⟨fun j => ?_, fun j w hw => ?_, fun t => ?_, fun t => ?_, fun t => ?_⟩
  · show Good (put row s.rows) (update s.lock v.tenantId none) _ j (update s.phase i _ j)
    rw [update_apply]
    split
    · trivial
    · rename_i hj
      -- the others hold other rows
      refine (h.phase j).frame (fun t hjt => ?_) hsaw
      have hne : t ≠ v.tenantId := by
        rintro rfl
        exact hj (Option.some.inj (hjt.symm.trans hl))
      exact ⟨(update_of_ne hne _ _).trans hjt, by rw [hfind, if_neg (Ne.symm hne)]⟩
  · dsimp only at hw
    rw [update_apply] at hw
    split at hw
    · obtain rfl := Option.some.inj hw
      show Record.Saw (update s.record v.tenantId _ v.tenantId) _ _
      rw [update_self]
      have hplace := (Record.Current.append (s.record v.tenantId).versions row.version
        ((s.record v.tenantId).write i v.version v.seen row.version).log).saw
      rwa [Record.place_append hcurrent.pos] at hplace
    · exact hsaw w (h.view j w hw)
  · show Record.Current (update s.record v.tenantId _ t) (version (put row s.rows) t)
    by_cases hvt : t = v.tenantId
    · subst hvt
      rw [update_self, hself]
      exact Record.Current.append ..
    · rw [update_of_ne hvt, hother (Ne.symm hvt)]
      exact h.current t
  · show ∀ w ∈ (update s.record v.tenantId _ t).versions, w ≤ version (put row s.rows) t
    by_cases hvt : t = v.tenantId
    · subst hvt
      rw [update_self, hself]
      intro w hw
      rcases List.mem_append.1 hw with hw | hw
      · have := h.latest v.tenantId w hw
        omega
      · exact (List.mem_singleton.1 hw).le
    · rw [update_of_ne hvt, hother (Ne.symm hvt)]
      exact h.latest t
  · show Record.Sound (update s.record v.tenantId _ t)
    by_cases hvt : t = v.tenantId
    · subst hvt
      rw [update_self]
      exact (h.sound v.tenantId).write hcurrent hread hfresh
    · rw [update_of_ne hvt]
      exact h.sound t

theorem inv_step (h : Inv s) {ev : Event ι} (hC : FindsNone s ev) : Inv (step rt s ev) := by
  have hgood : ∀ {i phase}, s.phase i = phase → Good s.rows s.lock s.record i phase := fun hi => hi ▸ h.phase _
  cases ev with
  | get i t =>
    refine h.looks fun w hw => ?_
    obtain rfl := Option.some.inj hw
    exact (h.current t).saw
  | copy i j => exact h.looks fun w hw => h.view j w hw
  | save i incoming =>
    simp only [step]
    split
    · rename_i v hi hv
      split
      · exact h.goto (h.view i v hv)
      · exact h.goto trivial
    · exact h
  | find i =>
    simp only [step]
    split
    · rename_i v data hi
      have hread : Read s.record v := hgood hi
      split
      · exact h.goto hread
      · rename_i row hrow
        split
        · rename_i hfree
          split
          · exact h.fail _
          · rename_i hstale
            have hversion : row.version = v.version := by simpa [isStale] using hstale
            exact h.hold hfree ⟨hread, update_self .., hrow, hversion⟩
        · exact h
    · exact h
  | look i =>
    simp only [step]
    split
    · rename_i v data hi
      have hread : Read s.record v := hgood hi
      rw [hC v data hi]
      exact h.goto hread
    · exact h
  | write i =>
    simp only [step]
    split
    · rename_i v data row hi
      obtain ⟨hread, hl, hrow, hversion⟩ : Good s.rows s.lock s.record i (.locked v data row) := hgood hi
      refine h.goto ⟨hread, hl, rfl, ?_, congrArg (· + 1) hversion⟩
      rw [version, CustomizationService.get, hrow]
      exact hversion
    · rename_i v data hi
      have hread : Read s.record v := hgood hi
      split
      · rename_i hfree
        split
        · exact h.fail _
        · rename_i hnone
          rw [Bool.not_eq_true, Option.isSome_eq_false_iff, Option.isNone_iff_eq_none] at hnone
          have hzero := h.version_eq hread hnone
          refine h.hold hfree ⟨hread, update_self .., rfl, ?_, ?_⟩
          · rw [version, CustomizationService.get, hnone, hzero]
            rfl
          · rw [hzero]
            rfl
      · exact h
    · rename_i v data hi
      exact (hgood hi : False).elim
    · exact h
  | commit i =>
    by_cases hi : ∃ v row, s.phase i = .written v row
    · obtain ⟨v, row, hi⟩ := hi
      exact h.commit hi
    · have hstay : step rt s (.commit i) = s := by
        simp only [step]
        split
        · rename_i v row hw
          exact absurd ⟨v, row, hw⟩ hi
        · rfl
      rw [hstay]
      exact h
  | reject i err =>
    simp only [step]
    split
    · exact h
    · exact h
    · exact h
    · exact h.fail err

omit [DecidableEq ι] in
theorem Inv.record (h : Inv s) (t : Uuid) : NoSilentOverwrite (s.record t).log := (h.sound t).noSilentOverwrite

end BookingSystem.Concurrency.SettingsSaves
