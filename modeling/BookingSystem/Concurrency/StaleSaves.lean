import BookingSystem.Base.Run
import BookingSystem.Service.UseCases
import Mathlib.Logic.Function.Basic

/-!
# Saves of what was read before a decision

Calls of the Go service on one booking side by side, under READ COMMITTED: each reads the row, and later saves it or
updates its status in a transaction that holds the row lock until it commits. `UpdateStatus` leaves the version as it
is, so a `Save` can succeed although a decision was committed since its read. None does as long as no decision is
committed while another call is about to save the version it leaves in place (`no_stale_save`).
-/

namespace BookingSystem.Concurrency.StaleSaves

open Base Service
open Model (Uuid Instant BookingStatus)

/-! ### The calls -/

/-- What a call does with the booking. The validator of an `Execute` reads other rows, so it may give anything. -/
inductive Job
  | execute (check : ValidationInput → Except CallError ValidationResult) (req : UpdateRequest)
  | redeem (now : Instant)
  | release
  | cancel (reason : String)
  | approve
  | reject (reason : String)
  | decide (d : Service.Decision) (notes : String)

/-- The write that a call has decided on. -/
inductive Plan
  | save (b : Booking)
  | update (status : BookingStatus) (notes : String)
  | stop

/-- What a call does after it has read the booking `b`; the chain's `Decide` does not read it. -/
def Job.plan (b : Booking) : Job → Plan
  | .execute check req =>
    match updated check req b with
    | .ok b' => .save b'
    | .error _ => .stop
  | .redeem now => .save (b.checkIn now)
  | .release => if releasable b then .save b.miss else .stop
  | .cancel reason => if b.status = .cancelled then .stop else .update .cancelled reason
  | .approve =>
    match approveNeeded b with
    | .ok true => .update .confirmed ""
    | _ => .stop
  | .reject reason =>
    match rejectable b with
    | .ok _ => .update .cancelled ("Rejected: " ++ reason)
    | .error _ => .stop
  | .decide .approved notes => .update .confirmed notes
  | .decide .rejected notes => .update .cancelled notes

def decides (status : BookingStatus) : Bool := status == .cancelled || status == .confirmed

/-! ### The transactions -/

/-- How far a call is. A call about to save has read the booking when `seen` decisions were committed; one that has
written holds the row lock. -/
inductive Phase
  | ready
  | saving (b : Booking) (seen : ℕ)
  | updating (status : BookingStatus) (notes : String)
  | written (row : Booking) (decision : Bool)
  | over

/-- The committed row with its lock, the number of decisions that were committed, and the calls whose `Save` has
succeeded with a row that was read before the last of them. -/
structure State (ι : Type) where
  row : Booking
  lock : Option ι := none
  decisions : ℕ := 0
  phase : ι → Phase := fun _ => .ready
  stale : List ι := []

/-- What happens: a call reads the booking, its statement runs (and the constraints let it through or not), its
transaction ends. -/
inductive Event (ι : Type)
  | read (i : ι) (job : Job)
  | write (i : ι) (accepted : Bool)
  | commit (i : ι)
  | rollback (i : ι)

variable {ι : Type} [DecidableEq ι]

def State.goto (s : State ι) (i : ι) (phase : Phase) : State ι := { s with phase := Function.update s.phase i phase }

def Plan.phase (seen : ℕ) : Plan → Phase
  | .save b => .saving b seen
  | .update status notes => .updating status notes
  | .stop => .over

/-- The statement of a call, when the row is not locked. The condition of a `Save` is tested on the committed row. -/
def write (s : State ι) (i : ι) (accepted : Bool) : State ι :=
  match s.phase i with
  | .saving b seen =>
    if accepted = true ∧ s.row.version = b.version then
      { s.goto i (.written (s.row.overwrite b) false) with
        lock := some i
        stale := if seen < s.decisions then i :: s.stale else s.stale }
    else s.goto i .over
  | .updating status notes =>
    if accepted = true then
      { s.goto i (.written (s.row.withStatus status notes) (decides status)) with lock := some i }
    else s.goto i .over
  | _ => s

/-- One step; a statement waits for the row lock. -/
def step (s : State ι) : Event ι → State ι
  | .read i job =>
    match s.phase i with
    | .ready => s.goto i ((job.plan s.row).phase s.decisions)
    | _ => s
  | .write i accepted => if s.lock = none then write s i accepted else s
  | .commit i =>
    match s.phase i with
    | .written row d => { s.goto i .over with row := row, lock := none, decisions := s.decisions + if d then 1 else 0 }
    | _ => s
  | .rollback i =>
    match s.phase i with
    | .written _ _ => { s.goto i .over with lock := none }
    | _ => s.goto i .over

/-- **A decision that overtakes no save**: when an update to `'Cancelled'` or `'Confirmed'` is committed, no other call
is about to save the version that it leaves in place. -/
def DecidesAlone (s : State ι) : Event ι → Prop
  | .commit i => ∀ row, s.phase i = .written row true → ∀ j b seen, s.phase j = .saving b seen →
      b.version ≠ s.row.version
  | .read _ _ | .write _ _ | .rollback _ => True

/-! ### The invariant -/

/-- A row that is about to be saved has at most the version of the committed one, and less if a decision was committed
since it was read; the call that has written holds the lock, and its row has no smaller version. -/
structure Inv (s : State ι) : Prop where
  saving : ∀ i b seen, s.phase i = .saving b seen →
    b.version ≤ s.row.version ∧ seen ≤ s.decisions ∧ (seen < s.decisions → b.version < s.row.version)
  written : ∀ i row d, s.phase i = .written row d → s.lock = some i ∧ s.row.version ≤ row.version
  stale : s.stale = []

variable {s : State ι} {i : ι}

theorem phase_goto (s : State ι) (i : ι) (phase : Phase) (j : ι) :
    (s.goto i phase).phase j = if j = i then phase else s.phase j := by
  simp only [State.goto, Function.update_apply]

theorem phase_of_goto {phase before : Phase} {j : ι} (h : (s.goto i phase).phase j = before) (hne : phase ≠ before) :
    j ≠ i ∧ s.phase j = before := by
  rw [phase_goto] at h
  split at h
  · exact absurd h hne
  · rename_i hj
    exact ⟨hj, h⟩

theorem version_of_plan {job : Job} {b b' : Booking} (h : job.plan b = .save b') : b'.version = b.version := by
  cases job with
  | execute check req =>
    simp only [Job.plan] at h
    split at h
    · rename_i b'' hupdated
      obtain rfl := Plan.save.inj h
      simp only [updated, bind_eq_ok] at hupdated
      obtain ⟨-, -, hupdated⟩ := hupdated
      split at hupdated
      · rw [← pure_eq_ok.1 hupdated]
        rfl
      · simp only [bind_eq_ok, pure_eq_ok] at hupdated
        obtain ⟨-, -, vres, -, rfl⟩ := hupdated
        rfl
    · cases h
  | redeem now =>
    obtain rfl := Plan.save.inj h
    rfl
  | release =>
    simp only [Job.plan] at h
    split at h
    · obtain rfl := Plan.save.inj h
      rfl
    · cases h
  | cancel reason =>
    simp only [Job.plan] at h
    split at h <;> cases h
  | approve =>
    simp only [Job.plan] at h
    split at h <;> cases h
  | reject reason =>
    simp only [Job.plan] at h
    split at h <;> cases h
  | decide d notes => cases d <;> cases h

theorem inv_read (h : Inv s) (job : Job) : Inv (s.goto i ((job.plan s.row).phase s.decisions)) := by
  refine ⟨fun j b seen hj => ?_, fun j row d hj => ?_, h.stale⟩
  · rw [phase_goto] at hj
    split at hj
    · cases hplan : job.plan s.row with
      | save b' =>
        rw [hplan] at hj
        obtain ⟨rfl, rfl⟩ := Phase.saving.inj hj
        have hversion := version_of_plan hplan
        exact ⟨hversion.le, le_rfl, fun hlt => absurd hlt (lt_irrefl _)⟩
      | update status notes =>
        rw [hplan] at hj
        cases hj
      | stop =>
        rw [hplan] at hj
        cases hj
    · exact h.saving j b seen hj
  · refine h.written j row d (phase_of_goto hj ?_).2
    cases job.plan s.row <;> exact Phase.noConfusion

theorem inv_over (h : Inv s) : Inv (s.goto i .over) where
  saving j b seen hj := h.saving j b seen (phase_of_goto hj nofun).2
  written j row d hj := h.written j row d (phase_of_goto hj nofun).2
  stale := h.stale

theorem inv_take (h : Inv s) (hlock : s.lock = none) {row : Booking} {d : Bool}
    (hversion : s.row.version ≤ row.version) :
    Inv { s.goto i (.written row d) with lock := some i } where
  saving j b seen hj := h.saving j b seen (phase_of_goto hj nofun).2
  written j row' d' hj := by
    have hphase : (s.goto i (.written row d)).phase j = .written row' d' := hj
    rw [phase_goto] at hphase
    split at hphase
    · rename_i hji
      obtain ⟨rfl, rfl⟩ := Phase.written.inj hphase
      exact ⟨congrArg some hji.symm, hversion⟩
    · have := (h.written j row' d' hphase).1
      rw [hlock] at this
      cases this
  stale := h.stale

theorem inv_write (h : Inv s) (hlock : s.lock = none) (accepted : Bool) : Inv (write s i accepted) := by
  unfold write
  split
  · rename_i b seen hphase
    obtain ⟨-, -, hless⟩ := h.saving i b seen hphase
    split
    · rename_i hok
      -- the version has not moved since the read, so no decision was committed
      have hcurrent : ¬ seen < s.decisions := fun hlt => absurd hok.2 (ne_of_gt (hless hlt))
      rw [if_neg hcurrent]
      exact inv_take h hlock (Nat.le_succ _)
    · exact inv_over h
  · split
    · exact inv_take h hlock le_rfl
    · exact inv_over h
  · exact h

theorem inv_commit {row : Booking} {d : Bool} (h : Inv s) (hphase : s.phase i = .written row d)
    (hC : DecidesAlone s (.commit i)) :
    Inv { s.goto i .over with row := row, lock := none, decisions := s.decisions + if d then 1 else 0 } := by
  obtain ⟨hlock, hversion⟩ := h.written i row d hphase
  refine ⟨fun j b seen hj => ?_, fun j row' d' hj => ?_, h.stale⟩
  · have hsaving := (phase_of_goto (s := s) hj nofun).2
    obtain ⟨hle, hseen, hless⟩ := h.saving j b seen hsaving
    refine ⟨hle.trans hversion, hseen.trans (Nat.le_add_right _ _), fun hlt => lt_of_lt_of_le ?_ hversion⟩
    cases d with
    | false => exact hless hlt
    | true => exact lt_of_le_of_ne hle (hC row hphase j b seen hsaving)
  · obtain ⟨hne, hj⟩ := phase_of_goto (s := s) hj nofun
    exact absurd (Option.some.inj (hlock.symm.trans (h.written j row' d' hj).1)) (Ne.symm hne)

theorem inv_rollback {row : Booking} {d : Bool} (h : Inv s) (hphase : s.phase i = .written row d) :
    Inv { s.goto i .over with lock := none } := by
  obtain ⟨hlock, -⟩ := h.written i row d hphase
  refine ⟨fun j b seen hj => h.saving j b seen (phase_of_goto (s := s) hj nofun).2, fun j row' d' hj => ?_, h.stale⟩
  obtain ⟨hne, hj⟩ := phase_of_goto (s := s) hj nofun
  exact absurd (Option.some.inj (hlock.symm.trans (h.written j row' d' hj).1)) (Ne.symm hne)

theorem inv_step (h : Inv s) (e : Event ι) (hC : DecidesAlone s e) : Inv (step s e) := by
  cases e with
  | read i job =>
    simp only [step]
    split
    · exact inv_read h job
    · exact h
  | write i accepted =>
    simp only [step]
    split
    · rename_i hlock
      exact inv_write h hlock accepted
    · exact h
  | commit i =>
    simp only [step]
    split
    · rename_i row d hphase
      exact inv_commit h hphase hC
    · exact h
  | rollback i =>
    simp only [step]
    split
    · rename_i row d hphase
      exact inv_rollback h hphase
    · exact inv_over h

omit [DecidableEq ι] in
theorem inv_init (row : Booking) : Inv ({ row := row } : State ι) where
  saving i b seen hi := by
    rw [show ({ row := row } : State ι).phase i = .ready from rfl] at hi
    cases hi
  written i row' d hi := by
    rw [show ({ row := row } : State ι).phase i = .ready from rfl] at hi
    cases hi
  stale := rfl

/-- **No stale save.** In every interleaving of calls on a booking in which no decision is committed while another call
is about to save the version that the decision leaves in place, no `Save` succeeds with a row that was read before a
decision was committed. -/
theorem no_stale_save {row : Booking} {es : List (Event ι)} (h : AllSteps step DecidesAlone { row := row } es) :
    (run step { row := row } es).stale = [] := by
  have hinv : Inv (run step { row := row } es) :=
    run_invariant (I := Inv) (fun _ e hs hC => inv_step hs e hC) (inv_init row) h
  exact hinv.stale

/-! ### A title and a cancellation -/

def meeting : Booking where
  id := "b1"
  tenantId := "t1"
  resourceId := "r1"
  userId := "u1"
  startTime := 0
  endTime := 3600000
  status := .confirmed

def crossing : List (Event Bool) :=
  [.read false (.execute (fun _ => .error .database) { bookingId := "b1", title := some "Retro" }),
    .read true (.cancel "not needed"), .write true true, .commit true, .write false true, .commit false]

def inTurn : List (Event Bool) :=
  [.read true (.cancel "not needed"), .write true true, .commit true,
    .read false (.redeem 60000), .write false true, .commit false]

/-- One after the other, nothing is lost. -/
theorem no_stale_save_in_turn : (run step ({ row := meeting } : State Bool) inTurn).stale = [] :=
  no_stale_save <| by
    refine ⟨trivial, trivial, fun row _ j b seen hj => ?_, trivial, trivial, fun row hrow => ?_, trivial⟩
    · cases j <;> cases hj
    · cases hrow

/-- The `Save` of the title succeeds after the cancellation was committed, and the booking is confirmed again. -/
theorem save_after_cancellation : (run step ({ row := meeting } : State Bool) crossing).stale ≠ [] ∧
    (run step ({ row := meeting } : State Bool) crossing).row.status = .confirmed := by
  decide +kernel

end BookingSystem.Concurrency.StaleSaves
