import BookingSystem.Base.Run
import BookingSystem.Service.Chains
import Mathlib.Logic.Function.Basic

/-!
# Approvers side by side

Calls of `Decide` on one booking in any order of their statements: each lists the steps, decides the one it has picked,
and then updates the booking if the steps it has read say so. No step is decided twice and no booking is left pending
with all its steps done, as long as no call writes its decision while another one has read the steps and not yet written
its own (`decided_in_turn`).
-/

namespace BookingSystem.Concurrency.ParallelApprovers

open Base Service
open Model (Uuid Instant BookingStatus)

/-! ### The calls -/

/-- How far a call is: it has picked a step of those that it has read, or has decided it. -/
inductive Phase
  | ready
  | picked (steps : List Step) (step : Step) (d : Service.Decision) (decider reason : String)
  | decided (steps : List Step) (step : Step) (d : Service.Decision) (reason : String)
  | over

/-- The steps and the booking as they are committed, and the steps that were decided when they were not pending. -/
structure State (ι : Type) where
  steps : Table Step
  booking : Booking
  phase : ι → Phase := fun _ => .ready
  redecided : List Uuid := []

/-- The statements of a call: `ListByBooking` with the rules, `UpdateDecision`, and perhaps `UpdateStatus`. -/
inductive Event (ι : Type)
  | list (i : ι) (rules : List Rule) (decider : User) (d : Service.Decision) (reason : String)
  | decide (i : ι) (now : Instant)
  | finish (i : ι)

variable {ι : Type} [DecidableEq ι] (texts : Strings)

def State.goto (s : State ι) (i : ι) (phase : Phase) : State ι := { s with phase := Function.update s.phase i phase }

def State.listed (s : State ι) : List Step := listByBooking s.steps s.booking.id

def isPending (steps : Table Step) (id : Uuid) : Bool := (steps.find? id).any fun st => st.status == .pending

def step (s : State ι) : Event ι → State ι
  | .list i rules decider d reason =>
    match s.phase i with
    | .ready =>
      match pick texts rules s.listed decider with
      | .ok st => s.goto i (.picked s.listed st d decider.id reason)
      | .error _ => s.goto i .over
    | _ => s
  | .decide i now =>
    match s.phase i with
    | .picked steps st d decider reason =>
      { s.goto i (.decided steps st d reason) with
        steps := updateDecision s.steps st.id d decider reason now
        redecided := if isPending s.steps st.id then s.redecided else st.id :: s.redecided }
    | _ => s
  | .finish i =>
    match s.phase i with
    | .decided steps st d reason =>
      { s.goto i .over with
        booking := match verdict steps st reason d with
          | some (status, notes) => s.booking.withStatus status notes
          | none => s.booking }
    | _ => s

/-- Every step of the booking is approved or skipped. -/
def AllDone (s : State ι) : Prop := ∀ st ∈ s.listed, st.status.done = true

/-- No call is under way. -/
def Quiet (s : State ι) : Prop := ∀ i, s.phase i = .ready ∨ s.phase i = .over

/-- **Neither stranded nor decided twice**: every step was decided once at most, and when no call is under way and all
steps are done the booking is confirmed. -/
def Settled (s : State ι) : Prop := s.redecided = [] ∧ (Quiet s → AllDone s → s.booking.status = .confirmed)

/-- The call is between its reading of the steps and its own decision. -/
def Choosing (s : State ι) (i : ι) : Prop :=
  ∃ steps st d decider reason, s.phase i = .picked steps st d decider reason

/-- **A decision in turn**: no other call is between its reading of the steps and its own decision. -/
def InTurn (s : State ι) : Event ι → Prop
  | .decide i _ => ∀ j, j ≠ i → ¬ Choosing s j
  | .list _ _ _ _ _ | .finish _ => True

/-! ### Picked and decided steps -/

variable {texts} {s : State ι} {i : ι} {d : Service.Decision} {st : Step} {now : Instant} {reason : String}
  {P : StepStatus → Prop} {phase : Phase}

theorem mem_listByBooking {steps : Table Step} {bookingId : Uuid} :
    st ∈ listByBooking steps bookingId ↔ st ∈ steps.rows ∧ st.bookingId = bookingId := by
  simp only [listByBooking, List.mem_mergeSort, List.mem_filter, decide_eq_true_eq]

theorem pending_of_pick {rules : List Rule} {steps : List Step} {decider : User}
    (h : pick texts rules steps decider = .ok st) : st ∈ steps ∧ st.status = .pending := by
  simp only [pick, bind_eq_ok, found_eq_ok, actionable, Option.map_eq_some_iff] at h
  obtain ⟨-, -, ⟨x, idx⟩, hfind, rfl⟩ := h
  have hopen := List.find?_some hfind
  simp only [Bool.and_eq_true, beq_iff_eq] at hopen
  exact ⟨List.fst_mem_of_mem_zipIdx (List.mem_of_find?_eq_some hfind), hopen.1.1⟩

/-- The row with the id belongs to the booking and has this status. -/
def Has (steps : Table Step) (bookingId id : Uuid) (P : StepStatus → Prop) : Prop :=
  ∃ row, steps.find? id = some row ∧ row.bookingId = bookingId ∧ P row.status

theorem has_update {steps : Table Step} {bookingId id : Uuid} {decider : String}
    (h : Has steps bookingId id fun _ => True) (hP : P d.status) :
    Has (updateDecision steps id d decider reason now) bookingId id P := by
  obtain ⟨row, hrow, hbooking, -⟩ := h
  have hid : row.id = id := Table.key_of_find? hrow
  exact ⟨_, by rw [updateDecision, Table.find?_update, hrow]; rfl, by simp [hid, hbooking], by simpa [hid] using hP⟩

theorem has_update_of_ne {steps : Table Step} {bookingId id other : Uuid} {decider : String}
    (h : Has steps bookingId other P) (hne : other ≠ id) :
    Has (updateDecision steps id d decider reason now) bookingId other P := by
  obtain ⟨row, hrow, hbooking, hP⟩ := h
  have hid : row.id ≠ id := fun heq => hne ((Table.key_of_find? hrow).symm.trans heq)
  exact ⟨row, by rw [updateDecision, Table.find?_update, hrow]; simp [hid], hbooking, hP⟩

omit [DecidableEq ι] in
theorem not_allDone_of_has {id : Uuid} (h : Has s.steps s.booking.id id P)
    (hP : ∀ status, P status → status.done = false) : ¬ AllDone s := by
  obtain ⟨row, hrow, hbooking, hstatus⟩ := h
  intro hall
  have hdone := hall row (mem_listByBooking.2 ⟨Table.mem_of_find? hrow, hbooking⟩)
  rw [hP _ hstatus] at hdone
  cases hdone

/-! ### The invariant -/

/-- A call that has not decided yet has read the steps as they still are, decided steps are as they were decided, and
when all steps are done the booking is confirmed or a call is about to confirm it. -/
structure Inv (s : State ι) : Prop where
  picked : ∀ i steps st d decider reason, s.phase i = .picked steps st d decider reason →
    steps = s.listed ∧ st ∈ s.listed ∧ st.status = .pending
  decided : ∀ i steps st d reason, s.phase i = .decided steps st d reason →
    Has s.steps s.booking.id st.id fun status => status = d.status
  redecided : s.redecided = []
  confirmed : AllDone s → s.booking.status = .confirmed ∨
    ∃ i steps st reason, s.phase i = .decided steps st .approved reason ∧ othersDone steps st.id = true

theorem phase_goto (s : State ι) (i : ι) (phase : Phase) (j : ι) :
    (s.goto i phase).phase j = if j = i then phase else s.phase j := by
  simp only [State.goto, Function.update_apply]

theorem phase_of_goto {before : Phase} {j : ι} (h : (s.goto i phase).phase j = before) (hne : phase ≠ before) :
    j ≠ i ∧ s.phase j = before := by
  rw [phase_goto] at h
  split at h
  · exact absurd h hne
  · rename_i hj
    exact ⟨hj, h⟩

theorem phase_goto_of_ne {j : ι} (hj : j ≠ i) : (s.goto i phase).phase j = s.phase j := by
  rw [phase_goto, if_neg hj]

theorem confirmed_goto (h : Inv s)
    (hi : ∀ steps st reason, s.phase i = .decided steps st .approved reason → othersDone steps st.id = true → False)
    (hall : AllDone s) : s.booking.status = .confirmed ∨
      ∃ j steps st reason, (s.goto i phase).phase j = .decided steps st .approved reason ∧
        othersDone steps st.id = true := by
  obtain hbooking | ⟨j, steps, st, reason, hj, hothers⟩ := h.confirmed hall
  · exact .inl hbooking
  · refine .inr ⟨j, steps, st, reason, ?_, hothers⟩
    rw [phase_goto_of_ne (fun hji => hi steps st reason (by rw [← hji]; exact hj) hothers), hj]

theorem inv_list (h : Inv s) (hready : s.phase i = .ready) (hst : st ∈ s.listed ∧ st.status = .pending)
    (d : Service.Decision) (decider reason : String) : Inv (s.goto i (.picked s.listed st d decider reason)) where
  picked j steps st' d' decider' reason' hj := by
    rw [phase_goto] at hj
    split at hj
    · obtain ⟨rfl, rfl, -⟩ := Phase.picked.inj hj
      exact ⟨rfl, hst⟩
    · exact h.picked j steps st' d' decider' reason' hj
  decided j steps st' d' reason' hj := h.decided j steps st' d' reason' (phase_of_goto hj nofun).2
  redecided := h.redecided
  confirmed := confirmed_goto h fun _ _ _ hdecided _ => by
    rw [hready] at hdecided
    cases hdecided

theorem inv_over (h : Inv s)
    (hi : ∀ steps st reason, s.phase i = .decided steps st .approved reason → othersDone steps st.id = true → False) :
    Inv (s.goto i .over) where
  picked j steps st d decider reason hj := h.picked j steps st d decider reason (phase_of_goto hj nofun).2
  decided j steps st d reason hj := h.decided j steps st d reason (phase_of_goto hj nofun).2
  redecided := h.redecided
  confirmed := confirmed_goto h hi

def State.decide (s : State ι) (i : ι) (steps : List Step) (st : Step) (d : Service.Decision) (decider reason : String)
    (now : Instant) : State ι :=
  { s.goto i (.decided steps st d reason) with steps := updateDecision s.steps st.id d decider reason now }

theorem othersDone_of_allDone {steps : List Step} {decider : String}
    (h : AllDone (s.decide i steps st d decider reason now)) : othersDone s.listed st.id = true := by
  refine List.all_eq_true.2 fun x hx => ?_
  obtain ⟨hrow, hbooking⟩ := mem_listByBooking.1 hx
  by_cases hid : x.id = st.id
  · simp [hid]
  · have hmem : x ∈ (updateDecision s.steps st.id d decider reason now).rows :=
      List.mem_map.2 ⟨x, hrow, by simp [hid]⟩
    simp [h x (mem_listByBooking.2 ⟨hmem, hbooking⟩)]

omit [DecidableEq ι] in
theorem isPending_of_mem (hst : st ∈ s.listed) (hstatus : st.status = .pending) : isPending s.steps st.id = true := by
  have hfind : s.steps.find? st.id = some st := Table.find?_of_mem (mem_listByBooking.1 hst).1
  rw [isPending, hfind, Option.any_some, hstatus]
  rfl

theorem inv_decide (h : Inv s) {steps : List Step} {decider : String}
    (hphase : s.phase i = .picked steps st d decider reason) (halone : ∀ j, j ≠ i → ¬ Choosing s j) :
    Inv (s.decide i steps st d decider reason now) := by
  obtain ⟨rfl, hst, hstatus⟩ := h.picked i steps st d decider reason hphase
  have hpending := isPending_of_mem hst hstatus
  obtain ⟨hrow, hbooking⟩ := mem_listByBooking.1 hst
  have hhas : Has s.steps s.booking.id st.id fun _ => True := ⟨st, Table.find?_of_mem hrow, hbooking, trivial⟩
  refine ⟨fun j steps' st' d' decider' reason' hj => ?_, fun j steps' st' d' reason' hj => ?_, h.redecided,
    fun hall => ?_⟩
  · obtain ⟨hne, hpicked⟩ := phase_of_goto (s := s) hj nofun
    exact absurd ⟨steps', st', d', decider', reason', hpicked⟩ (halone j hne)
  · have hj' : (s.goto i (.decided s.listed st d reason)).phase j = .decided steps' st' d' reason' := hj
    rw [phase_goto] at hj'
    split at hj'
    · obtain ⟨-, rfl, rfl, -⟩ := Phase.decided.inj hj'
      exact has_update hhas rfl
    · have hdecided := h.decided j steps' st' d' reason' hj'
      refine has_update_of_ne hdecided fun hid => ?_
      -- a step that was decided is not pending any more
      obtain ⟨row, hrow, -, hstatus⟩ := hdecided
      rw [isPending, ← hid, hrow, Option.any_some, hstatus] at hpending
      cases d' <;> cases hpending
  · cases d with
    | approved =>
      refine .inr ⟨i, s.listed, st, reason, ?_, othersDone_of_allDone hall⟩
      exact (phase_goto s i _ i).trans (if_pos rfl)
    | rejected =>
      have hrejected : Has (updateDecision s.steps st.id .rejected decider reason now) s.booking.id st.id
          fun status => status = .rejected := has_update hhas rfl
      exact absurd hall (not_allDone_of_has (s := s.decide i s.listed st .rejected decider reason now) hrejected
        fun _ heq => heq ▸ rfl)

/-- The update of the booking does not change its id. -/
theorem inv_finish (h : Inv s) {steps : List Step} (hphase : s.phase i = .decided steps st d reason)
    {status : BookingStatus} {notes : String} (hverdict : verdict steps st reason d = some (status, notes)) :
    Inv { s.goto i .over with booking := s.booking.withStatus status notes } where
  picked j steps' st' d' decider' reason' hj :=
    h.picked j steps' st' d' decider' reason' (phase_of_goto (s := s) hj nofun).2
  decided j steps' st' d' reason' hj := h.decided j steps' st' d' reason' (phase_of_goto (s := s) hj nofun).2
  redecided := h.redecided
  confirmed hall := by
    cases d with
    | approved =>
      simp only [verdict] at hverdict
      split at hverdict
      · obtain ⟨rfl, rfl⟩ := Prod.mk.inj (Option.some.inj hverdict)
        exact .inl rfl
      · cases hverdict
    | rejected =>
      -- the step that the call has rejected is not done
      have hrejected := h.decided i steps st .rejected reason hphase
      exact absurd (show AllDone s from hall) (not_allDone_of_has hrejected fun _ heq => heq ▸ rfl)

theorem inv_step (h : Inv s) (e : Event ι) (hC : InTurn s e) : Inv (step texts s e) := by
  cases e with
  | list i rules decider d reason =>
    simp only [step]
    split
    · rename_i hready
      split
      · rename_i st hpick
        exact inv_list h hready (pending_of_pick hpick) d decider.id reason
      · refine inv_over h fun steps st reason hdecided _ => ?_
        rw [hready] at hdecided
        cases hdecided
    · exact h
  | decide i now =>
    simp only [step]
    split
    · rename_i steps st d decider reason hphase
      obtain ⟨-, hst, hstatus⟩ := h.picked i steps st d decider reason hphase
      rw [if_pos (isPending_of_mem hst hstatus)]
      exact inv_decide h hphase hC
    · exact h
  | finish i =>
    simp only [step]
    split
    · rename_i steps st d reason hphase
      cases hverdict : verdict steps st reason d with
      | some v => exact inv_finish h hphase hverdict
      | none =>
        refine inv_over h fun steps' st' reason' hdecided hothers => ?_
        obtain ⟨rfl, rfl, rfl, rfl⟩ := Phase.decided.inj (hphase.symm.trans hdecided)
        simp [verdict, hothers] at hverdict
    · exact h

omit [DecidableEq ι] in
theorem inv_init {steps : Table Step} {booking : Booking}
    (h : AllDone ({ steps := steps, booking := booking } : State ι) → booking.status = .confirmed) :
    Inv ({ steps := steps, booking := booking } : State ι) where
  picked _ _ _ _ _ _ hi := Phase.noConfusion (show Phase.ready = _ from hi)
  decided _ _ _ _ _ hi := Phase.noConfusion (show Phase.ready = _ from hi)
  redecided := rfl
  confirmed hall := .inl (h hall)

omit [DecidableEq ι] in
theorem Inv.settled (h : Inv s) : Settled s := by
  refine ⟨h.redecided, fun hquiet hall => ?_⟩
  obtain hbooking | ⟨i, steps, st, reason, hi, -⟩ := h.confirmed hall
  · exact hbooking
  · obtain hready | hover := hquiet i
    · rw [hready] at hi
      cases hi
    · rw [hover] at hi
      cases hi

/-- **In turn, nothing is stranded.** In every interleaving of `Decide` calls on a booking in which no call writes its
decision while another one is between its reading of the steps and its own decision, no step is decided twice and the
booking is confirmed once all calls are over and all steps done. -/
theorem decided_in_turn {steps : Table Step} {booking : Booking} {es : List (Event ι)}
    (hopen : AllDone ({ steps := steps, booking := booking } : State ι) → booking.status = .confirmed)
    (h : AllSteps (step texts) InTurn { steps := steps, booking := booking } es) :
    Settled (run (step texts) { steps := steps, booking := booking } es) := by
  have hinv : Inv (run (step texts) { steps := steps, booking := booking } es) :=
    run_invariant (I := Inv) (fun _ e hs hC => inv_step hs e hC) (inv_init hopen) h
  exact hinv.settled

/-! ### Two branches at once -/

def plain : Strings := { equalFold := fun a b => a == b, toUpper := fun s => s, trimSpace := fun s => s }

def forked : Rule where
  id := "rule"
  tenantId := "t1"
  scopeType := .tenant
  levels := [{ name := "desk" }, { name := "floor", dependencies := [0] }, { name := "safety", dependencies := [0] }]

/-- The step of a level of the rule. -/
def forkedStep (id : Uuid) (i : ℕ) (approver : Uuid) (status : StepStatus) : Step where
  id := id
  tenantId := "t1"
  bookingId := "b1"
  ruleId := "rule"
  stepIndex := i
  levelName := "level"
  approverIds := [approver]
  status := status

/-- The first level is approved; `amy` and `ben` may decide the other two, unless `ben` has done so. -/
def halfway (other : StepStatus) : State Bool where
  steps := ⟨[forkedStep "s0" 0 "zoe" .approved, forkedStep "s1" 1 "amy" .pending, forkedStep "s2" 2 "ben" other],
    by simp [forkedStep]⟩
  booking := { id := "b1", tenantId := "t1", resourceId := "r1", userId := "u1", startTime := 0, endTime := 3600000,
               status := .pendingApproval }

def amy : User := { id := "amy", role := "Secretary" }
def ben : User := { id := "ben", role := "Secretary" }

theorem listed_halfway (other : StepStatus) : (halfway other).listed = (halfway other).steps.rows :=
  List.mergeSort_of_pairwise (by cases other <;> decide)

theorem step_list {rules : List Rule} {decider : User} (hready : s.phase i = .ready)
    (hpick : pick texts rules s.listed decider = .ok st) (d : Service.Decision) (reason : String) :
    step texts s (.list i rules decider d reason) = s.goto i (.picked s.listed st d decider.id reason) := by
  simp only [step, hready, hpick]

theorem pick_amy (other : StepStatus) :
    pick plain [forked] (halfway other).listed amy = .ok (forkedStep "s1" 1 "amy" .pending) := by
  rw [listed_halfway]
  cases other <;> decide +kernel

theorem not_choosing_decide (s : State ι) (i : ι) (now : Instant) : ¬ Choosing (step texts s (.decide i now)) i := by
  rintro ⟨steps, st, d, decider, reason, h⟩
  simp only [step] at h
  split at h
  · rename_i steps' st' d' decider' reason' _
    have hdecided : (s.goto i (.decided steps' st' d' reason')).phase i = _ := h
    rw [phase_goto, if_pos rfl] at hdecided
    cases hdecided
  · rename_i hphase
    exact hphase _ _ _ _ _ h

theorem not_choosing_finish (h : ¬ Choosing s i) (j : ι) : ¬ Choosing (step texts s (.finish j)) i := by
  rintro ⟨steps, st, d, decider, reason, h'⟩
  simp only [step] at h'
  split at h'
  · exact h ⟨steps, st, d, decider, reason, (phase_of_goto (s := s) h' nofun).2⟩
  · exact h ⟨steps, st, d, decider, reason, h'⟩

theorem not_choosing_list (h : ¬ Choosing s i) {j : ι} (hj : i ≠ j) (rules : List Rule) (decider : User)
    (d : Service.Decision) (reason : String) : ¬ Choosing (step texts s (.list j rules decider d reason)) i := by
  rintro ⟨steps, st, d', decider', reason', h'⟩
  refine h ⟨steps, st, d', decider', reason', ?_⟩
  simp only [step] at h'
  split at h'
  · split at h'
    · rwa [phase_goto_of_ne hj] at h'
    · rwa [phase_goto_of_ne hj] at h'
  · exact h'

/-- `ben` reads the steps as soon as `amy` has decided hers. -/
theorem decided_in_turn_both : Settled (run (step plain) (halfway .pending)
    [.list false [forked] amy .approved "", .decide false 1, .list true [forked] ben .approved "", .finish false,
      .decide true 2, .finish true]) := by
  have hopen : ¬ AllDone (halfway .pending) := fun hall =>
    absurd (hall (forkedStep "s1" 1 "amy" .pending) (mem_listByBooking.2 ⟨by simp [halfway], rfl⟩)) (by decide)
  refine decided_in_turn (fun hall => absurd hall hopen) ⟨trivial, ?_, trivial, trivial, ?_, trivial, trivial⟩
  · intro j hj
    refine not_choosing_list ?_ hj _ _ _ _
    rintro ⟨_, _, _, _, _, hready⟩
    cases hready
  · intro j hj
    obtain rfl : j = false := by simpa using hj
    exact not_choosing_finish (not_choosing_list (not_choosing_decide _ false 1) (by decide) _ _ _ _) false

def crossing : List (Event Bool) :=
  [.list false [forked] amy .approved "", .list true [forked] ben .approved "", .decide false 1, .decide true 2,
    .finish false, .finish true]

/-- Each has seen the other's step pending: all steps are approved and the booking is left pending. -/
theorem left_pending : ¬ Settled (run (step plain) (halfway .pending) crossing) := by
  have hben : pick plain [forked] (halfway .pending).listed ben = .ok (forkedStep "s2" 2 "ben" .pending) := by
    rw [listed_halfway]
    decide +kernel
  have hlisted : ∀ phase, ((halfway .pending).goto false phase).listed = (halfway .pending).steps.rows :=
    fun _ => listed_halfway .pending
  rw [crossing, run_cons, step_list rfl (pick_amy .pending), run_cons,
    step_list (s := (halfway .pending).goto false _) rfl hben, hlisted, listed_halfway]
  rintro ⟨-, hsettled⟩
  have hconfirmed := hsettled (fun i => by cases i <;> exact .inr rfl) fun st hst =>
    (by decide +kernel : ∀ st ∈ _, StepStatus.done (Step.status st) = true) st (mem_listByBooking.1 hst).1
  exact absurd hconfirmed (by decide)

end BookingSystem.Concurrency.ParallelApprovers
