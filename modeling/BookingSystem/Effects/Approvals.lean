import BookingSystem.Model.Approvals
import BookingSystem.Base.Run

/-!
# What `ApprovalsService` writes

One lemma for each operation on approval chains: what an accepted request has checked, and what it leaves of the
bookings and of the steps.
-/

namespace BookingSystem.Effects

open Base Model Model.ApprovalsService

/-! ### Chains -/

variable {env : Env} {now : Instant} {user : AuthUser} {bookingId tenantId : Uuid} {input : DecideInput}
  {steps : List ApprovalStep} {f : ApprovalStep → ApprovalStep} {st st' : Store}

theorem mem_lockChain {s : ApprovalStep} :
    s ∈ lockChain st tenantId bookingId ↔ s ∈ st.steps.rows ∧ s.tenantId = tenantId ∧ s.bookingId = bookingId := by
  rw [lockChain, (List.perm_insertionSort _ _).mem_iff]
  simp

theorem nodup_lockChain (st : Store) (tenantId bookingId : Uuid) : (lockChain st tenantId bookingId).Nodup := by
  rw [lockChain, (List.perm_insertionSort _ _).nodup_iff]
  exact (List.Nodup.of_map _ st.steps.nodup).filter _

theorem lockChain_congr (h : st'.steps = st.steps) (tenantId bookingId : Uuid) :
    lockChain st' tenantId bookingId = lockChain st tenantId bookingId := by
  rw [lockChain, lockChain, h]

theorem lockChain_map (hrows : st'.steps.rows = st.steps.rows.map f) (hten : ∀ s, (f s).tenantId = s.tenantId)
    (hbook : ∀ s, (f s).bookingId = s.bookingId) (hidx : ∀ s, (f s).stepIndex = s.stepIndex)
    (tenantId bookingId : Uuid) : lockChain st' tenantId bookingId = (lockChain st tenantId bookingId).map f := by
  have hp : (fun s => (f s).tenantId == tenantId && (f s).bookingId == bookingId) =
      fun s => s.tenantId == tenantId && s.bookingId == bookingId := by
    funext s
    rw [hten, hbook]
  rw [lockChain, lockChain, hrows, List.filter_map, Function.comp_def, hp]
  symm
  refine List.map_insertionSort _ _ _ _ fun a _ b _ => ?_
  rw [hidx, hidx]

theorem lockChain_save {v : ApprovalStep} (hsteps : st'.steps = st.steps.save v) {s₀ : ApprovalStep}
    (hs₀ : s₀ ∈ st.steps.rows) (hid : s₀.id = v.id) (hten : v.tenantId = s₀.tenantId)
    (hbook : v.bookingId = s₀.bookingId) (hidx : v.stepIndex = s₀.stepIndex) (tenantId bookingId : Uuid) :
    lockChain st' tenantId bookingId =
      (lockChain st tenantId bookingId).map fun s => if s = s₀ then v else s := by
  refine lockChain_map ?_ (Table.replace_same (f := ApprovalStep.tenantId) hten)
    (Table.replace_same (f := ApprovalStep.bookingId) hbook) (Table.replace_same (f := ApprovalStep.stepIndex) hidx)
    tenantId bookingId
  rw [hsteps, Table.rows_save_of_mem hs₀ hid]

theorem chainRule_map (h : ∀ s, (f s).ruleId = s.ruleId) : chainRule env (steps.map f) = chainRule env steps := by
  cases steps with
  | nil => rfl
  | cons s l => simp [chainRule, h]

theorem depsDone_map {rule : Option ApprovalRule} {i : ℕ} : depsDone (steps.map f) rule i = true ↔
      ∀ d ∈ depsOf rule i, ∃ x, stepAt steps d = some x ∧ isDone (f x) = true := by
  rw [depsDone, List.all_eq_true]
  refine forall₂_congr fun d _ => ?_
  have hat : stepAt (steps.map f) d = (stepAt steps d).map f := by
    unfold stepAt
    split
    · rw [List.getElem?_map]
    · rfl
  rw [hat, Option.any_map, Option.any_eq_true]

/-! ### Writing a chain -/

theorem mem_matchRule {res : Resource} {rule : ApprovalRule} (h : matchRule env tenantId res = some rule) :
    rule ∈ env.rules.rows := by
  have := List.mem_of_find?_eq_some h
  rw [(List.perm_insertionSort _ _).mem_iff] at this
  exact List.mem_of_mem_filter this

/-- `materialize` writes nothing, or the rows of the rule that matches the room. -/
theorem materialize_ok {newId : ℕ → Uuid} {booking : Booking} {n : ℕ}
    (h : materialize env now newId booking st = .ok (st', n)) :
    (st' = st ∧ n = 0) ∨ ∃ res rule, env.resource booking.tenantId booking.resourceId = some res ∧
      matchRule env booking.tenantId res = some rule ∧ rule.levels ≠ [] ∧ n = rule.levels.length ∧
      st'.bookings = st.bookings ∧ st'.approvals = st.approvals ∧
      st'.steps.rows = st.steps.rows ++ chainRows env now newId booking res rule := by
  unfold materialize at h
  split at h
  · cases h
    exact .inl ⟨rfl, rfl⟩
  · rename_i res hres
    split at h
    · cases h
      exact .inl ⟨rfl, rfl⟩
    · rename_i rule hrule
      split at h
      · cases h
        exact .inl ⟨rfl, rfl⟩
      · rename_i hlev
        split at h
        · rename_i steps hins
          cases h
          exact .inr ⟨res, rule, hres, hrule, by simpa using hlev, rfl, rfl, rfl, Table.insertAll?_eq_some hins⟩
        · cases h

theorem materialize_writes {newId : ℕ → Uuid} {booking : Booking} {n : ℕ}
    (h : materialize env now newId booking st = .ok (st', n)) {res : Resource} {rule : ApprovalRule}
    (hres : env.resource booking.tenantId booking.resourceId = some res)
    (hrule : matchRule env booking.tenantId res = some rule) (hlev : rule.levels ≠ []) :
    st'.steps.rows = st.steps.rows ++ chainRows env now newId booking res rule := by
  have hne : rule.levels.isEmpty = false := by simpa using hlev
  simp only [materialize, hres, hrule, hne, Bool.false_eq_true, if_false] at h
  split at h
  · rename_i steps hins
    cases h
    exact Table.insertAll?_eq_some hins
  · cases h

theorem materialize_bookings {newId : ℕ → Uuid} {booking : Booking} :
    (settle (materialize env now newId booking st) st).bookings = st.bookings := by
  refine settle_induction (P := fun s : Store => s.bookings = st.bookings) rfl ?_
  rintro ⟨st', n⟩ h
  rcases materialize_ok h with ⟨rfl, -⟩ | ⟨res, rule, -, -, -, -, hb, -⟩
  · rfl
  · exact hb

theorem mem_chainRows {newId : ℕ → Uuid} {booking : Booking} {res : Resource} {rule : ApprovalRule} {s : ApprovalStep}
    (h : s ∈ chainRows env now newId booking res rule) :
    s.tenantId = booking.tenantId ∧ s.bookingId = booking.id ∧ s.ruleId = some rule.id ∧ s.status = .pending := by
  obtain ⟨i, hi, rfl⟩ := List.mem_mapIdx.1 h
  exact ⟨rfl, rfl, rfl, rfl⟩

theorem sorted_chainRows (env : Env) (now : Instant) (newId : ℕ → Uuid) (booking : Booking) (res : Resource)
    (rule : ApprovalRule) :
    (chainRows env now newId booking res rule).Pairwise fun s s' => s.stepIndex ≤ s'.stepIndex := by
  rw [List.pairwise_iff_getElem]
  intro i j hi hj hij
  simp only [chainRows, List.getElem_mapIdx, levelStep]
  omega

section Written

variable {newId : ℕ → Uuid} {booking : Booking} {res : Resource} {rule : ApprovalRule}
  (hrows : st'.steps.rows = st.steps.rows ++ chainRows env now newId booking res rule)

include hrows

theorem lockChain_written (hnone : lockChain st booking.tenantId booking.id = []) :
    lockChain st' booking.tenantId booking.id = chainRows env now newId booking res rule := by
  have hold : st.steps.rows.filter (fun s => s.tenantId == booking.tenantId && s.bookingId == booking.id) = [] :=
    ((List.perm_insertionSort _ _).symm.trans (List.Perm.of_eq hnone)).eq_nil
  have hnew : (chainRows env now newId booking res rule).filter
      (fun s => s.tenantId == booking.tenantId && s.bookingId == booking.id) =
      chainRows env now newId booking res rule := by
    refine List.filter_eq_self.2 fun s hs => ?_
    obtain ⟨hten, hbook, -⟩ := mem_chainRows hs
    simp [hten, hbook]
  rw [lockChain, hrows, List.filter_append, hold, hnew, List.nil_append]
  exact (sorted_chainRows ..).insertionSort_eq

theorem lockChain_unwritten (hne : ¬ (booking.tenantId = tenantId ∧ booking.id = bookingId)) :
    lockChain st' tenantId bookingId = lockChain st tenantId bookingId := by
  have hnew : (chainRows env now newId booking res rule).filter
      (fun s => s.tenantId == tenantId && s.bookingId == bookingId) = [] := by
    refine List.filter_eq_nil_iff.2 fun s hs => ?_
    obtain ⟨hten, hbook, -⟩ := mem_chainRows hs
    simpa [hten, hbook] using hne
  rw [lockChain, hrows, List.filter_append, hnew, List.append_nil]
  rfl

end Written

/-! ### One decision on a chain -/

def confirmed (b : Booking) : Booking := { b with status := .confirmed }

/-- The booking after a decision on its chain. -/
def decidedBooking (steps : List ApprovalStep) (step : ApprovalStep) (input : DecideInput) (b : Booking) : Booking :=
  match input.status with
  | .rejected =>
    { b with
      status := .cancelled
      exceptionNotes := "Rejected at " ++ step.levelName ++ ": " ++ input.reason.getD "" }
  | .approved => if allDone steps step then confirmed b else b

theorem decidedBooking_same (steps : List ApprovalStep) (step : ApprovalStep) (input : DecideInput) (b : Booking) :
    (decidedBooking steps step input b).id = b.id ∧ (decidedBooking steps step input b).tenantId = b.tenantId ∧
      (decidedBooking steps step input b).resourceId = b.resourceId := by
  unfold decidedBooking
  cases input.status with
  | rejected => exact ⟨rfl, rfl, rfl⟩
  | approved =>
    dsimp only
    split <;> exact ⟨rfl, rfl, rfl⟩

section commit

variable (now : Instant) (tenantId bookingId : Uuid) (steps : List ApprovalStep) (step : ApprovalStep)
  (input : DecideInput) (actorId : Option Uuid) (st : Store)

@[simp] theorem commitStepDecision_steps :
    (commitStepDecision now tenantId bookingId steps step input actorId st).1.steps =
      st.steps.save (decidedStep now input actorId step) := by
  unfold commitStepDecision
  cases input.status with
  | rejected => rfl
  | approved =>
    simp only
    split <;> rfl

@[simp] theorem commitStepDecision_approvals :
    (commitStepDecision now tenantId bookingId steps step input actorId st).1.approvals = st.approvals := by
  unfold commitStepDecision
  cases input.status with
  | rejected => rfl
  | approved =>
    simp only
    split <;> rfl

theorem lockChain_commitStepDecision (hm : step ∈ st.steps.rows) (tenantId' bookingId' : Uuid) :
    lockChain (commitStepDecision now tenantId bookingId steps step input actorId st).1 tenantId' bookingId' =
      (lockChain st tenantId' bookingId').map fun s => if s = step then decidedStep now input actorId step else s :=
  lockChain_save (commitStepDecision_steps ..) hm rfl rfl rfl rfl _ _

theorem commitStepDecision_find? (id : Uuid) :
    (commitStepDecision now tenantId bookingId steps step input actorId st).1.bookings.find? id =
      (st.bookings.find? id).map fun b =>
        if b.id = bookingId ∧ b.tenantId = tenantId then decidedBooking steps step input b else b := by
  unfold commitStepDecision decidedBooking
  cases input.status with
  | rejected =>
    simp only [updateBooking, Table.find?_update, Bool.and_eq_true, beq_iff_eq]
  | approved =>
    simp only
    split
    · simp only [updateBooking, Table.find?_update, Bool.and_eq_true, beq_iff_eq, confirmed]
    · simp

@[simp] theorem commitStepDecision_confirmed :
    (commitStepDecision now tenantId bookingId steps step input actorId st).2.confirmed =
      (input.status == .approved && allDone steps step) := by
  unfold commitStepDecision
  cases input.status with
  | rejected => rfl
  | approved =>
    simp only
    split
    · rename_i h; simp [h]
    · rename_i h; simp [h]

end commit

theorem firstActionableIndex_some {rule : Option ApprovalRule} {i : ℕ}
    (h : firstActionableIndex env steps rule user = some i) :
    ∃ s, steps[i]? = some s ∧ s.status = .pending ∧ depsDone steps rule i = true ∧ canDecideStep env s user = true := by
  have := List.find?_some h
  rw [Option.any_eq_true] at this
  obtain ⟨s, hs, hact⟩ := this
  simp only [actionable, Bool.and_eq_true, beq_iff_eq] at hact
  exact ⟨s, hs, hact.1.1, hact.1.2, hact.2⟩

/-- Some step is actionable for the user iff the search finds one. -/
theorem firstActionableIndex_isSome {rule : Option ApprovalRule} :
    (firstActionableIndex env steps rule user).isSome = true ↔
      ∃ i s, steps[i]? = some s ∧ s.status = .pending ∧ depsDone steps rule i = true ∧
        canDecideStep env s user = true := by
  constructor
  · intro h
    obtain ⟨i, hi⟩ := Option.isSome_iff_exists.1 h
    exact ⟨i, firstActionableIndex_some hi⟩
  · rintro ⟨i, s, hs, hp, hd, hc⟩
    refine List.find?_isSome.2 ⟨i, ?_, ?_⟩
    · rw [List.mem_range]
      exact (List.getElem?_eq_some_iff.1 hs).1
    · rw [hs]
      simp [actionable, hp, hd, hc]

/-- What an accepted decision on a chain has checked. -/
structure ChainDecision (env : Env) (user : AuthUser) (bookingId : Uuid) (input : DecideInput) (st : Store)
    (i : ℕ) (step : ApprovalStep) : Prop where
  reason : input.status = .approved ∨ trim (input.reason.getD "") ≠ ""
  first : firstActionableIndex env (lockChain st user.tenantId bookingId)
    (chainRule env (lockChain st user.tenantId bookingId)) user = some i
  at_ : (lockChain st user.tenantId bookingId)[i]? = some step
  pending : step.status = .pending
  deps : depsDone (lockChain st user.tenantId bookingId) (chainRule env (lockChain st user.tenantId bookingId)) i = true
  may : canDecideStep env step user = true

theorem ChainDecision.mem {i : ℕ} {step : ApprovalStep} (h : ChainDecision env user bookingId input st i step) :
    step ∈ st.steps.rows ∧ step.tenantId = user.tenantId ∧ step.bookingId = bookingId :=
  mem_lockChain.1 (List.mem_of_getElem? h.at_)

/-- What an accepted decision on a booking without a chain has checked. -/
structure LegacyDecision (user : AuthUser) (bookingId : Uuid) (input : DecideInput) (st : Store) (b : Booking) :
    Prop where
  reason : input.status = .approved ∨ trim (input.reason.getD "") ≠ ""
  chain : lockChain st user.tenantId bookingId = []
  found : findBooking st.bookings user.tenantId bookingId = some b
  may : canDecideLegacy user b = true
  open_ : b.status = .pendingApproval ∨ b.status = .confirmed

def legacyDecided (input : DecideInput) (b : Booking) : Booking :=
  match input.status with
  | .approved => { b with status := .confirmed }
  | .rejected => { b with status := .cancelled, exceptionNotes := "Rejected: " ++ input.reason.getD "" }

theorem decideLegacyTx_ok (h : decideLegacyTx user bookingId input st = .ok st') :
    ∃ b, findBooking st.bookings user.tenantId bookingId = some b ∧ canDecideLegacy user b = true ∧
      (b.status = .pendingApproval ∨ b.status = .confirmed) ∧
      (st' = { st with bookings := st.bookings.save (legacyDecided input b) } ∨
        (st' = st ∧ b.status = .confirmed ∧ input.status = .approved)) := by
  simp only [decideLegacyTx, bind_eq_ok, found_eq_ok, require_eq_ok] at h
  obtain ⟨b, hb, ⟨⟩, hmay, ⟨⟩, hopen, h⟩ := h
  have hopen' : b.status = .pendingApproval ∨ b.status = .confirmed := by simpa using hopen
  refine ⟨b, hb, hmay, hopen', ?_⟩
  unfold legacyDecided
  cases hin : input.status with
  | approved =>
    simp only [hin] at h
    split at h
    · simp only [pure_eq_ok] at h
      exact .inl h.symm
    · rename_i hst
      simp only [pure_eq_ok] at h
      refine .inr ⟨h.symm, ?_, rfl⟩
      rcases hopen' with hp | hc
      · exact absurd (by simp [hp]) hst
      · exact hc
  | rejected =>
    simp only [hin, pure_eq_ok] at h
    exact .inl h.symm

/-- An accepted decision: on a booking without a chain, or on the first step the user may act on. -/
theorem decide_ok {r : DecideResult} (h : ApprovalsService.decide env now user bookingId input st = .ok (st', r)) :
    (∃ b, LegacyDecision user bookingId input st b ∧ st'.steps = st.steps ∧
      (st'.bookings = st.bookings.save (legacyDecided input b) ∨
        (st'.bookings = st.bookings ∧ b.status = .confirmed ∧ input.status = .approved))) ∨
    ∃ i step, ChainDecision env user bookingId input st i step ∧
      st' = recordApprovalAudit now user.tenantId bookingId (some user.id) input
        (commitStepDecision now user.tenantId bookingId (lockChain st user.tenantId bookingId) step input
          (some user.id) st).1 := by
  simp only [ApprovalsService.decide, bind_eq_ok, require_eq_ok] at h
  obtain ⟨⟨⟩, hreason, h⟩ := h
  have hreason' : input.status = .approved ∨ trim (input.reason.getD "") ≠ "" := by simpa using hreason
  split at h
  · rename_i hchain
    simp only [bind_eq_ok, pure_eq_ok, Prod.mk.injEq] at h
    obtain ⟨st₁, htx, rfl, -⟩ := h
    obtain ⟨b, hb, hmay, hopen, hst⟩ := decideLegacyTx_ok htx
    refine .inl ⟨b, ⟨hreason', by simpa using hchain, hb, hmay, hopen⟩, ?_⟩
    rcases hst with rfl | ⟨rfl, hc⟩
    · exact ⟨rfl, .inl rfl⟩
    · exact ⟨rfl, .inr ⟨rfl, hc⟩⟩
  · simp only [bind_eq_ok, found_eq_ok, pure_eq_ok, Prod.mk.injEq] at h
    obtain ⟨i, hi, step, hstep, rfl, -⟩ := h
    obtain ⟨s, hs, hp, hd, hc⟩ := firstActionableIndex_some hi
    rw [hstep, Option.some.injEq] at hs
    subst hs
    exact .inr ⟨i, step, ⟨hreason', hi, hstep, hp, hd, hc⟩, rfl⟩

theorem ChainDecision.decide_ok {i : ℕ} {step : ApprovalStep} (h : ChainDecision env user bookingId input st i step)
    (now : Instant) :
    ApprovalsService.decide env now user bookingId input st =
      .ok (recordApprovalAudit now user.tenantId bookingId (some user.id) input
        (commitStepDecision now user.tenantId bookingId (lockChain st user.tenantId bookingId) step input
          (some user.id) st).1, ⟨input.status, true⟩) := by
  have hne : (lockChain st user.tenantId bookingId).isEmpty = false := by
    cases hc : lockChain st user.tenantId bookingId with
    | nil => simpa [hc] using h.at_
    | cons => rfl
  have hreason : (input.status == .approved || trim (input.reason.getD "") != "") = true := by
    simpa using h.reason
  simp [ApprovalsService.decide, hreason, hne, h.first, h.at_, found, require, bind, Except.bind, pure, Except.pure]

def legacyStore (input : DecideInput) (b : Booking) (st : Store) : Store :=
  if input.status = .approved ∧ b.status = .confirmed then st
  else { st with bookings := st.bookings.save (legacyDecided input b) }

/-- A decision on a booking without a chain that passes the checks is accepted. -/
theorem LegacyDecision.decide_ok {b : Booking} (h : LegacyDecision user bookingId input st b) (now : Instant) :
    ApprovalsService.decide env now user bookingId input st =
      .ok (recordApprovalAudit now user.tenantId bookingId (some user.id) input (legacyStore input b st),
        ⟨input.status, false⟩) := by
  have hreason : (input.status == .approved || trim (input.reason.getD "") != "") = true := by
    simpa using h.reason
  have hopen : (b.status == .pendingApproval || b.status == .confirmed) = true := by
    simpa using h.open_
  have hlegacy : decideLegacyTx user bookingId input st = .ok (legacyStore input b st) := by
    refine bind_eq_ok.2 ⟨b, found_eq_ok.2 h.found, bind_eq_ok.2 ⟨(), require_of h.may, ?_⟩⟩
    refine bind_eq_ok.2 ⟨(), require_of hopen, ?_⟩
    unfold legacyStore legacyDecided
    cases input.status with
    | rejected => rfl
    | approved =>
      rcases h.open_ with hst | hst
      · simp [hst, pure, Except.pure]
      · simp [hst, pure, Except.pure]
  simp [ApprovalsService.decide, hreason, h.chain, hlegacy, require, bind, Except.bind, pure, Except.pure]

/-! ### The sweeps -/

theorem autoApproveStep_some {stepId : Uuid} {r : Store × Outcome}
    (h : autoApproveStep now tenantId bookingId stepId st = some r) :
    ∃ step due, step ∈ st.steps.rows ∧ step.tenantId = tenantId ∧ step.bookingId = bookingId ∧ step.id = stepId ∧
      step.status = .pending ∧ step.dueAt = some due ∧ due ≤ now ∧
      r = (recordApprovalAudit now tenantId bookingId none autoInput
          (commitStepDecision now tenantId bookingId (lockChain st tenantId bookingId) step autoInput none st).1,
        (commitStepDecision now tenantId bookingId (lockChain st tenantId bookingId) step autoInput none st).2) := by
  simp only [autoApproveStep, bind, Option.bind_eq_some_iff, Option.guard_eq_some'] at h
  obtain ⟨step, hfind, -, hp, due, hdue, -, hle, hr⟩ := h
  obtain ⟨hm, hten, hbook⟩ := mem_lockChain.1 (List.mem_of_find?_eq_some hfind)
  refine ⟨step, due, hm, hten, hbook, by simpa using List.find?_some hfind, hp, hdue, hle, ?_⟩
  simpa [pure] using hr.symm

/-- A due step of a chain is approved by its turn of the sweep. -/
theorem autoApproveStep_of_due {step : ApprovalStep} {due : Instant} (hm : step ∈ st.steps.rows)
    (hp : step.status = .pending) (hdue : step.dueAt = some due) (hle : due ≤ now) :
    autoApproveStep now step.tenantId step.bookingId step.id st =
      some (recordApprovalAudit now step.tenantId step.bookingId none autoInput
          (commitStepDecision now step.tenantId step.bookingId (lockChain st step.tenantId step.bookingId) step
            autoInput none st).1,
        (commitStepDecision now step.tenantId step.bookingId (lockChain st step.tenantId step.bookingId) step
          autoInput none st).2) := by
  have hfind : (lockChain st step.tenantId step.bookingId).find? (·.id == step.id) = some step := by
    have hmem : step ∈ lockChain st step.tenantId step.bookingId := mem_lockChain.2 ⟨hm, rfl, rfl⟩
    obtain ⟨s, hs⟩ := Option.isSome_iff_exists.1
      (List.find?_isSome.2 ⟨step, hmem, by simp⟩ : ((lockChain st step.tenantId step.bookingId).find?
        (·.id == step.id)).isSome = true)
    have hid : s.id = step.id := by simpa using List.find?_some hs
    rw [hs, Table.eq_of_key (mem_lockChain.1 (List.mem_of_find?_eq_some hs)).1 hm hid]
  simp only [autoApproveStep, bind, hfind, Option.bind_some, hp, hdue, hle]
  rfl

theorem mem_dueSteps {s : ApprovalStep} :
    s ∈ dueSteps now st ↔ s ∈ st.steps.rows ∧ s.status = .pending ∧ ∃ due, s.dueAt = some due ∧ due ≤ now := by
  rw [dueSteps, (List.perm_insertionSort _ _).mem_iff]
  simp [Option.any_eq_true]

/-! ### Delegation -/

theorem delegate_ok {toUserId : Uuid} {reason : String} {u : Unit}
    (h : delegate env now user bookingId toUserId reason st = .ok (st', u)) :
    (∃ s, s ∈ st.steps.rows ∧ (lockChain st user.tenantId bookingId).find? (·.status == .pending) = some s ∧
      st' = { st with steps := st.steps.save (delegatedStep now user toUserId reason s) }) ∨
    ∃ b notes, lockChain st user.tenantId bookingId = [] ∧
      findBooking st.bookings user.tenantId bookingId = some b ∧ b.status = .pendingApproval ∧
      st' = { st with
        bookings := st.bookings.save { b with delegatedTo := some toUserId, exceptionNotes := notes } } := by
  simp only [delegate, bind_eq_ok, require_eq_ok] at h
  obtain ⟨⟨⟩, -, ⟨⟩, -, h⟩ := h
  split at h
  · rename_i s hs
    simp only [bind_eq_ok, require_eq_ok, pure_eq_ok, Prod.mk.injEq] at h
    obtain ⟨⟨⟩, -, rfl, -⟩ := h
    exact .inl ⟨s, (mem_lockChain.1 (List.mem_of_find?_eq_some hs)).1, hs, rfl⟩
  · simp only [bind_eq_ok, require_eq_ok, found_eq_ok, pure_eq_ok, Prod.mk.injEq] at h
    obtain ⟨⟨⟩, hchain, b, hb, ⟨⟩, hst, ⟨⟩, -, rfl, -⟩ := h
    exact .inr ⟨b, _, by simpa using hchain, hb, by simpa using hst, rfl⟩

end BookingSystem.Effects
