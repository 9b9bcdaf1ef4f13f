import BookingSystem.Effects.Chains
import BookingSystem.Effects.Checkin
import BookingSystem.Effects.Sweeps
import BookingSystem.Model.System

/-!
# The audit of decisions

Every decision on a step, and every decision that changes a booking without a chain, should leave one row in the audit.
The rows of a booking are counted by decision, and so are the decisions, from the stores before and after each call. The
decisions of users on a chain and the approvals of overdue steps are audited as they should be. The sweep of stale
requests closes steps and writes no row, and an approval of a booking that is confirmed already writes a row and changes
nothing; without these two the numbers agree all along a run (`audit_exact_iff`).
-/

namespace BookingSystem.Runs

open Base Model Model.BookingsService
open Model.ApprovalsService Effects

/-! ### What is counted -/

section Counts

variable (tenantId bookingId : Uuid) (decision : ApprovalDecision)

def auditCount (st : Store) : ℕ :=
  st.approvals.countP fun a => a.tenantId == tenantId && a.bookingId == bookingId && a.decision == decision

def stepDecisions (st st' : Store) : ℕ :=
  st.steps.rows.countP fun s => s.tenantId == tenantId && s.bookingId == bookingId && s.status == .pending &&
    (st'.steps.find? s.id).any (·.status == decision.stepStatus)

def statusIn (st : Store) : Option BookingStatus := (findBooking st.bookings tenantId bookingId).map (·.status)

/-- The decision on the booking without a chain that the call is, if it changes the status of the booking. -/
def legacyDecisions (st : Store) (e : Event) : ℕ :=
  match e.op with
  | .decide user id input =>
    if user.tenantId = tenantId ∧ id = bookingId ∧ input.status = decision ∧ lockChain st tenantId bookingId = [] ∧
      statusIn tenantId bookingId (step st e) ≠ statusIn tenantId bookingId st then 1 else 0
  | _ => 0

def decisionsOf (st : Store) (e : Event) : ℕ :=
  stepDecisions tenantId bookingId decision st (step st e) + legacyDecisions tenantId bookingId decision st e

def decisionsIn : Store → List Event → ℕ
  | _, [] => 0
  | st, e :: es => decisionsOf tenantId bookingId decision st e + decisionsIn (step st e) es

theorem decisionsIn_append (st : Store) (es fs : List Event) :
    decisionsIn tenantId bookingId decision st (es ++ fs) =
      decisionsIn tenantId bookingId decision st es + decisionsIn tenantId bookingId decision (run st es) fs := by
  induction es generalizing st with
  | nil => exact (Nat.zero_add _).symm
  | cons e es ih =>
    show _ + decisionsIn tenantId bookingId decision (step st e) (es ++ fs) = _
    rw [ih, ← Nat.add_assoc]
    rfl

end Counts

/-- The audit grows by the decisions of the call. -/
def Exact (st : Store) (e : Event) : Prop :=
  ∀ tenantId bookingId decision, auditCount tenantId bookingId decision (step st e) =
    auditCount tenantId bookingId decision st + decisionsOf tenantId bookingId decision st e

/-- The call does not approve a confirmed booking that has no chain, and does not sweep a stale request that has a
pending step. -/
def Audited (st : Store) (e : Event) : Prop :=
  match e.op with
  | .decide user bookingId input => input.status = .approved →
      ∀ b, LegacyDecision user bookingId input st b → b.status ≠ .confirmed
  | .sweepStaleApprovals => ∀ b ∈ staleBookings e.now st, ∀ s ∈ st.steps.rows, ¬ closedWith b s
  | _ => True

theorem exact_iff_allSteps (st : Store) (es : List Event) :
    (∀ p q, es = p ++ q → ∀ tenantId bookingId decision,
      auditCount tenantId bookingId decision (run st p) =
        auditCount tenantId bookingId decision st + decisionsIn tenantId bookingId decision st p) ↔
      AllSteps step Exact st es := by
  constructor
  · rw [allSteps_iff]
    rintro h p e r rfl tenantId bookingId decision
    have hp := h p (e :: r) rfl tenantId bookingId decision
    have hpe := h (p ++ [e]) r (by simp) tenantId bookingId decision
    rw [run_then, decisionsIn_append] at hpe
    have hlast : auditCount tenantId bookingId decision (step (run st p) e) =
        auditCount tenantId bookingId decision st + (decisionsIn tenantId bookingId decision st p +
          decisionsOf tenantId bookingId decision (run st p) e) := hpe
    show auditCount tenantId bookingId decision (step (run st p) e) =
      auditCount tenantId bookingId decision (run st p) + decisionsOf tenantId bookingId decision (run st p) e
    omega
  · intro h p q hes tenantId bookingId decision
    subst hes
    have hp := (allSteps_append.1 h).1
    clear h
    induction p generalizing st with
    | nil => rfl
    | cons e p ih =>
      have hrest := ih (step st e) hp.2
      have he := hp.1 tenantId bookingId decision
      show auditCount tenantId bookingId decision (run (step st e) p) =
        _ + (decisionsOf tenantId bookingId decision st e + decisionsIn tenantId bookingId decision (step st e) p)
      omega

/-! ### Calls that decide nothing -/

/-- No row of the audit is written, and no step changes its status. -/
structure Quiet (st st' : Store) : Prop where
  approvals : st'.approvals = st.approvals
  steps : ∀ s ∈ st.steps.rows, ∃ s' ∈ st'.steps.rows, s'.id = s.id ∧ s'.status = s.status

section Quiet

variable {env : Env} {now : Instant} {st st' st'' : Store}

theorem Quiet.of_eq (happ : st'.approvals = st.approvals) (hsteps : st'.steps = st.steps) : Quiet st st' :=
  ⟨happ, fun s hs => ⟨s, hsteps ▸ hs, rfl, rfl⟩⟩

theorem Quiet.refl (st : Store) : Quiet st st := .of_eq rfl rfl

theorem Quiet.trans (h : Quiet st st') (h' : Quiet st' st'') : Quiet st st'' := by
  refine ⟨h'.approvals.trans h.approvals, fun s hs => ?_⟩
  obtain ⟨s', hs', hid, hst⟩ := h.steps s hs
  obtain ⟨s'', hs'', hid', hst'⟩ := h'.steps s' hs'
  exact ⟨s'', hs'', hid'.trans hid, hst'.trans hst⟩

theorem quiet_settle {α : Type} {x : Except HttpError (Store × α)} (h : ∀ st' r, x = .ok (st', r) → Quiet st st') :
    Quiet st (settle x st) :=
  settle_induction (P := Quiet st) (.refl st) fun r hr => h r.1 r.2 hr

theorem quiet_materialize {newId : ℕ → Uuid} {booking : Booking} {n : ℕ}
    (h : materialize env now newId booking st = .ok (st', n)) : Quiet st st' := by
  rcases materialize_ok h with ⟨rfl, -⟩ | ⟨res, rule, -, -, -, -, -, happ, hrows⟩
  · exact .refl st'
  · exact ⟨happ, fun s hs => ⟨s, hrows ▸ List.mem_append_left _ hs, rfl, rfl⟩⟩

theorem quiet_create {fresh : Fresh} {tenantId userId : Uuid} {dto : CreateBookingDto} {row : Booking}
    (h : create env now fresh tenantId userId dto st = .ok (st', row)) : Quiet st st' := by
  obtain ⟨slot, bookings, -, -, rfl | ⟨-, n, hm⟩⟩ := create_ok h
  · exact .of_eq rfl rfl
  · have hstored : Quiet st { st with bookings } := .of_eq rfl rfl
    exact hstored.trans (quiet_materialize hm)

theorem quiet_delegate {user : AuthUser} {bookingId toUserId : Uuid} {reason : String} {u : Unit}
    (h : delegate env now user bookingId toUserId reason st = .ok (st', u)) : Quiet st st' := by
  rcases delegate_ok h with ⟨s, hs, -, rfl⟩ | ⟨b, notes, -, -, -, rfl⟩
  · refine ⟨rfl, fun x hx => ?_⟩
    refine ⟨if x.id = s.id then delegatedStep now user toUserId reason s else x, ?_, ?_⟩
    · rw [Table.rows_save]
      exact List.mem_map.2 ⟨x, hx, rfl⟩
    · split_ifs with hid
      · obtain rfl : x = s := Table.eq_of_key hx hs hid
        exact ⟨rfl, rfl⟩
      · exact ⟨rfl, rfl⟩
  · exact .of_eq rfl rfl

theorem quiet_step {e : Event} (hdecide : ∀ user bookingId input, e.op ≠ .decide user bookingId input)
    (hdue : e.op ≠ .runDueAutoApprovals) (hstale : e.op ≠ .sweepStaleApprovals) : Quiet st (step st e) := by
  obtain ⟨env, now, op⟩ := e
  cases op with
  | create tenantId userId dto fresh => exact quiet_settle fun st' r hr => quiet_create hr
  | createSeries tenantId userId dto recurrenceId occurrences fresh =>
    refine quiet_settle fun st' r hr => ?_
    exact createSeries_ok (P := Quiet st) hr (.refl st) fun _ _ _ _ _ _ _ hP hc => hP.trans (quiet_create hc)
  | update tenantId userId role id dto =>
    refine quiet_settle fun st' saved hr => ?_
    obtain ⟨b, -, rfl⟩ := update_ok hr
    exact .of_eq rfl rfl
  | updateSeries tenantId userId role id dto =>
    refine quiet_settle fun st' r hr => ?_
    obtain ⟨-, hsteps, happ⟩ := updateSeries_ok (P := fun _ => True) hr trivial fun _ _ _ _ _ _ _ _ _ => trivial
    exact .of_eq happ hsteps
  | cancel tenantId userId role id reason =>
    refine quiet_settle fun st' saved hr => ?_
    obtain ⟨b, -, -, ⟨-, rfl⟩ | ⟨-, notes, rfl⟩⟩ := cancel_ok hr
    · exact .refl _
    · exact .of_eq rfl rfl
  | issueToken tenantId userId isAdmin bookingId token =>
    refine quiet_settle fun st' r hr => ?_
    obtain ⟨b, -, -, rfl⟩ := issueToken_ok hr
    exact .of_eq rfl rfl
  | checkinByBooking tenantId userId isAdmin bookingId =>
    refine quiet_settle fun st' r hr => ?_
    obtain ⟨b, at', -, -, -, rfl⟩ := checkinByBooking_ok hr
    exact .of_eq rfl rfl
  | redeemToken token =>
    refine quiet_settle fun st' r hr => ?_
    obtain ⟨claim, at', -, -, rfl⟩ := redeemToken_ok hr
    exact .of_eq rfl rfl
  | markNoShow tenantId bookingId reason =>
    refine quiet_settle fun st' r hr => ?_
    rcases markNoShow_ok hr with rfl | ⟨b, notes, -, -, rfl⟩
    · exact .refl _
    · exact .of_eq rfl rfl
  | markAttended tenantId bookingId =>
    refine quiet_settle fun st' r hr => ?_
    rcases markAttended_ok hr with rfl | ⟨b, -, -, rfl⟩
    · exact .refl _
    · exact .of_eq rfl rfl
  | tick => exact .of_eq rfl rfl
  | materialize booking newId => exact quiet_settle fun st' n hr => quiet_materialize hr
  | decide user bookingId input => exact absurd rfl (hdecide user bookingId input)
  | delegate user bookingId toUserId reason => exact quiet_settle fun st' u hr => quiet_delegate hr
  | runDueAutoApprovals => exact absurd rfl hdue
  | sweepStaleApprovals => exact absurd rfl hstale

theorem stepDecisions_of_quiet (h : Quiet st st') (tenantId bookingId : Uuid) (decision : ApprovalDecision) :
    stepDecisions tenantId bookingId decision st st' = 0 := by
  refine List.countP_eq_zero.2 fun s hs => ?_
  obtain ⟨s', hs', hid, hst⟩ := h.steps s hs
  have hfind : st'.steps.find? s.id = some s' := by
    rw [← hid]
    exact Table.find?_of_mem hs'
  simp only [hfind, Option.any_some, Bool.and_eq_true, beq_iff_eq, not_and]
  intro hp hd
  rw [hst, hp.2] at hd
  cases decision <;> cases hd

theorem auditCount_of_quiet (h : Quiet st st') (tenantId bookingId : Uuid) (decision : ApprovalDecision) :
    auditCount tenantId bookingId decision st' = auditCount tenantId bookingId decision st := by
  rw [auditCount, h.approvals]
  rfl

end Quiet

/-! ### Decisions -/

section Decide

variable {env : Env} {now : Instant} {st : Store} {user : AuthUser} {bookingId : Uuid} {input : DecideInput}

theorem auditCount_record (tenantId id : Uuid) (decision : ApprovalDecision) (approverId : Option Uuid) (st : Store) :
    auditCount tenantId id decision (recordApprovalAudit now user.tenantId bookingId approverId input st) =
      auditCount tenantId id decision st +
        if user.tenantId = tenantId ∧ bookingId = id ∧ input.status = decision then 1 else 0 := by
  rw [auditCount, recordApprovalAudit, List.countP_append, List.countP_singleton]
  simp only [Bool.and_eq_true, beq_iff_eq, and_assoc]
  rfl

theorem stepDecisions_save {st' : Store} {s : ApprovalStep} {actorId : Option Uuid} (hs : s ∈ st.steps.rows)
    (hp : s.status = .pending) (hsteps : st'.steps = st.steps.save (decidedStep now input actorId s))
    (tenantId id : Uuid) (decision : ApprovalDecision) :
    stepDecisions tenantId id decision st st' =
      if s.tenantId = tenantId ∧ s.bookingId = id ∧ input.status = decision then 1 else 0 := by
  have hstatus : ∀ d : ApprovalDecision, (input.status.stepStatus = d.stepStatus ↔ input.status = d) := by
    intro d
    cases input.status <;> cases d <;> simp [ApprovalDecision.stepStatus]
  have hother : ∀ x ∈ st.steps.rows, x ≠ s → st'.steps.find? x.id = some x := by
    intro x hx hne
    have hid : x.id ≠ s.id := fun h => hne (Table.eq_of_key hx hs h)
    rw [hsteps, Table.find?_save_of_ne hid.symm]
    exact Table.find?_of_mem hx
  have hself : st'.steps.find? s.id = some (decidedStep now input actorId s) := by
    rw [hsteps]
    exact Table.find?_save_of_key rfl (Table.find?_of_mem hs)
  have hcount : ∀ x ∈ st.steps.rows,
      ((x.tenantId == tenantId && x.bookingId == id && x.status == .pending &&
        (st'.steps.find? x.id).any (·.status == decision.stepStatus)) = true ↔
        (x == s && decide (s.tenantId = tenantId ∧ s.bookingId = id ∧ input.status = decision)) = true) := by
    intro x hx
    by_cases hxs : x = s
    · subst hxs
      simp only [hself, hp, Option.any_some, Bool.and_eq_true, beq_iff_eq, decide_eq_true_eq, BEq.rfl, and_true,
        true_and, decidedStep, hstatus, and_assoc]
    · simp only [hother x hx hxs, Option.any_some, Bool.and_eq_true, beq_iff_eq, hxs, false_and, iff_false, not_and]
      intro hpending hd
      rw [hpending.2] at hd
      cases decision <;> cases hd
  rw [stepDecisions, List.countP_congr hcount]
  split_ifs with hmatch
  · have hnodup : st.steps.rows.Nodup := .of_map _ st.steps.nodup
    simp only [decide_eq_true hmatch, Bool.and_true]
    exact List.count_eq_one_of_mem hnodup hs
  · simp [hmatch]

/-- **Decisions on a chain** leave one row. -/
theorem exact_chain {i : ℕ} {s : ApprovalStep} (h : ChainDecision env user bookingId input st i s) :
    Exact st ⟨env, now, .decide user bookingId input⟩ := by
  intro tenantId id decision
  obtain ⟨hs, hten, hbook⟩ := h.mem
  have hstep : step st ⟨env, now, .decide user bookingId input⟩ =
      recordApprovalAudit now user.tenantId bookingId (some user.id) input
        (commitStepDecision now user.tenantId bookingId (lockChain st user.tenantId bookingId) s input
          (some user.id) st).1 := by
    simp [step, h.decide_ok now]
  have hlegacy : legacyDecisions tenantId id decision st ⟨env, now, .decide user bookingId input⟩ = 0 := by
    refine if_neg ?_
    rintro ⟨rfl, rfl, -, hnil, -⟩
    have hat := h.at_
    rw [hnil] at hat
    cases hat
  have hcommit : auditCount tenantId id decision (commitStepDecision now user.tenantId bookingId
      (lockChain st user.tenantId bookingId) s input (some user.id) st).1 = auditCount tenantId id decision st := by
    rw [auditCount, commitStepDecision_approvals]
    rfl
  have hsteps : (step st ⟨env, now, .decide user bookingId input⟩).steps =
      st.steps.save (decidedStep now input (some user.id) s) := by
    rw [hstep]
    exact commitStepDecision_steps ..
  rw [decisionsOf, hlegacy, stepDecisions_save hs h.pending hsteps, hstep, auditCount_record, hcommit, hten, hbook,
    Nat.add_zero]

/-- **Decisions without a chain** leave one row, which is one too many when the booking was confirmed already. -/
theorem exact_legacy {b : Booking} (h : LegacyDecision user bookingId input st b) :
    Exact st ⟨env, now, .decide user bookingId input⟩ ↔ (input.status = .approved → b.status ≠ .confirmed) := by
  have hstep : step st ⟨env, now, .decide user bookingId input⟩ =
      recordApprovalAudit now user.tenantId bookingId (some user.id) input (legacyStore input b st) := by
    simp [step, h.decide_ok now]
  have hquiet : Quiet st (legacyStore input b st) := by
    unfold legacyStore
    split_ifs
    · exact .refl st
    · exact .of_eq rfl rfl
  have hchanged : statusIn user.tenantId bookingId (step st ⟨env, now, .decide user bookingId input⟩) ≠
      statusIn user.tenantId bookingId st ↔ (input.status = .approved → b.status ≠ .confirmed) := by
    have hbefore : statusIn user.tenantId bookingId st = some b.status := by rw [statusIn, h.found, Option.map_some]
    have hafter : statusIn user.tenantId bookingId (step st ⟨env, now, .decide user bookingId input⟩) =
        some (legacyDecided input b).status := by
      obtain ⟨hfind, hten⟩ := findBooking_eq_some.1 h.found
      have hid : b.id = bookingId := Table.key_of_find? hfind
      have hsame : (legacyDecided input b).id = b.id ∧ (legacyDecided input b).tenantId = b.tenantId := by
        unfold legacyDecided
        cases input.status <;> exact ⟨rfl, rfl⟩
      rw [hstep, recordApprovalAudit, legacyStore]
      split_ifs with hidle
      · rw [legacyDecided, hidle.1, ← hidle.2]
        exact hbefore
      · have hsaved : findBooking (st.bookings.save (legacyDecided input b)) user.tenantId bookingId =
            some (legacyDecided input b) :=
          findBooking_eq_some.2 ⟨Table.find?_save_of_key (hsame.1.trans hid) hfind, hsame.2.trans hten⟩
        rw [statusIn, hsaved, Option.map_some]
    rw [hbefore, hafter, Option.some_inj.ne, legacyDecided]
    cases input.status with
    | approved => exact ⟨fun hne _ heq => hne heq.symm, fun hne heq => hne rfl heq.symm⟩
    | rejected =>
      refine iff_of_true ?_ fun happroved => by cases happroved
      rcases h.open_ with hst | hst <;> rw [hst] <;> exact fun h => by cases h
  have hcount : ∀ tenantId id decision, decisionsOf tenantId id decision st ⟨env, now, .decide user bookingId input⟩ =
      if (user.tenantId = tenantId ∧ bookingId = id ∧ input.status = decision) ∧
        (input.status = .approved → b.status ≠ .confirmed) then 1 else 0 := by
    intro tenantId id decision
    have hnone : stepDecisions tenantId id decision st (step st ⟨env, now, .decide user bookingId input⟩) = 0 := by
      rw [hstep]
      exact stepDecisions_of_quiet hquiet tenantId id decision
    rw [decisionsOf, hnone, Nat.zero_add]
    refine if_congr ?_ rfl rfl
    constructor
    · rintro ⟨rfl, rfl, hdec, -, hne⟩
      exact ⟨⟨rfl, rfl, hdec⟩, hchanged.1 hne⟩
    · rintro ⟨⟨rfl, rfl, hdec⟩, hyes⟩
      exact ⟨rfl, rfl, hdec, h.chain, hchanged.2 hyes⟩
  constructor
  · intro hexact
    have hone := hexact user.tenantId bookingId input.status
    rw [hcount, hstep, auditCount_record, auditCount_of_quiet hquiet] at hone
    by_contra hnot
    simp [hnot] at hone
  · intro hyes tenantId id decision
    rw [hcount, hstep, auditCount_record, auditCount_of_quiet hquiet]
    simp only [and_iff_left hyes]

theorem exact_decide :
    Exact st ⟨env, now, .decide user bookingId input⟩ ↔ Audited st ⟨env, now, .decide user bookingId input⟩ := by
  cases hdecide : ApprovalsService.decide env now user bookingId input st with
  | error err =>
    have hstep : step st ⟨env, now, .decide user bookingId input⟩ = st := by
      simp [step, hdecide, settle]
    refine iff_of_true (fun tenantId id decision => ?_) fun _ b hleg => ?_
    · have hlegacy : legacyDecisions tenantId id decision st ⟨env, now, .decide user bookingId input⟩ = 0 :=
        if_neg fun h => h.2.2.2.2 (by rw [hstep])
      rw [decisionsOf, hlegacy, hstep, stepDecisions_of_quiet (.refl st)]
      rfl
    · rw [hleg.decide_ok now] at hdecide
      cases hdecide
  | ok r =>
    rcases decide_ok hdecide with ⟨b, hleg, -⟩ | ⟨i, s, hchain, -⟩
    · rw [exact_legacy hleg]
      constructor
      · intro h happ b' hleg'
        obtain rfl : b = b' := Option.some.inj (hleg.found.symm.trans hleg'.found)
        exact h happ
      · exact fun h happ => h happ b hleg
    · refine iff_of_true (exact_chain hchain) fun _ b hleg => ?_
      have hat := hchain.at_
      rw [hleg.chain] at hat
      cases hat

end Decide

/-! ### The sweeps -/

section Sweeps

variable {env : Env} {now : Instant} {st : Store}

theorem stepDecisions_map {st' : Store} {f : ApprovalStep → ApprovalStep} (hid : ∀ s, (f s).id = s.id)
    (hrows : st'.steps.rows = st.steps.rows.map f) (tenantId bookingId : Uuid) (decision : ApprovalDecision) :
    stepDecisions tenantId bookingId decision st st' =
      st.steps.rows.countP fun s => s.tenantId == tenantId && s.bookingId == bookingId && s.status == .pending &&
        (f s).status == decision.stepStatus := by
  refine List.countP_congr fun s hs => ?_
  have hmem : f s ∈ st'.steps.rows := by
    rw [hrows]
    exact List.mem_map_of_mem hs
  have hfind : st'.steps.find? s.id = some (f s) := by
    rw [← hid s]
    exact Table.find?_of_mem hmem
  rw [hfind, Option.any_some]

/-- **The approvals of overdue steps** leave one row each. -/
theorem exact_runDue : Exact st ⟨env, now, .runDueAutoApprovals⟩ := by
  intro tenantId bookingId decision
  have happ : (runDueAutoApprovals now st).approvals = st.approvals ++ (dueSteps now st).map (autoAudit now) :=
    autoApproveTurns_approvals (nodup_dueSteps now st) fun s h => mem_dueSteps_iff.1 h
  have haudit : auditCount tenantId bookingId decision (runDueAutoApprovals now st) =
      auditCount tenantId bookingId decision st + st.steps.rows.countP fun s =>
        due now s && (s.tenantId == tenantId && s.bookingId == bookingId && autoInput.status == decision) := by
    rw [auditCount, happ, List.countP_append, List.countP_map, dueSteps, (List.perm_insertionSort _ _).countP_eq,
      List.countP_filter]
    refine congrArg₂ _ rfl (List.countP_congr fun s _ => ?_)
    rw [Function.comp_apply, Bool.and_comm]
    rfl
  have hsteps : stepDecisions tenantId bookingId decision st (runDueAutoApprovals now st) =
      st.steps.rows.countP fun s =>
        due now s && (s.tenantId == tenantId && s.bookingId == bookingId && autoInput.status == decision) := by
    rw [stepDecisions_map (fun s => by split_ifs <;> rfl) runDueAutoApprovals_steps]
    refine List.countP_congr fun s _ => ?_
    by_cases hdue : due now s = true
    · have hpending := (due_iff.1 hdue).1
      cases decision <;> simp [hdue, hpending, decidedStep, autoInput, ApprovalDecision.stepStatus]
    · -- a step that stays pending has no decision
      cases decision <;> simp +contextual [hdue, ApprovalDecision.stepStatus]
  show auditCount tenantId bookingId decision (runDueAutoApprovals now st) =
    _ + (stepDecisions tenantId bookingId decision st (runDueAutoApprovals now st) + 0)
  rw [haudit, hsteps, Nat.add_zero]

/-- **The sweep of stale requests** leaves no row: it must not close a step. -/
theorem exact_sweepStale :
    Exact st ⟨env, now, .sweepStaleApprovals⟩ ↔ Audited st ⟨env, now, .sweepStaleApprovals⟩ := by
  have happ : (sweepStaleApprovals now st).approvals = st.approvals :=
    foldl_invariant (P := fun s : Store => s.approvals = st.approvals)
      (fun s b _ hs => (autoRejectStale_approvals now b.tenantId b.id s).trans hs) rfl
  have hexact : Exact st ⟨env, now, .sweepStaleApprovals⟩ ↔ ∀ tenantId bookingId decision,
      stepDecisions tenantId bookingId decision st (sweepStaleApprovals now st) = 0 := by
    refine forall₃_congr fun tenantId bookingId decision => ?_
    have haudit : auditCount tenantId bookingId decision (sweepStaleApprovals now st) =
        auditCount tenantId bookingId decision st := by
      rw [auditCount, happ]
      rfl
    show auditCount tenantId bookingId decision (sweepStaleApprovals now st) =
      _ + (stepDecisions tenantId bookingId decision st (sweepStaleApprovals now st) + 0) ↔ _
    omega
  have hrows : (sweepStaleApprovals now st).steps.rows = st.steps.rows.map fun s =>
      if ∃ b ∈ staleBookings now st, closedWith b s then staleClosed now s else s :=
    staleTurns_steps now (nodup_staleBookings now st) fun b hb => ⟨(mem_staleBookings hb).1, (mem_staleBookings hb).2.1⟩
  rw [hexact]
  constructor
  · intro h b hb s hs hclosed
    have hzero := h s.tenantId s.bookingId .rejected
    rw [stepDecisions_map (fun s => by split_ifs <;> rfl) hrows, List.countP_eq_zero] at hzero
    refine hzero s hs ?_
    rw [if_pos ⟨b, hb, hclosed⟩, hclosed.1]
    simp [staleClosed, ApprovalDecision.stepStatus]
  · intro h tenantId bookingId decision
    rw [stepDecisions_map (fun s => by split_ifs <;> rfl) hrows, List.countP_eq_zero]
    intro s hs
    rw [if_neg fun hex => h _ hex.choose_spec.1 s hs hex.choose_spec.2]
    cases decision <;> simp +contextual [ApprovalDecision.stepStatus]

end Sweeps

/-! ### Every run -/

theorem exact_iff_audited {st : Store} {e : Event} : Exact st e ↔ Audited st e := by
  obtain ⟨env, now, op⟩ := e
  have hquiet : Quiet st (step st ⟨env, now, op⟩) →
      (∀ tenantId bookingId decision, legacyDecisions tenantId bookingId decision st ⟨env, now, op⟩ = 0) →
        Exact st ⟨env, now, op⟩ := by
    intro hquiet hlegacy tenantId bookingId decision
    rw [decisionsOf, hlegacy, stepDecisions_of_quiet hquiet, auditCount_of_quiet hquiet]
    rfl
  cases op with
  | decide user bookingId input => exact exact_decide
  | runDueAutoApprovals => exact iff_of_true exact_runDue trivial
  | sweepStaleApprovals => exact exact_sweepStale
  | _ => exact iff_of_true (hquiet (quiet_step nofun nofun nofun) fun _ _ _ => rfl) trivial

/-- **Every decision leaves exactly one audit row**, all along a run, exactly if no call of the run approves a confirmed
booking that has no chain or sweeps a stale request that has a pending step. -/
theorem audit_exact_iff (st : Store) (es : List Event) :
    (∀ p q, es = p ++ q → ∀ tenantId bookingId decision,
      auditCount tenantId bookingId decision (run st p) =
        auditCount tenantId bookingId decision st + decisionsIn tenantId bookingId decision st p) ↔
      AllSteps step Audited st es := by
  rw [exact_iff_allSteps, allSteps_iff, allSteps_iff]
  exact forall₃_congr fun p e r => imp_congr_right fun _ => exact_iff_audited

/-- A booking is requested and nobody decides on it; the sweep rejects its step, and the audit has no row of that. -/
theorem sweep_unaudited :
    auditCount "t" "b" .rejected
        (run Store.empty [⟨approvalOffice, 0, requestRoom⟩, ⟨approvalOffice, 3600001, .sweepStaleApprovals⟩]) ≠
      auditCount "t" "b" .rejected Store.empty + decisionsIn "t" "b" .rejected Store.empty
        [⟨approvalOffice, 0, requestRoom⟩, ⟨approvalOffice, 3600001, .sweepStaleApprovals⟩] := by
  decide +kernel

end BookingSystem.Runs
