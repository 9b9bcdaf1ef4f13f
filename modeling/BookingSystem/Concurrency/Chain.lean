import BookingSystem.Effects.Approvals
import BookingSystem.Model.System
import BookingSystem.Base.Locking

/-!
# Concurrent decisions on one approval chain

The transactions of `decide` and of `autoApproveStep` on the chain of one booking. Each locks the rows of the
chain, reads them, and decides one pending step. The chain is confirmed in exactly one transaction, the one that
closes it, and in none once a step is rejected (`completion_exact`).
-/

namespace BookingSystem.Concurrency

open Base Model Model.ApprovalsService Effects

/-- A decision of a user of the tenant, or the turn of the sweep for one step. -/
inductive Decider (tenantId : Uuid)
  | approver (env : Env) (now : Instant) (user : AuthUser) (input : DecideInput) (tenant : user.tenantId = tenantId)
  | sweep (now : Instant) (stepId : Uuid)

/-- What a transaction writes: the decision on one step of the chain as it was locked. -/
structure Decision where
  now : Instant
  steps : List ApprovalStep
  step : ApprovalStep
  input : DecideInput
  actorId : Option Uuid

/-- The decision of a request on the chain as it is committed; `none` when the request is refused or finds nothing
to do. -/
def Decider.decision {tenantId : Uuid} (q : Decider tenantId) (bookingId : Uuid) (st : Store) : Option Decision :=
  let steps := lockChain st tenantId bookingId
  match q with
  | .approver env now user input _ =>
    if input.status == .approved || trim (input.reason.getD "") != "" then
      (firstActionableIndex env steps (chainRule env steps) user).bind fun i =>
        (steps[i]?).map fun step => ⟨now, steps, step, input, some user.id⟩
    else none
  | .sweep now stepId =>
    ((steps.find? (·.id == stepId)).filter fun step => step.status == .pending && step.dueAt.any (· ≤ now)).map
      fun step => ⟨now, steps, step, autoInput, none⟩

def Decision.commit (tenantId bookingId : Uuid) (w : Decision) (st : Store) : Store × Outcome :=
  let r := commitStepDecision w.now tenantId bookingId w.steps w.step w.input w.actorId st
  (recordApprovalAudit w.now tenantId bookingId w.actorId w.input r.1, r.2)

def chain (tenantId bookingId : Uuid) :
    Protocol Store (Decider tenantId) (Decider tenantId × List Uuid) Uuid Decision where
  prep q st := some (q, (lockChain st tenantId bookingId).map (·.id))
  locks k := k.2
  plan k st := k.1.decision bookingId st
  apply w st := (w.commit tenantId bookingId st).1

def Decision.confirms (w : Decision) : Bool := w.input.status == .approved && allDone w.steps w.step

variable {tenantId bookingId : Uuid}

theorem commit_confirmed (w : Decision) (st : Store) :
    (w.commit tenantId bookingId st).2.confirmed = w.confirms :=
  commitStepDecision_confirmed ..

/-- The transaction turns the booking from another status to `'Confirmed'`. -/
def SetsConfirmed (tenantId bookingId : Uuid) (w : Decision) (st : Store) : Prop :=
  ∃ b b', st.bookings.find? bookingId = some b ∧ b.status ≠ .confirmed ∧
    (w.commit tenantId bookingId st).1.bookings.find? bookingId = some b' ∧ b'.status = .confirmed

theorem SetsConfirmed.confirms {w : Decision} {st : Store} (h : SetsConfirmed tenantId bookingId w st) :
    w.confirms = true := by
  obtain ⟨b, b', hb, hne, hb', hst⟩ := h
  have hfind : (w.commit tenantId bookingId st).1.bookings.find? bookingId = _ :=
    commitStepDecision_find? w.now tenantId bookingId w.steps w.step w.input w.actorId st bookingId
  rw [hb', hb, Option.map_some, Option.some.injEq] at hfind
  subst hfind
  unfold Decision.confirms
  split at hst
  · unfold decidedBooking at hst
    cases hin : w.input.status with
    | rejected => simp [hin] at hst
    | approved =>
      simp only [hin] at hst
      split at hst
      · rename_i hd
        simp [hd]
      · exact absurd hst hne
  · exact absurd hst hne

theorem Decision.booking_of_confirms {w : Decision} (h : w.confirms = true) {st : Store} {b : Booking}
    (hb : st.bookings.find? bookingId = some b) (htenant : b.tenantId = tenantId) :
    ∃ b', (w.commit tenantId bookingId st).1.bookings.find? bookingId = some b' ∧ b'.status = .confirmed := by
  obtain ⟨hin, hdone⟩ := Bool.and_eq_true_iff.1 h
  have hfind : (w.commit tenantId bookingId st).1.bookings.find? bookingId = _ :=
    commitStepDecision_find? w.now tenantId bookingId w.steps w.step w.input w.actorId st bookingId
  rw [hb, Option.map_some, if_pos ⟨Table.key_of_find? hb, htenant⟩] at hfind
  refine ⟨_, hfind, ?_⟩
  simp only [decidedBooking, beq_iff_eq.1 hin, if_pos hdone]
  rfl

/-! ### The transactions are the services' -/

theorem decide_eq_commit {env : Env} {now : Instant} {user : AuthUser} {input : DecideInput} {st st' : Store}
    {r : DecideResult} (hchain : lockChain st user.tenantId bookingId ≠ [])
    (h : ApprovalsService.decide env now user bookingId input st = .ok (st', r)) :
    ∃ w, (Decider.approver env now user input rfl).decision bookingId st = some w ∧
      st' = (w.commit user.tenantId bookingId st).1 := by
  rcases decide_ok h with ⟨b, hleg, -⟩ | ⟨i, step, hd, rfl⟩
  · exact absurd hleg.chain hchain
  · refine ⟨⟨now, lockChain st user.tenantId bookingId, step, input, some user.id⟩, ?_, rfl⟩
    have hreason := hd.reason
    simp only [Decider.decision, hd.first, Option.bind_some, hd.at_, Option.map_some]
    rw [if_pos (by simpa using hreason)]

theorem autoApproveStep_eq_commit {now : Instant} {stepId : Uuid} {st : Store} {r : Store × Outcome}
    (h : autoApproveStep now tenantId bookingId stepId st = some r) :
    ∃ w, (Decider.sweep now stepId : Decider tenantId).decision bookingId st = some w ∧
      r = w.commit tenantId bookingId st := by
  simp only [autoApproveStep, bind, Option.bind_eq_some_iff, Option.guard_eq_some'] at h
  obtain ⟨step, hfind, -, hp, due, hdue, -, hle, hr⟩ := h
  refine ⟨⟨now, lockChain st tenantId bookingId, step, autoInput, none⟩, ?_, ?_⟩
  · simp [Decider.decision, hfind, Option.filter_some, hp, hdue, hle]
  · exact (Option.some.inj hr).symm

/-! ### One decision -/

theorem decision_spec {q : Decider tenantId} {st : Store} {w : Decision} (h : q.decision bookingId st = some w) :
    w.steps = lockChain st tenantId bookingId ∧ w.step ∈ lockChain st tenantId bookingId ∧
      w.step.status = .pending := by
  cases q with
  | approver env now user input tenant =>
    simp only [Decider.decision] at h
    split at h
    · simp only [Option.bind_eq_some_iff, Option.map_eq_some_iff] at h
      obtain ⟨i, hi, step, hstep, rfl⟩ := h
      obtain ⟨s, hs, hp, -⟩ := firstActionableIndex_some hi
      rw [hstep, Option.some.injEq] at hs
      subst hs
      exact ⟨rfl, List.mem_of_getElem? hstep, hp⟩
    · cases h
  | sweep now stepId =>
    simp only [Decider.decision, Option.map_eq_some_iff, Option.filter_eq_some_iff, Bool.and_eq_true,
      beq_iff_eq] at h
    obtain ⟨step, ⟨hfind, hp, -⟩, rfl⟩ := h
    exact ⟨rfl, List.mem_of_find?_eq_some hfind, hp⟩

theorem lockChain_commit {w : Decision} {st : Store} (h : w.step ∈ lockChain st tenantId bookingId) :
    lockChain (w.commit tenantId bookingId st).1 tenantId bookingId =
      (lockChain st tenantId bookingId).map fun s =>
        if s = w.step then decidedStep w.now w.input w.actorId w.step else s :=
  lockChain_commitStepDecision _ _ _ _ _ _ _ _ (mem_lockChain.1 h).1 _ _

section One

variable {w : Decision} {st : Store} (hsteps : w.steps = lockChain st tenantId bookingId)
  (hmem : w.step ∈ lockChain st tenantId bookingId)

include hsteps hmem

theorem allDone_commit_iff : (∀ s ∈ lockChain (w.commit tenantId bookingId st).1 tenantId bookingId, isDone s = true) ↔
    w.confirms = true := by
  rw [lockChain_commit hmem, List.forall_mem_map]
  simp only [Decision.confirms, allDone, hsteps, Bool.and_eq_true, beq_iff_eq, List.all_eq_true, Bool.or_eq_true]
  constructor
  · intro h
    have hself := h w.step hmem
    rw [if_pos rfl] at hself
    refine ⟨?_, fun s hs => ?_⟩
    · cases hin : w.input.status with
      | approved => rfl
      | rejected => simp [isDone, decidedStep, ApprovalDecision.stepStatus, hin] at hself
    · by_cases he : s = w.step
      · exact .inl (by rw [he])
      · have := h s hs
        rw [if_neg he] at this
        exact .inr this
  · rintro ⟨hin, hall⟩ s hs
    by_cases he : s = w.step
    · rw [if_pos he]
      simp [isDone, decidedStep, ApprovalDecision.stepStatus, hin]
    · rw [if_neg he]
      refine (hall s hs).resolve_left fun hid => he ?_
      exact Table.eq_of_key (mem_lockChain.1 hs).1 (mem_lockChain.1 hmem).1 hid

theorem rejected_commit (hpend : w.step.status = .pending)
    (h : ∃ s ∈ lockChain st tenantId bookingId, s.status = .rejected) :
    (∃ s ∈ lockChain (w.commit tenantId bookingId st).1 tenantId bookingId, s.status = .rejected) ∧
      w.confirms = false := by
  obtain ⟨s, hs, hrej⟩ := h
  have hne : s ≠ w.step := by
    rintro rfl
    rw [hpend] at hrej
    cases hrej
  have hs' : s ∈ lockChain (w.commit tenantId bookingId st).1 tenantId bookingId := by
    rw [lockChain_commit hmem]
    exact List.mem_map.2 ⟨s, hs, if_neg hne⟩
  refine ⟨⟨s, hs', hrej⟩, ?_⟩
  by_contra hc
  have := (allDone_commit_iff hsteps hmem).2 (by simpa using hc) s hs'
  simp [isDone, hrej] at this

end One

/-! ### Runs -/

theorem chain_stable : (chain tenantId bookingId).Stable fun _ _ => True where
  prep {t u k l v st} _ hk _ hv := by
    obtain ⟨-, hmem, -⟩ := decision_spec hv
    simp only [chain, Option.some.injEq] at hk ⊢
    rw [lockChain_commit hmem, List.map_map, ← hk]
    congr 1
    refine List.map_congr_left fun s _ => ?_
    by_cases he : s = v.step
    · simp [he, decidedStep]
    · simp [he]
  plan {t u k l w v st} _ hk hl hdisj hw hv := by
    -- both lock all rows of the chain, and there is one
    obtain ⟨-, hmem, -⟩ := decision_spec hv
    simp only [chain, Option.some.injEq] at hk hl
    subst hk hl
    exact absurd (List.mem_map_of_mem hmem) (hdisj _ (List.mem_map_of_mem hmem))

/-- How the number of confirmations and the chain go together. -/
def Exact (tenantId bookingId : Uuid) (log : List (Decider tenantId × Decision)) (st : Store) : Prop :=
  (log.countP (·.2.confirms) = 0 ∧ ∃ s ∈ lockChain st tenantId bookingId, isDone s = false) ∨
    (log.countP (·.2.confirms) = 1 ∧ ∀ s ∈ lockChain st tenantId bookingId, isDone s = true)

theorem exact_of_serial {db st : Store} (hopen : ∃ s ∈ lockChain db tenantId bookingId, isDone s = false)
    {log : List (Decider tenantId × Decision)} (h : (chain tenantId bookingId).Serial db log st) :
    Exact tenantId bookingId log st := by
  induction h with
  | nil => exact .inl ⟨rfl, hopen⟩
  | @snoc log st t k w _ _ hw ih =>
    obtain ⟨hsteps, hmem, hpend⟩ := decision_spec hw
    have hiff := allDone_commit_iff hsteps hmem
    rcases ih with ⟨hcount, -⟩ | ⟨-, hall⟩
    · unfold Exact
      rw [List.countP_append, hcount]
      cases hc : w.confirms with
      | true => exact .inr ⟨by simp [hc], hiff.2 hc⟩
      | false =>
        refine .inl ⟨by simp [hc], ?_⟩
        by_contra hno
        have : w.confirms = true := hiff.1 fun s hs => by
          by_contra hd
          exact hno ⟨s, hs, by simpa using hd⟩
        rw [hc] at this
        cases this
    · have := hall w.step hmem
      simp [isDone, hpend] at this

theorem not_confirms_of_rejected {db st : Store} {log : List (Decider tenantId × Decision)}
    (hrej : ∃ s ∈ lockChain db tenantId bookingId, s.status = .rejected)
    (h : (chain tenantId bookingId).Serial db log st) :
    (∃ s ∈ lockChain st tenantId bookingId, s.status = .rejected) ∧ ∀ e ∈ log, e.2.confirms = false := by
  induction h with
  | nil => exact ⟨hrej, by simp⟩
  | @snoc log st t k w _ _ hw ih =>
    obtain ⟨hsteps, hmem, hpend⟩ := decision_spec hw
    obtain ⟨hr, hc⟩ := rejected_commit hsteps hmem hpend ih.1
    refine ⟨hr, fun e he => ?_⟩
    rcases List.mem_append.1 he with he | he
    · exact ih.2 e he
    · rw [List.mem_singleton.1 he]
      exact hc

/-- **Completion is exact.** In every interleaving of decisions and sweeps on a chain that is not finished: a
transaction confirms the booking only if its commit closes the chain; at most one does; one has, once the chain is
closed; none does after a step was rejected; and one that does leaves the booking confirmed. -/
theorem completion_exact {db : Store} (hopen : ∃ s ∈ lockChain db tenantId bookingId, isDone s = false)
    {s : Protocol.State Store (Decider tenantId) (Decider tenantId × List Uuid) Uuid Decision}
    (h : (chain tenantId bookingId).Reach (fun _ _ => True) db s) :
    (∀ i t k w, s.txns i = some (t, .planned k w) →
      (w.commit tenantId bookingId s.db).2.confirmed = true ∨ SetsConfirmed tenantId bookingId w s.db →
      ∀ x ∈ lockChain (w.commit tenantId bookingId s.db).1 tenantId bookingId, isDone x = true) ∧
    s.log.countP (·.2.confirms) ≤ 1 ∧
    ((∀ x ∈ lockChain s.db tenantId bookingId, isDone x = true) → s.log.countP (·.2.confirms) = 1) ∧
    ((∃ x ∈ lockChain db tenantId bookingId, x.status = .rejected) → ∀ e ∈ s.log, e.2.confirms = false) ∧
    (∀ log₁ e log₂, s.log = log₁ ++ e :: log₂ → e.2.input.status = .rejected →
      ∀ e' ∈ log₂, e'.2.confirms = false) ∧
    (∀ i t k w, s.txns i = some (t, .planned k w) → w.confirms = true →
      ∀ b, s.db.bookings.find? bookingId = some b → b.tenantId = tenantId →
        ∃ b', (w.commit tenantId bookingId s.db).1.bookings.find? bookingId = some b' ∧ b'.status = .confirmed) := by
  have hser := Protocol.serial_of_reach chain_stable h
  have hex := exact_of_serial hopen hser
  refine ⟨fun i t k w hi hc => ?_, ?_, fun hall => ?_, fun hrej => (not_confirms_of_rejected hrej hser).2,
    fun log₁ e log₂ hlog hrej e' he' => ?_, fun i t k w _ hconfirms b hb htenant =>
      Decision.booking_of_confirms hconfirms hb htenant⟩
  · obtain ⟨-, hw⟩ := Protocol.planned_of_reach chain_stable h hi
    obtain ⟨hsteps, hmem, hpend⟩ := decision_spec hw
    refine (allDone_commit_iff hsteps hmem).2 ?_
    rcases hc with hc | hc
    · rw [← @commit_confirmed tenantId bookingId w s.db]
      exact hc
    · exact hc.confirms
  · rcases hex with ⟨h0, -⟩ | ⟨h1, -⟩ <;> omega
  · rcases hex with ⟨-, x, hx, hd⟩ | ⟨h1, -⟩
    · rw [hall x hx] at hd
      cases hd
    · exact h1
  · -- after the rejecting transaction the chain holds a rejected step
    rw [hlog, List.append_cons] at hser
    obtain ⟨m, h₁, h₂⟩ := hser.split
    obtain ⟨m₀, k, -, -, hw, rfl⟩ := h₁.last
    obtain ⟨-, hmem, -⟩ := decision_spec hw
    refine (not_confirms_of_rejected ?_ h₂).2 e' he'
    refine ⟨decidedStep e.2.now e.2.input e.2.actorId e.2.step, ?_, by
      simp [decidedStep, ApprovalDecision.stepStatus, hrej]⟩
    show _ ∈ lockChain (e.2.commit tenantId bookingId m₀).1 tenantId bookingId
    rw [lockChain_commit hmem]
    exact List.mem_map.2 ⟨_, hmem, if_pos rfl⟩

/-- A booking that waits for `ann`, and whose second step is due. -/
def twoSteps : Store where
  bookings := ⟨[{ id := "b", tenantId := "t", resourceId := "r", userId := "u", startTime := 0, endTime := 1,
                  status := .pendingApproval }], by decide⟩
  steps := ⟨[{ id := "s0", tenantId := "t", bookingId := "b", ruleId := none, stepIndex := 0, levelName := "lead",
               approverIds := ["ann"], createdAt := 0 },
             { id := "s1", tenantId := "t", bookingId := "b", ruleId := none, stepIndex := 1, levelName := "desk",
               dueAt := some 0, createdAt := 0 }], by decide⟩
  approvals := []

/-- The sweep is after the second step while `ann` approves the first one; the sweep closes the chain. -/
theorem completion_exact_twoSteps :
    ∃ s : Protocol.State Store (Decider "t") (Decider "t" × List Uuid) Uuid Decision,
      (chain "t" "b").Reach (fun _ _ => True) twoSteps s ∧ s.log.map (·.2.confirms) = [false, true] ∧
        s.log.countP (·.2.confirms) ≤ 1 := by
  have hopen : ∃ x ∈ lockChain twoSteps "t" "b", isDone x = false := by decide
  let ann : Decider "t" := .approver (office .empty .empty .empty) 5 ⟨"ann", "t", "Officer", none⟩ ⟨.approved, none⟩ rfl
  have hs : ∃ s, (chain "t" "b").Reach (fun _ _ => True) twoSteps s ∧ s.log.map (·.2.confirms) = [false, true] := by
    refine ⟨_, .step (.step (.step (.step (.step (.step (.step (.step (.step (.step (.step (.step .init
      (.start (i := 0) ann rfl ?_)) (.start (i := 1) (.sweep 5 "s1") rfl ?_)) (.read (i := 0) rfl rfl))
      (.read (i := 1) rfl rfl)) (.lock (i := 0) rfl ?_)) (.lock (i := 0) rfl ?_)) (.plan (i := 0) rfl rfl))
      (.commit (i := 0) rfl)) (.lock (i := 1) rfl ?_)) (.lock (i := 1) rfl ?_)) (.plan (i := 1) rfl rfl))
      (.commit (i := 1) rfl), ?_⟩
    · exact fun _ _ _ _ => ⟨trivial, trivial⟩
    · exact fun _ _ _ _ => ⟨trivial, trivial⟩
    · intro j u ph hne h
      rcases j with _ | _ | j
      · exact absurd rfl hne
      · cases h
        exact List.not_mem_nil
      · cases h
    · intro j u ph hne h
      rcases j with _ | _ | j
      · exact absurd rfl hne
      · cases h
        exact List.not_mem_nil
      · cases h
    -- `ann` has left when the sweep takes its locks
    · intro j u ph hne h
      rcases j with _ | _ | j
      · cases h
      · exact absurd rfl hne
      · cases h
    · intro j u ph hne h
      rcases j with _ | _ | j
      · cases h
      · exact absurd rfl hne
      · cases h
    · decide
  obtain ⟨s, hreach, hlog⟩ := hs
  exact ⟨s, hreach, hlog, (completion_exact hopen hreach).2.1⟩

end BookingSystem.Concurrency
