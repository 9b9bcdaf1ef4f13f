import BookingSystem.Base.Dependencies
import BookingSystem.Runs.ChainOrder

/-!
# Chains that can be completed

Each level of a rule can name the levels it waits for, by their index; without a list it waits for the level before it.
The editor offers earlier levels only, but `saveRule` takes any integers. A chain of a rule can be approved to its end
exactly if its levels can be put in an order in which each comes after the levels it waits for (`completable_iff`).
What is done of a chain, by whatever calls, was done in such an order (`OnChain.after`); and as long as the levels have
one, some step that is left can be decided (`exists_decision`).
-/

namespace BookingSystem.Runs.Completion

open Base Model Model.ApprovalsService Effects

/-- `decide(approved)` by a user. -/
def approveCall (env : Env) (bookingId : Uuid) (call : AuthUser × Instant) : Event :=
  ⟨env, call.2, .decide call.1 bookingId ⟨.approved, none⟩⟩

/-- Every step is approved and the booking is confirmed. -/
structure Complete (tenantId bookingId : Uuid) (st : Store) : Prop where
  approved : ∀ s ∈ lockChain st tenantId bookingId, s.status = .approved
  confirmed : ∃ b, st.bookings.find? bookingId = some b ∧ b.tenantId = tenantId ∧ b.status = .confirmed

/-- Some users can complete the chain, calling `decide(approved)` one after another. -/
def Completable (env : Env) (tenantId bookingId : Uuid) (st : Store) : Prop :=
  ∃ calls : List (AuthUser × Instant),
    Complete tenantId bookingId (run st (calls.map (approveCall env bookingId)))

/-- Each step has a user of the tenant who may decide it. -/
def Eligible (env : Env) (tenantId bookingId : Uuid) (st : Store) : Prop :=
  ∀ s ∈ lockChain st tenantId bookingId, ∃ user : AuthUser, user.tenantId = tenantId ∧ canDecideStep env s user = true

/-- The levels of a rule, each with the ones it waits for, can be put in order. -/
def CanBeOrdered (rule : ApprovalRule) : Prop := Orderable rule.levels.length (depsOf (some rule))

/-- The step of the chain at the index is approved. -/
def ApprovedAt (chain : List ApprovalStep) (i : ℕ) : Prop := ∃ s, chain[i]? = some s ∧ s.status = .approved

section

variable {env : Env} {rule : ApprovalRule} {tenantId bookingId : Uuid} {st : Store}

/-- The chain of the booking is one of the rule, its steps are pending or approved, and what is approved was approved
in an order that the rule allows. -/
structure OnChain (rule : ApprovalRule) (tenantId bookingId : Uuid) (st : Store) : Prop where
  follows : Follows rule tenantId bookingId st
  length : (lockChain st tenantId bookingId).length = rule.levels.length
  status : ∀ s ∈ lockChain st tenantId bookingId, s.status = .pending ∨ s.status = .approved
  reached : Reached (depsOf (some rule)) (ApprovedAt (lockChain st tenantId bookingId))
  booking : ∃ b, st.bookings.find? bookingId = some b ∧ b.tenantId = tenantId

theorem OnChain.chainRule (h : OnChain rule tenantId bookingId st) (hrule : env.rules.find? rule.id = some rule) :
    chainRule env (lockChain st tenantId bookingId) = some rule := by
  have hhead : (lockChain st tenantId bookingId).head?.bind (·.ruleId) = some rule.id := h.follows
  rw [ApprovalsService.chainRule, hhead, Option.bind_some, hrule]

theorem OnChain.approved_of_done (h : OnChain rule tenantId bookingId st) {s : ApprovalStep}
    (hs : s ∈ lockChain st tenantId bookingId) (hdone : isDone s = true) : s.status = .approved := by
  rcases h.status s hs with hp | ha
  · simp [isDone, hp] at hdone
  · exact ha

theorem OnChain.depsDone_iff (h : OnChain rule tenantId bookingId st) {i : ℕ} :
    depsDone (lockChain st tenantId bookingId) (some rule) i = true ↔
      ∀ d ∈ depsOf (some rule) i, ∃ j : ℕ, d = (j : ℤ) ∧ ApprovedAt (lockChain st tenantId bookingId) j := by
  rw [depsDone, List.all_eq_true]
  refine forall₂_congr fun d _ => ?_
  rw [Option.any_eq_true]
  constructor
  · rintro ⟨s, hs, hdone⟩
    unfold stepAt at hs
    split at hs
    · rename_i hpos
      exact ⟨d.toNat, by omega, s, hs, h.approved_of_done (List.mem_of_getElem? hs) hdone⟩
    · cases hs
  · rintro ⟨j, rfl, s, hs, ha⟩
    exact ⟨s, by simpa [stepAt] using hs, by simp [isDone, ha]⟩

end

/-! ### One decision -/

section Decision

variable {env : Env} {rule : ApprovalRule} {tenantId bookingId : Uuid} {st : Store} {now : Instant} {user : AuthUser}
  {i : ℕ} {s : ApprovalStep}

def approveIn (now : Instant) (user : AuthUser) (s : ApprovalStep) (chain : List ApprovalStep) : List ApprovalStep :=
  chain.map fun x => if x = s then decidedStep now ⟨.approved, none⟩ (some user.id) s else x

theorem approvedAt_approveIn {chain : List ApprovalStep} (hnodup : chain.Nodup) (hs : chain[i]? = some s) (j : ℕ) :
    ApprovedAt (approveIn now user s chain) j ↔ j = i ∨ ApprovedAt chain j := by
  unfold ApprovedAt approveIn
  by_cases hji : j = i
  · subst hji
    simp [List.getElem?_map, hs, decidedStep, ApprovalDecision.stepStatus]
  · rw [List.getElem?_map]
    simp only [hji, false_or, Option.map_eq_some_iff]
    -- another step is not the one that was decided
    have hne : ∀ x, chain[j]? = some x → x ≠ s := by
      rintro x hx rfl
      exact hji ((List.getElem?_inj (List.getElem?_eq_some_iff.1 hx).1 hnodup).1 (hx.trans hs.symm))
    constructor
    · rintro ⟨y, ⟨x, hx, rfl⟩, hy⟩
      rw [if_neg (hne x hx)] at hy
      exact ⟨x, hx, hy⟩
    · rintro ⟨x, hx, ha⟩
      exact ⟨_, ⟨x, hx, rfl⟩, by rwa [if_neg (hne x hx)]⟩

theorem step_decided (h : ChainDecision env user bookingId ⟨.approved, none⟩ st i s) :
    step st (approveCall env bookingId (user, now)) =
      recordApprovalAudit now user.tenantId bookingId (some user.id) ⟨.approved, none⟩
        (commitStepDecision now user.tenantId bookingId (lockChain st user.tenantId bookingId) s ⟨.approved, none⟩
          (some user.id) st).1 := by
  show settle (ApprovalsService.decide env now user bookingId ⟨.approved, none⟩ st) st = _
  rw [h.decide_ok now, settle_ok]

theorem lockChain_decided (tenantId : Uuid) (now : Instant)
    (h : ChainDecision env user bookingId ⟨.approved, none⟩ st i s) :
    lockChain (step st (approveCall env bookingId (user, now))) tenantId bookingId =
      approveIn now user s (lockChain st tenantId bookingId) := by
  rw [step_decided h]
  exact lockChain_commitStepDecision _ _ _ _ _ _ _ _ h.mem.1 _ _

theorem approveIn_of_not_mem {chain : List ApprovalStep} (hs : s ∉ chain) : approveIn now user s chain = chain := by
  refine (List.map_congr_left fun x hx => ?_).trans (List.map_id chain)
  rw [if_neg (by rintro rfl; exact hs hx)]
  rfl

theorem find?_decided (now : Instant) (h : ChainDecision env user bookingId ⟨.approved, none⟩ st i s) {b : Booking}
    (hb : st.bookings.find? bookingId = some b) :
    ∃ b', (step st (approveCall env bookingId (user, now))).bookings.find? bookingId = some b' ∧
      b'.tenantId = b.tenantId ∧ (user.tenantId = b.tenantId →
        allDone (lockChain st user.tenantId bookingId) s = true → b'.status = .confirmed) := by
  rw [step_decided h]
  show ∃ b', (commitStepDecision _ _ _ _ _ _ _ _).1.bookings.find? bookingId = some b' ∧ _
  rw [commitStepDecision_find?, hb, Option.map_some]
  refine ⟨_, rfl, ?_, fun hten hall => ?_⟩
  · split
    · exact (decidedBooking_same _ _ _ _).2.1
    · rfl
  · have hid : b.id = bookingId := Table.key_of_find? hb
    rw [if_pos ⟨hid, hten.symm⟩]
    simp [decidedBooking, hall, confirmed]

theorem approveCall_cases (env : Env) (call : AuthUser × Instant) (st : Store) :
    ((step st (approveCall env bookingId call)).steps = st.steps ∧
      ∀ b, st.bookings.find? bookingId = some b →
        ∃ b', (step st (approveCall env bookingId call)).bookings.find? bookingId = some b' ∧
          b'.tenantId = b.tenantId) ∨
      ∃ i s, ChainDecision env call.1 bookingId ⟨.approved, none⟩ st i s := by
  have hstep : step st (approveCall env bookingId call) =
      settle (ApprovalsService.decide env call.2 call.1 bookingId ⟨.approved, none⟩ st) st := rfl
  rw [hstep]
  cases hd : ApprovalsService.decide env call.2 call.1 bookingId ⟨.approved, none⟩ st with
  | error e => exact .inl ⟨rfl, fun b hb => ⟨b, hb, rfl⟩⟩
  | ok r =>
    obtain ⟨st', r⟩ := r
    rw [settle_ok]
    rcases decide_ok hd with ⟨b₀, hlegacy, hsteps, hbookings⟩ | ⟨i, s, hchain, -⟩
    · refine .inl ⟨hsteps, fun b hb => ?_⟩
      obtain rfl : b₀ = b := Option.some.inj ((findBooking_eq_some.1 hlegacy.found).1.symm.trans hb)
      rcases hbookings with hsave | ⟨hsame, -, -⟩
      · have hid : b₀.id = bookingId := Table.key_of_find? hb
        have hkey : Keyed.key (legacyDecided ⟨.approved, none⟩ b₀) = bookingId := hid
        exact ⟨legacyDecided ⟨.approved, none⟩ b₀, by rw [hsave, Table.find?_save_of_key hkey hb], rfl⟩
      · exact ⟨b₀, by rw [hsame, hb], rfl⟩
    · exact .inr ⟨i, s, hchain⟩

theorem OnChain.congr {st' : Store} (h : OnChain rule tenantId bookingId st)
    (hchain : lockChain st' tenantId bookingId = lockChain st tenantId bookingId)
    (hbooking : ∃ b, st'.bookings.find? bookingId = some b ∧ b.tenantId = tenantId) :
    OnChain rule tenantId bookingId st' where
  follows := by
    unfold Follows
    rw [hchain]
    exact h.follows
  length := by rw [hchain, h.length]
  status := by
    rw [hchain]
    exact h.status
  reached := by
    rw [hchain]
    exact h.reached
  booking := hbooking

/-- **One call.** A chain of the rule stays one, approved in an order that the rule allows. -/
theorem OnChain.after (h : OnChain rule tenantId bookingId st) (hrule : env.rules.find? rule.id = some rule)
    (call : AuthUser × Instant) : OnChain rule tenantId bookingId (step st (approveCall env bookingId call)) := by
  obtain ⟨b, hb, hten⟩ := h.booking
  rcases approveCall_cases env call st with ⟨hsteps, hbooking⟩ | ⟨i, s, hd⟩
  · obtain ⟨b', hb', hten'⟩ := hbooking b hb
    exact h.congr (lockChain_congr hsteps _ _) ⟨b', hb', hten'.trans hten⟩
  obtain ⟨user, now⟩ := call
  obtain ⟨b', hb', hten', -⟩ := find?_decided now hd hb
  have hchain := lockChain_decided tenantId now hd
  by_cases hu : user.tenantId = tenantId
  · subst hu
    have hdeps : depsDone (lockChain st user.tenantId bookingId) (some rule) i = true := by
      rw [← h.chainRule hrule]
      exact hd.deps
    refine ⟨h.follows.step trivial, ?_, ?_, ?_, ⟨b', hb', hten'.trans hten⟩⟩
    · rw [hchain, approveIn, List.length_map, h.length]
    · rw [hchain]
      intro x hx
      obtain ⟨y, hy, rfl⟩ := List.mem_map.1 hx
      split
      · exact .inr rfl
      · exact h.status y hy
    · rw [hchain]
      refine (h.reached.insert (i := i) ?_ (h.depsDone_iff.1 hdeps)).congr
        (approvedAt_approveIn (nodup_lockChain _ _ _) hd.at_)
      -- the step was pending
      rintro ⟨x, hx, ha⟩
      obtain rfl : s = x := Option.some.inj (hd.at_.symm.trans hx)
      exact absurd (hd.pending.symm.trans ha) (by decide)
  · refine h.congr (hchain.trans (approveIn_of_not_mem fun hs => ?_)) ⟨b', hb', hten'.trans hten⟩
    exact hu (hd.mem.2.1.symm.trans (mem_lockChain.1 hs).2.1)

theorem OnChain.after_all (h : OnChain rule tenantId bookingId st) (hrule : env.rules.find? rule.id = some rule)
    (calls : List (AuthUser × Instant)) :
    OnChain rule tenantId bookingId (run st (calls.map (approveCall env bookingId))) := by
  induction calls generalizing st with
  | nil => exact h
  | cons call calls ih => exact ih (h.after hrule call)

theorem OnChain.canBeOrdered (h : OnChain rule tenantId bookingId st) (hrule : env.rules.find? rule.id = some rule)
    (hcomplete : Completable env tenantId bookingId st) : CanBeOrdered rule := by
  obtain ⟨calls, hall, -⟩ := hcomplete
  have hend := h.after_all hrule calls
  refine hend.reached.orderable fun i => ?_
  rw [← hend.length]
  constructor
  · rintro ⟨s, hs, -⟩
    exact (List.getElem?_eq_some_iff.1 hs).1
  · intro hi
    exact ⟨_, List.getElem?_eq_getElem hi, hall _ (List.getElem_mem hi)⟩

/-! ### Towards the end of the chain -/

def left (chain : List ApprovalStep) : ℕ := chain.countP (·.status == .pending)

theorem left_approveIn_lt {chain : List ApprovalStep} (hs : s ∈ chain) (hp : s.status = .pending) :
    left (approveIn now user s chain) < left chain := by
  unfold left approveIn
  rw [List.countP_map]
  obtain ⟨l₁, l₂, rfl⟩ := List.append_of_mem hs
  -- no step becomes pending, and this one stops to be
  have hle : ∀ l : List ApprovalStep, (l.countP ((fun x : ApprovalStep => x.status == .pending) ∘ fun x =>
      if x = s then decidedStep now ⟨.approved, none⟩ (some user.id) s else x)) ≤
        l.countP fun x => x.status == .pending := by
    refine fun l => List.countP_mono_left fun x _ hx => ?_
    rw [Function.comp_apply] at hx
    split at hx
    · cases hx
    · exact hx
  have h₁ := hle l₁
  have h₂ := hle l₂
  have hs' : (decidedStep now ⟨.approved, none⟩ (some user.id) s).status = .approved := rfl
  simp only [List.countP_append, List.countP_cons, Function.comp_apply, if_true, hp, hs']
  simp only [Function.comp_def] at h₁ h₂ ⊢
  simp only [beq_iff_eq, reduceCtorEq, if_false, beq_self_eq_true, if_true]
  omega

theorem exists_decision (h : OnChain rule tenantId bookingId st) (hrule : env.rules.find? rule.id = some rule)
    (horder : CanBeOrdered rule) (helig : Eligible env tenantId bookingId st)
    (hleft : left (lockChain st tenantId bookingId) ≠ 0) :
    ∃ user i s, user.tenantId = tenantId ∧ ChainDecision env user bookingId ⟨.approved, none⟩ st i s := by
  obtain ⟨x, hx, hxp⟩ := List.countP_pos_iff.1 (Nat.pos_of_ne_zero hleft)
  obtain ⟨k, hk, rfl⟩ := List.mem_iff_getElem.1 hx
  have hnot : ¬ ApprovedAt (lockChain st tenantId bookingId) k := by
    rintro ⟨y, hy, ha⟩
    rw [List.getElem?_eq_getElem hk, Option.some.injEq] at hy
    rw [hy, ha] at hxp
    exact absurd hxp (by decide)
  obtain ⟨i, hi, hnot, hdeps⟩ := horder.exists_ready ⟨k, h.length ▸ hk, hnot⟩
  rw [← h.length] at hi
  have hat := List.getElem?_eq_getElem hi
  have hp : ((lockChain st tenantId bookingId)[i]).status = .pending :=
    (h.status _ (List.getElem_mem hi)).resolve_right fun ha => hnot ⟨_, hat, ha⟩
  have hd : depsDone (lockChain st tenantId bookingId) (some rule) i = true := by
    refine h.depsDone_iff.2 fun d hd => ?_
    obtain ⟨j, hj, -, ha⟩ := hdeps d hd
    exact ⟨j, hj, ha⟩
  obtain ⟨user, rfl, hmay⟩ := helig _ (List.getElem_mem hi)
  -- the user decides this step, or one before it
  have hsome := firstActionableIndex_isSome.2 ⟨i, _, hat, hp, hd, hmay⟩
  rw [← h.chainRule hrule] at hsome
  obtain ⟨j, hj⟩ := Option.isSome_iff_exists.1 hsome
  obtain ⟨s, hs, hsp, hsd, hsmay⟩ := firstActionableIndex_some hj
  exact ⟨user, j, s, rfl, .inl rfl, hj, hs, hsp, hsd, hsmay⟩

theorem Eligible.decided (helig : Eligible env tenantId bookingId st)
    (hd : ChainDecision env user bookingId ⟨.approved, none⟩ st i s) :
    Eligible env tenantId bookingId (step st (approveCall env bookingId (user, now))) := by
  intro x hx
  rw [lockChain_decided _ _ hd] at hx
  obtain ⟨y, hy, rfl⟩ := List.mem_map.1 hx
  obtain ⟨user', hten, hmay⟩ := helig y hy
  refine ⟨user', hten, ?_⟩
  split
  · rename_i he
    subst he
    exact hmay
  · exact hmay

theorem complete_of_last (h : OnChain rule user.tenantId bookingId st)
    (hrule : env.rules.find? rule.id = some rule)
    (hd : ChainDecision env user bookingId ⟨.approved, none⟩ st i s)
    (hlast : left (lockChain (step st (approveCall env bookingId (user, now))) user.tenantId bookingId) = 0) :
    Complete user.tenantId bookingId (step st (approveCall env bookingId (user, now))) := by
  have happroved : ∀ x ∈ lockChain (step st (approveCall env bookingId (user, now))) user.tenantId bookingId,
      x.status = .approved := by
    intro x hx
    refine ((h.after hrule (user, now)).status x hx).resolve_left fun hp => ?_
    exact List.countP_eq_zero.1 hlast x hx (by simp [hp])
  refine ⟨happroved, ?_⟩
  obtain ⟨b, hb, hten⟩ := h.booking
  obtain ⟨b', hb', hten', hconfirmed⟩ := find?_decided now hd hb
  refine ⟨b', hb', hten'.trans hten, hconfirmed hten.symm (List.all_eq_true.2 fun x hx => ?_)⟩
  by_cases hxs : x = s
  · simp [hxs]
  · have hmem : x ∈ lockChain (step st (approveCall env bookingId (user, now))) user.tenantId bookingId := by
      rw [lockChain_decided _ _ hd]
      exact List.mem_map.2 ⟨x, hx, if_neg hxs⟩
    simp [isDone, happroved x hmem]

theorem OnChain.completable (h : OnChain rule tenantId bookingId st) (hrule : env.rules.find? rule.id = some rule)
    (horder : CanBeOrdered rule) (helig : Eligible env tenantId bookingId st)
    (hleft : left (lockChain st tenantId bookingId) ≠ 0) : Completable env tenantId bookingId st := by
  induction hk : left (lockChain st tenantId bookingId) using Nat.strong_induction_on generalizing st with
  | _ k ih =>
    obtain ⟨user, i, s, rfl, hd⟩ := exists_decision h hrule horder helig hleft
    have hlt : left (lockChain (step st (approveCall env bookingId (user, 0))) user.tenantId bookingId) < k := by
      rw [lockChain_decided _ _ hd, ← hk]
      exact left_approveIn_lt (List.mem_of_getElem? hd.at_) hd.pending
    by_cases hlast : left (lockChain (step st (approveCall env bookingId (user, 0))) user.tenantId bookingId) = 0
    · exact ⟨[(user, 0)], complete_of_last h hrule hd hlast⟩
    · obtain ⟨calls, hcalls⟩ := ih _ hlt (h.after hrule (user, 0)) (helig.decided hd) hlast rfl
      exact ⟨(user, 0) :: calls, hcalls⟩

end Decision

/-! ### The chain of a saved rule -/

section Saved

variable {env : Env} {rules : Table ApprovalRule} {tenantId : Uuid} {id : Option Uuid} {payload : RuleDto}
  {newRuleId : Uuid} {now : Instant} {newId : ℕ → Uuid} {booking : Booking} {st st' : Store} {n : ℕ}

/-- What `materialize` writes is a chain of the rule, with all steps left. -/
theorem onChain_materialize {rule : ApprovalRule} (hrule : env.rules.find? rule.id = some rule)
    (hmat : materialize env now newId booking st = .ok (st', n)) (hn : n ≠ 0)
    (hnone : lockChain st booking.tenantId booking.id = []) (hbooking : st.bookings.find? booking.id = some booking)
    (hfrom : Follows rule booking.tenantId booking.id st') :
    OnChain rule booking.tenantId booking.id st' ∧ left (lockChain st' booking.tenantId booking.id) ≠ 0 := by
  rcases materialize_ok hmat with ⟨-, rfl⟩ | ⟨res, r, -, hmatch, hlev, -, hbookings, -, hrows⟩
  · exact absurd rfl hn
  have hchain := lockChain_written hrows hnone
  obtain ⟨lvl, levels, hl⟩ := List.exists_cons_of_ne_nil hlev
  -- the rule of the chain is the one that matched
  obtain rfl : r = rule := by
    have hid : some r.id = some rule.id := by
      have hfrom' : (lockChain st' booking.tenantId booking.id).head?.bind (·.ruleId) = some rule.id := hfrom
      rw [hchain] at hfrom'
      simpa [chainRows, hl, List.mapIdx_cons, levelStep] using hfrom'
    have hr := Table.find?_of_mem (mem_matchRule hmatch)
    exact Option.some.inj (hr.symm.trans ((congrArg _ (Option.some.inj hid)).trans hrule))
  have hpending : ∀ s ∈ lockChain st' booking.tenantId booking.id, s.status = .pending := by
    intro s hs
    rw [hchain] at hs
    exact (mem_chainRows hs).2.2.2
  refine ⟨⟨hfrom, ?_, fun s hs => .inl (hpending s hs), .start ?_, booking, ?_, rfl⟩, ?_⟩
  · simp [hchain, chainRows]
  · rintro i ⟨s, hs, ha⟩
    exact absurd ((hpending s (List.mem_of_getElem? hs)).symm.trans ha) (by decide)
  · rw [hbookings, hbooking]
  · rw [left, List.countP_eq_length.2 fun s hs => by simp [hpending s hs]]
    simp [hchain, chainRows, hl]

theorem find?_saveRule (rules : Table ApprovalRule) (tenantId : Uuid) (id : Option Uuid) (payload : RuleDto)
    (newRuleId : Uuid) : (saveRule rules tenantId id payload newRuleId).1.find?
      (saveRule rules tenantId id payload newRuleId).2.id = some (saveRule rules tenantId id payload newRuleId).2 :=
  Table.find?_of_mem (Table.mem_put.2 (.inr rfl))

/-- **Chains that can be completed.** A chain of a saved rule, each step of which some user may decide, can be
approved to its end and its booking confirmed, if and only if the levels of the rule can be put in an order in which
each comes after the levels it waits for. -/
theorem completable_iff (hrules : env.rules = (saveRule rules tenantId id payload newRuleId).1)
    (hmat : materialize env now newId booking st = .ok (st', n)) (hn : n ≠ 0)
    (hnone : lockChain st booking.tenantId booking.id = []) (hbooking : st.bookings.find? booking.id = some booking)
    (hfrom : Follows (saveRule rules tenantId id payload newRuleId).2 booking.tenantId booking.id st')
    (helig : Eligible env booking.tenantId booking.id st') :
    Completable env booking.tenantId booking.id st' ↔
      CanBeOrdered (saveRule rules tenantId id payload newRuleId).2 := by
  have hrule : env.rules.find? (saveRule rules tenantId id payload newRuleId).2.id =
      some (saveRule rules tenantId id payload newRuleId).2 := by
    rw [hrules, find?_saveRule]
  obtain ⟨honChain, hleft⟩ := onChain_materialize hrule hmat hn hnone hbooking hfrom
  exact ⟨honChain.canBeOrdered hrule, fun horder => honChain.completable hrule horder helig hleft⟩

end Saved

theorem canBeOrdered_of_earlier {rule : ApprovalRule}
    (h : ∀ (i : ℕ) lvl, rule.levels[i]? = some lvl → ∀ d ∈ lvl.dependencies, 0 ≤ d ∧ d < i) : CanBeOrdered rule := by
  refine orderable_of_earlier fun i hi d hd => ?_
  simp only [depsOf, Option.bind_some, List.getElem?_eq_getElem hi] at hd
  split at hd
  · split at hd
    · simp at hd
    · rw [List.mem_singleton.1 hd]
      omega
  · exact h i _ (List.getElem?_eq_getElem hi) d hd

/-! ### A chain that ends, and one that does not -/

/-- A rule of one level, which `ann` decides. -/
def boardRule (dependencies : List ℤ) : RuleDto :=
  { name := "board", scopeType := .tenant, levels := [{ name := "lead", approverUserIds := ["ann"], dependencies }],
    levels_max := by simp, hours_min := by simp }

def panelRule : RuleDto where
  name := "panel"
  scopeType := .tenant
  levels := [{ name := "safety", approverUserIds := ["ann"] }, { name := "budget", approverUserIds := ["bob"] },
    { name := "lead", approverUserIds := ["ann"], dependencies := [0, 1] }]

def boardOffice (rule : RuleDto) : Env :=
  { approvalOffice with rules := (saveRule .empty "t" none rule "board").1 }

def boardRequest : Booking :=
  { id := "b", tenantId := "t", resourceId := "r", userId := "u", startTime := 3600000, endTime := 7200000,
    status := .pendingApproval }

def beforeChain : Store := { Store.empty with bookings := ⟨[boardRequest], by decide⟩ }

def withChain (rule : RuleDto) : Store :=
  settle (materialize (boardOffice rule) 0 (fun i => "s" ++ toString i) boardRequest beforeChain) beforeChain

theorem rules_boardOffice (rule : RuleDto) :
    (boardOffice rule).rules = (saveRule .empty "t" none rule "board").1 := rfl

theorem eligible_withChain (dependencies : List ℤ) :
    Eligible (boardOffice (boardRule dependencies)) "t" "b" (withChain (boardRule dependencies)) := by
  intro s hs
  refine ⟨⟨"ann", "t", "Officer", none⟩, rfl, ?_⟩
  obtain rfl := List.mem_singleton.1 (show s ∈ [_] from hs)
  rfl

theorem materialize_withChain (dependencies : List ℤ) :
    materialize (boardOffice (boardRule dependencies)) 0 (fun i => "s" ++ toString i) boardRequest beforeChain =
      .ok (withChain (boardRule dependencies), 1) := rfl

theorem eligible_panel : Eligible (boardOffice panelRule) "t" "b" (withChain panelRule) := by
  intro s hs
  obtain rfl | rfl | rfl : s = _ ∨ s = _ ∨ s = _ := by
    simpa only [List.mem_cons, List.not_mem_nil, or_false] using (show s ∈ [_, _, _] from hs)
  · exact ⟨⟨"ann", "t", "Officer", none⟩, rfl, rfl⟩
  · exact ⟨⟨"bob", "t", "Officer", none⟩, rfl, rfl⟩
  · exact ⟨⟨"ann", "t", "Officer", none⟩, rfl, rfl⟩

/-- `ann` and `bob` complete the chain. -/
theorem completable_panel : Completable (boardOffice panelRule) "t" "b" (withChain panelRule) := by
  have hmat : materialize (boardOffice panelRule) 0 (fun i => "s" ++ toString i) boardRequest beforeChain =
      .ok (withChain panelRule, 3) := rfl
  refine (completable_iff (rules_boardOffice panelRule) hmat (by decide) rfl rfl rfl eligible_panel).2
    (canBeOrdered_of_earlier fun i lvl hlvl d hd => ?_)
  match i, hlvl with
  | 0, rfl => cases hd
  | 1, rfl => cases hd
  | 2, rfl =>
    have hd : d = 0 ∨ d = 1 := by simpa using hd
    omega

/-- The level waits for itself: `ann` can never decide it. -/
theorem level_waits_for_itself :
    ¬ ∀ (env : Env) (rules : Table ApprovalRule) (tenantId : Uuid) (id : Option Uuid) (payload : RuleDto)
        (newRuleId : Uuid) (now : Instant) (newId : ℕ → Uuid) (booking : Booking) (st st' : Store) (n : ℕ),
      env.rules = (saveRule rules tenantId id payload newRuleId).1 →
      materialize env now newId booking st = .ok (st', n) → n ≠ 0 →
      lockChain st booking.tenantId booking.id = [] → st.bookings.find? booking.id = some booking →
      Follows (saveRule rules tenantId id payload newRuleId).2 booking.tenantId booking.id st' →
      Eligible env booking.tenantId booking.id st' → Completable env booking.tenantId booking.id st' := by
  intro h
  have hcomplete := h _ _ _ _ _ _ _ _ _ _ _ _ (rules_boardOffice (boardRule [0])) (materialize_withChain [0])
    (by decide) rfl rfl rfl (eligible_withChain [0])
  have hrule : (boardOffice (boardRule [0])).rules.find? "board" = some (savedRule none "t" "board" (boardRule [0])) :=
    find?_saveRule .empty "t" none (boardRule [0]) "board"
  obtain ⟨honChain, -⟩ := onChain_materialize hrule (materialize_withChain [0]) (by decide) rfl rfl rfl
  refine not_orderable_of_self (i := 0) ?_ ?_ (honChain.canBeOrdered hrule hcomplete)
  · exact Nat.zero_lt_one
  · exact List.mem_singleton.2 rfl

end BookingSystem.Runs.Completion
