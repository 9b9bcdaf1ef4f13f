import BookingSystem.Effects.Sweeps
import BookingSystem.Model.System

/-!
# The order of the steps of a chain

A step of a chain waits for other steps. A human decision goes to a step only when these are approved or skipped;
the sweep of the due steps does not look at them. So the order is kept exactly when every step the sweep takes
finds the steps it waits for done, or taken before it (`order_iff`).
-/

namespace BookingSystem.Runs

open Base Model Model.ApprovalsService Effects

/-- The calls that act on chains. -/
def OnChains (e : Event) : Prop :=
  match e.op with
  | .decide _ _ _ | .delegate _ _ _ _ | .runDueAutoApprovals | .sweepStaleApprovals => True
  | _ => False

def moments (st : Store) (e : Event) : List (Store × Store) :=
  match e.op with
  | .runDueAutoApprovals => moves (autoApproveTurn e.now) st (dueSteps e.now st)
  | _ => [(st, step st e)]

section Order

variable (rule : ApprovalRule) (tenantId bookingId : Uuid)

/-- Every step of the chain that was pending and is approved now finds the steps it waits for approved or skipped. -/
def InOrder (st st' : Store) : Prop :=
  ∀ i s s', (lockChain st tenantId bookingId)[i]? = some s → (lockChain st' tenantId bookingId)[i]? = some s' →
    s.status = .pending → s'.status = .approved → depsDone (lockChain st tenantId bookingId) (some rule) i = true

/-- The steps that are due in the chain wait for steps that are done, or that are due and come up before them. -/
def SweptInOrder (st : Store) (e : Event) : Prop :=
  match e.op with
  | .runDueAutoApprovals => ∀ pre s post i, dueSteps e.now st = pre ++ s :: post →
      (lockChain st tenantId bookingId)[i]? = some s →
      ∀ d ∈ depsOf (some rule) i, ∃ x, stepAt (lockChain st tenantId bookingId) d = some x ∧
        (isDone x = true ∨ x ∈ pre)
  | _ => True

end Order

variable {rule : ApprovalRule} {tenantId bookingId : Uuid}

/-! ### Rewritten chains -/

/-- The chain after a call is the chain before it with its steps rewritten as `Q` allows. -/
def Rewritten (Q : ApprovalStep → ApprovalStep → Prop) (tenantId bookingId : Uuid) (st st' : Store) : Prop :=
  ∃ f, (∀ s, Q s (f s)) ∧ lockChain st' tenantId bookingId = (lockChain st tenantId bookingId).map f

theorem Rewritten.refl {Q : ApprovalStep → ApprovalStep → Prop} (hQ : ∀ s, Q s s) (st : Store) :
    Rewritten Q tenantId bookingId st st := ⟨id, hQ, by simp⟩

theorem Rewritten.trans {Q : ApprovalStep → ApprovalStep → Prop} (hQ : ∀ a b c, Q a b → Q b c → Q a c)
    {st st' st'' : Store} (h : Rewritten Q tenantId bookingId st st') (h' : Rewritten Q tenantId bookingId st' st'') :
    Rewritten Q tenantId bookingId st st'' := by
  obtain ⟨f, hf, he⟩ := h
  obtain ⟨g, hg, he'⟩ := h'
  exact ⟨g ∘ f, fun s => hQ _ _ _ (hf s) (hg (f s)), by rw [he', he, List.map_map]⟩

/-- The rule of the step stays. -/
def KeepsRule (s s' : ApprovalStep) : Prop := s'.ruleId = s.ruleId

theorem KeepsRule.refl (s : ApprovalStep) : KeepsRule s s := rfl

theorem KeepsRule.trans (a b c : ApprovalStep) (h : KeepsRule a b) (h' : KeepsRule b c) : KeepsRule a c :=
  Eq.trans h' h

/-- The rule of the step stays, and the step is not approved. -/
def NotApproving (s s' : ApprovalStep) : Prop := s'.ruleId = s.ruleId ∧ (s'.status = .approved → s.status = .approved)

theorem NotApproving.refl (s : ApprovalStep) : NotApproving s s := ⟨rfl, id⟩

theorem NotApproving.trans (a b c : ApprovalStep) (h : NotApproving a b) (h' : NotApproving b c) :
    NotApproving a c := ⟨h'.1.trans h.1, fun hc => h.2 (h'.2 hc)⟩

theorem Rewritten.mono {Q Q' : ApprovalStep → ApprovalStep → Prop} (hQ : ∀ a b, Q a b → Q' a b) {st st' : Store}
    (h : Rewritten Q tenantId bookingId st st') : Rewritten Q' tenantId bookingId st st' := by
  obtain ⟨f, hf, he⟩ := h
  exact ⟨f, fun s => hQ _ _ (hf s), he⟩

theorem Rewritten.inOrder {st st' : Store} (h : Rewritten NotApproving tenantId bookingId st st') :
    InOrder rule tenantId bookingId st st' := by
  obtain ⟨f, hf, he⟩ := h
  intro i s s' hs hs' hp ha
  rw [he, List.getElem?_map, hs, Option.map_some, Option.some.injEq] at hs'
  subst hs'
  rw [(hf s).2 ha] at hp
  cases hp

/-! ### One call -/

theorem commit_rewritten {now : Instant} {t b : Uuid} {steps : List ApprovalStep} {step : ApprovalStep}
    {input : DecideInput} {actorId : Option Uuid} {st : Store} (hm : step ∈ st.steps.rows) :
    Rewritten KeepsRule tenantId bookingId st (commitStepDecision now t b steps step input actorId st).1 := by
  refine ⟨_, ?_, lockChain_commitStepDecision _ _ _ _ _ _ _ _ hm _ _⟩
  exact Table.replace_same (f := ApprovalStep.ruleId) rfl

theorem delegate_rewritten {env : Env} {now : Instant} {user : AuthUser} {b toUserId : Uuid} {reason : String}
    {st st' : Store} {u : Unit} (h : delegate env now user b toUserId reason st = .ok (st', u)) :
    Rewritten NotApproving tenantId bookingId st st' := by
  rcases delegate_ok h with ⟨s₀, hm, -, rfl⟩ | ⟨_, _, -, -, -, rfl⟩
  · have hchain := @lockChain_save st { st with steps := st.steps.save (delegatedStep now user toUserId reason s₀) } _
      rfl s₀ hm rfl rfl rfl rfl tenantId bookingId
    have hrule := @Table.replace_same ApprovalStep _ _ ApprovalStep.ruleId s₀
      (delegatedStep now user toUserId reason s₀) rfl
    have hstatus := @Table.replace_same ApprovalStep _ _ ApprovalStep.status s₀
      (delegatedStep now user toUserId reason s₀) rfl
    exact ⟨_, fun s => ⟨hrule s, fun ha => (hstatus s).symm.trans ha⟩, hchain⟩
  · exact .refl NotApproving.refl _

theorem autoRejectStale_rewritten (now : Instant) (t b : Uuid) (st : Store) :
    Rewritten NotApproving tenantId bookingId st (autoRejectStale now t b st) := by
  rcases autoRejectStale_cases now t b st with h | ⟨_, -, -, -, hrows⟩
  · rw [h]
    exact .refl NotApproving.refl _
  · refine ⟨_, fun s => ?_, lockChain_map hrows ?_ ?_ ?_ _ _⟩
    · unfold NotApproving
      split
      · exact ⟨rfl, fun h => by cases h⟩
      · exact ⟨rfl, id⟩
    · intro s; split <;> rfl
    · intro s; split <;> rfl
    · intro s; split <;> rfl

theorem autoApproveTurn_rewritten (now : Instant) (st : Store) (s : ApprovalStep) :
    Rewritten KeepsRule tenantId bookingId st (autoApproveTurn now st s) := by
  unfold autoApproveTurn
  split
  · rename_i st' o h
    obtain ⟨step, d, hm, -, -, -, -, -, -, hr⟩ := autoApproveStep_some h
    cases hr
    exact commit_rewritten hm
  · exact .refl KeepsRule.refl _

/-- The chain is one of the rule. -/
def Follows (rule : ApprovalRule) (tenantId bookingId : Uuid) (st : Store) : Prop :=
  (lockChain st tenantId bookingId).head?.bind (·.ruleId) = some rule.id

theorem Rewritten.follows {st st' : Store} (h : Rewritten KeepsRule tenantId bookingId st st')
    (hst : Follows rule tenantId bookingId st) : Follows rule tenantId bookingId st' := by
  obtain ⟨f, hf, he⟩ := h
  unfold Follows at hst ⊢
  rw [he]
  cases hc : lockChain st tenantId bookingId with
  | nil => simp [hc] at hst
  | cons s l =>
    rw [hc] at hst
    have hs : (f s).ruleId = s.ruleId := hf s
    simpa [hs] using hst

theorem Follows.step {st : Store} {e : Event} (he : OnChains e) (hst : Follows rule tenantId bookingId st) :
    Follows rule tenantId bookingId (step st e) := by
  obtain ⟨env', now, op⟩ := e
  have refl : Rewritten KeepsRule tenantId bookingId st st := .refl KeepsRule.refl _
  cases op with
  | decide user b input =>
    refine Rewritten.follows ?_ hst
    refine settle_induction (P := Rewritten KeepsRule tenantId bookingId st) refl ?_
    rintro ⟨st', r⟩ hr
    rcases decide_ok hr with ⟨_, -, hsteps, -⟩ | ⟨i, s, hd, rfl⟩
    · exact ⟨id, fun _ => rfl, by rw [lockChain_congr hsteps, List.map_id]⟩
    · exact commit_rewritten hd.mem.1
  | delegate user b toUserId reason =>
    refine Rewritten.follows ?_ hst
    exact settle_induction (P := Rewritten KeepsRule tenantId bookingId st) refl
      fun r hr => (delegate_rewritten hr).mono fun _ _ h => h.1
  | runDueAutoApprovals =>
    exact Rewritten.follows (foldl_invariant (P := Rewritten KeepsRule tenantId bookingId st)
      (fun st' s _ h => h.trans KeepsRule.trans (autoApproveTurn_rewritten _ st' s)) refl) hst
  | sweepStaleApprovals =>
    exact Rewritten.follows (foldl_invariant (P := Rewritten KeepsRule tenantId bookingId st)
      (fun st' b _ h => h.trans KeepsRule.trans
        ((autoRejectStale_rewritten _ _ _ st').mono fun _ _ h => h.1)) refl) hst
  | _ => exact absurd he (by simp [OnChains])

theorem inOrder_decide {env : Env} {now : Instant} {user : AuthUser} {b : Uuid} {input : DecideInput} {st : Store}
    (hrule : chainRule env (lockChain st tenantId bookingId) = some rule) :
    InOrder rule tenantId bookingId st (settle (ApprovalsService.decide env now user b input st) st) := by
  have refl : InOrder rule tenantId bookingId st st :=
    Rewritten.inOrder (.refl NotApproving.refl _)
  refine settle_induction (P := InOrder rule tenantId bookingId st) refl ?_
  rintro ⟨st', r⟩ hr
  rcases decide_ok hr with ⟨_, -, hsteps, -⟩ | ⟨j, step, hd, rfl⟩
  · intro i s s' hs hs' hp ha
    dsimp only at hs'
    rw [lockChain_congr hsteps, hs, Option.some.injEq] at hs'
    subst hs'
    rw [hp] at ha
    cases ha
  · intro i s s' hs hs' hp ha
    have hmap := lockChain_commitStepDecision now user.tenantId b (lockChain st user.tenantId b) step input
      (some user.id) st hd.mem.1 tenantId bookingId
    change (lockChain (commitStepDecision ..).1 tenantId bookingId)[i]? = some s' at hs'
    rw [hmap, List.getElem?_map, hs, Option.map_some, Option.some.injEq] at hs'
    by_cases he : s = step
    · -- the decided step is in this chain, so it is the one the user was led to
      subst he
      obtain ⟨-, hten, hbook⟩ := hd.mem
      obtain ⟨-, hten', hbook'⟩ := mem_lockChain.1 (List.mem_of_getElem? hs)
      have h1 : user.tenantId = tenantId := hten.symm.trans hten'
      have h2 : b = bookingId := hbook.symm.trans hbook'
      subst h1 h2
      have hij : i = j := (List.getElem?_inj (List.getElem?_eq_some_iff.1 hs).1
        (nodup_lockChain st user.tenantId b)).1 (hs.trans hd.at_.symm)
      have hdeps := hd.deps
      rw [hrule, ← hij] at hdeps
      exact hdeps
    · rw [if_neg he] at hs'
      subst hs'
      rw [hp] at ha
      cases ha

/-! ### The sweep -/

section Sweep

variable {now : Instant} {st : Store}

theorem depsDone_turns {taken : List ApprovalStep} {i : ℕ} {steps : List ApprovalStep} :
    depsDone (steps.map fun s => if s ∈ taken then approveStep now s else s) (some rule) i = true ↔
      ∀ d ∈ depsOf (some rule) i, ∃ x, stepAt steps d = some x ∧ (isDone x = true ∨ x ∈ taken) := by
  rw [depsDone_map]
  refine forall₂_congr fun d _ => exists_congr fun x => and_congr_right fun _ => ?_
  by_cases hx : x ∈ taken
  · simp [hx, approveStep, decidedStep, isDone, autoInput, ApprovalDecision.stepStatus]
  · simp [hx]

/-- The turn of a due step keeps the order iff the steps it waits for are done, or were taken before it. -/
theorem inOrder_turn {pre post : List ApprovalStep} {s : ApprovalStep} (hdue : dueSteps now st = pre ++ s :: post) :
    InOrder rule tenantId bookingId (pre.foldl (autoApproveTurn now) st)
        (autoApproveTurn now (pre.foldl (autoApproveTurn now) st) s) ↔
      ∀ i, (lockChain st tenantId bookingId)[i]? = some s → ∀ d ∈ depsOf (some rule) i,
        ∃ x, stepAt (lockChain st tenantId bookingId) d = some x ∧ (isDone x = true ∨ x ∈ pre) := by
  have hnodup := nodup_dueSteps now st
  rw [hdue] at hnodup
  have hnew : s ∉ pre := fun h => (List.nodup_append.1 hnodup).2.2 s h s (by simp) rfl
  have hmem : ∀ x ∈ pre ++ s :: post, x ∈ st.steps.rows ∧ due now x = true := by
    rw [← hdue]
    exact fun x hx => mem_dueSteps_iff.1 hx
  have hpre : ∀ x ∈ pre, x ∈ st.steps.rows ∧ due now x = true := fun x hx => hmem x (by simp [hx])
  obtain ⟨hs, hsdue⟩ := hmem s (by simp)
  have hpend : s.status = .pending := (due_iff.1 hsdue).1
  have hrows := autoApproveTurns_steps (List.nodup_append.1 hnodup).1 hpre
  have hs' : s ∈ (pre.foldl (autoApproveTurn now) st).steps.rows := by
    rw [hrows]
    exact List.mem_map.2 ⟨s, hs, if_neg hnew⟩
  have hafter : lockChain (autoApproveTurn now (pre.foldl (autoApproveTurn now) st) s) tenantId bookingId =
      (lockChain (pre.foldl (autoApproveTurn now) st) tenantId bookingId).map
        fun x => if x = s then approveStep now s else x := by
    rw [autoApproveTurn_of_due hs' hsdue]
    exact lockChain_commitStepDecision _ _ _ _ _ _ _ _ hs' _ _
  have hbefore := lockChain_autoApproveTurns (List.nodup_append.1 hnodup).1 hpre tenantId bookingId
  unfold InOrder
  rw [hafter, hbefore]
  constructor
  · intro h i hi
    refine depsDone_turns.1 (h i s (approveStep now s) ?_ ?_ hpend rfl)
    · rw [List.getElem?_map, hi, Option.map_some, if_neg hnew]
    · rw [List.getElem?_map, List.getElem?_map, hi, Option.map_some, Option.map_some, if_neg hnew, if_pos rfl]
  · intro h i x x' hx hx' hp ha
    refine depsDone_turns.2 (h i ?_)
    -- only the step of the turn changes, and it was not taken before
    rw [List.getElem?_map, hx, Option.map_some, Option.some.injEq] at hx'
    have hxs : x = s := by
      by_contra hne
      rw [if_neg hne] at hx'
      rw [← hx', hp] at ha
      cases ha
    rw [List.getElem?_map, Option.map_eq_some_iff] at hx
    obtain ⟨y, hy, hyx⟩ := hx
    by_cases hyp : y ∈ pre
    · rw [if_pos hyp] at hyx
      rw [← hyx] at hp
      cases hp
    · rw [if_neg hyp] at hyx
      rw [hy, hyx, hxs]

end Sweep

/-! ### Every run -/

theorem iff_of_single {st : Store} {e : Event} (hC : SweptInOrder rule tenantId bookingId st e)
    (hm : moments st e = [(st, step st e)]) (h : InOrder rule tenantId bookingId st (step st e)) :
    SweptInOrder rule tenantId bookingId st e ↔ ∀ m ∈ moments st e, InOrder rule tenantId bookingId m.1 m.2 := by
  refine ⟨fun _ m hmem => ?_, fun _ => hC⟩
  rw [hm, List.mem_singleton] at hmem
  rw [hmem]
  exact h

theorem sweptInOrder_iff {st : Store} {e : Event} (he : OnChains e)
    (hrule : chainRule e.env (lockChain st tenantId bookingId) = some rule) :
    SweptInOrder rule tenantId bookingId st e ↔ ∀ m ∈ moments st e, InOrder rule tenantId bookingId m.1 m.2 := by
  obtain ⟨env, now, op⟩ := e
  have refl : Rewritten NotApproving tenantId bookingId st st := .refl NotApproving.refl _
  cases op with
  | decide user b input =>
    exact iff_of_single trivial rfl (inOrder_decide hrule)
  | delegate user b toUserId reason =>
    refine iff_of_single trivial rfl (Rewritten.inOrder ?_)
    exact settle_induction (P := Rewritten NotApproving tenantId bookingId st) refl fun r hr => delegate_rewritten hr
  | runDueAutoApprovals =>
    simp only [SweptInOrder, moments, mem_moves]
    constructor
    · rintro h _ ⟨pre, s, post, hdue, rfl⟩
      exact (inOrder_turn hdue).2 fun i hi => h pre s post i hdue hi
    · intro h pre s post i hdue hi
      exact (inOrder_turn hdue).1 (h _ ⟨pre, s, post, hdue, rfl⟩) i hi
  | sweepStaleApprovals =>
    refine iff_of_single trivial rfl (Rewritten.inOrder ?_)
    exact foldl_invariant (P := Rewritten NotApproving tenantId bookingId st)
      (fun st' b _ h => h.trans NotApproving.trans (autoRejectStale_rewritten _ _ _ st')) refl
  | _ => exact absurd he (by simp [OnChains])

/-- **The order of the steps.** Along every run of decisions, delegations and sweeps on a chain of the rule, every
step that is approved finds the steps it waits for approved or skipped, if and only if no sweep takes a step of the
chain before the steps it waits for. -/
theorem order_iff {st : Store} (hst : Follows rule tenantId bookingId st) {es : List Event}
    (hes : ∀ e ∈ es, OnChains e ∧ e.env.rules.find? rule.id = some rule) :
    AllSteps step (SweptInOrder rule tenantId bookingId) st es ↔
      ∀ p e r, es = p ++ e :: r → ∀ m ∈ moments (run st p) e, InOrder rule tenantId bookingId m.1 m.2 := by
  rw [allSteps_iff]
  refine forall₃_congr fun p e r => forall_congr' fun hsplit => ?_
  subst hsplit
  have hp : Follows rule tenantId bookingId (run st p) :=
    run_invariant (I := Follows rule tenantId bookingId) (C := fun _ e => OnChains e)
      (fun _ _ h he => h.step he) hst (allSteps_iff.2 fun p' e' r' h => (hes e' (by simp [h])).1)
  obtain ⟨he, hfind⟩ := hes e (by simp)
  refine sweptInOrder_iff he ?_
  unfold Follows at hp
  rw [chainRule, hp]
  exact hfind

theorem follows_materialize {env : Env} {now : Instant} {newId : ℕ → Uuid} {booking : Booking} {st st' : Store}
    {n : ℕ} (h : materialize env now newId booking st = .ok (st', n)) (hn : n ≠ 0)
    (hnone : lockChain st booking.tenantId booking.id = []) :
    ∃ rule, env.rules.find? rule.id = some rule ∧ Follows rule booking.tenantId booking.id st' := by
  rcases materialize_ok h with ⟨-, rfl⟩ | ⟨res, rule, -, hmatch, hlev, -, -, -, hrows⟩
  · exact absurd rfl hn
  refine ⟨rule, Table.find?_of_mem (mem_matchRule hmatch), ?_⟩
  unfold Follows
  rw [lockChain_written hrows hnone]
  obtain ⟨lvl, levels, hl⟩ := List.exists_cons_of_ne_nil hlev
  simp [chainRows, hl, List.mapIdx_cons, levelStep]

/-! ### A step with a deadline -/

def twoLevels : ApprovalRule :=
  { id := "rule", tenantId := "t", scopeType := .tenant,
    levels := [{ name := "lead", approverUserIds := ["ann"] },
      { name := "head", approverUserIds := ["bob"], autoAfterHours := 1 }] }

def deadlineOffice : Env := { approvalOffice with rules := ⟨[twoLevels], by decide⟩ }

def requested : Store := run Store.empty [⟨deadlineOffice, 0, requestRoom⟩]

def decidedInTime : List Event :=
  [⟨deadlineOffice, 1, .decide ⟨"ann", "t", "Officer", none⟩ "b" ⟨.approved, none⟩⟩,
    ⟨deadlineOffice, 3600000, .runDueAutoApprovals⟩]

/-- The first step is approved before the second is swept. -/
theorem order_iff_decidedInTime : Follows twoLevels "t" "b" requested ∧
    ∀ p e r, decidedInTime = p ++ e :: r → ∀ m ∈ moments (run requested p) e, InOrder twoLevels "t" "b" m.1 m.2 := by
  have hst : Follows twoLevels "t" "b" requested := rfl
  have hes : ∀ e ∈ decidedInTime, OnChains e ∧ e.env.rules.find? twoLevels.id = some twoLevels := by
    simp [decidedInTime, OnChains]
    rfl
  refine ⟨hst, (order_iff hst hes).1 ⟨trivial, fun pre s post i hdue hi d hd => ?_, trivial⟩⟩
  have hdone : ∀ i < 2, ∀ s ∈ dueSteps 3600000 (run requested (decidedInTime.take 1)),
      (lockChain (run requested (decidedInTime.take 1)) "t" "b")[i]? = some s →
      depsDone (lockChain (run requested (decidedInTime.take 1)) "t" "b") (some twoLevels) i = true := by decide
  have hlt : i < 2 := (List.getElem?_eq_some_iff.1 hi).1
  have hs : s ∈ dueSteps 3600000 (run requested (decidedInTime.take 1)) := by
    have hsplit : dueSteps 3600000 (run requested (decidedInTime.take 1)) = pre ++ s :: post := hdue
    rw [hsplit]
    simp
  obtain ⟨x, hx, hxd⟩ := (Option.any_eq_true _ _).1 (List.all_eq_true.1 (hdone i hlt s hs hi) d hd)
  exact ⟨x, hx, .inl hxd⟩

/-- The request stands for an hour without a decision: the second step is approved before the first. -/
theorem sweep_breaks_order :
    ¬ ∀ (rule : ApprovalRule) (tenantId bookingId : Uuid) (st : Store) (es : List Event),
      Follows rule tenantId bookingId st → (∀ e ∈ es, OnChains e ∧ e.env.rules.find? rule.id = some rule) →
      ∀ p e r, es = p ++ e :: r → ∀ m ∈ moments (run st p) e, InOrder rule tenantId bookingId m.1 m.2 := by
  intro h
  have := h twoLevels "t" "b" requested [⟨deadlineOffice, 3600000, .runDueAutoApprovals⟩] rfl
    (by simp [OnChains]; rfl) [] _ [] rfl _ (.head _) 1 _ _ rfl rfl rfl rfl
  revert this
  decide

end BookingSystem.Runs
