import BookingSystem.Effects.Approvals
import BookingSystem.Model.System
import Mathlib.Data.List.Induction

/-!
# Levels that need everybody

A level with `requireAll` lists the users who all have to approve it. The flag does not reach the step, and the first
approval settles the step. So the step waits for everybody on the list exactly when everybody is one user: for a level
whose step only the listed user can decide, an approved step has the approval of everyone listed, or of a delegate
(`approved_by_all_listed`).
-/

namespace BookingSystem.Runs

open Base Model Model.ApprovalsService Effects

/-! ### Histories -/

/-- Some call of the run, taken after the calls before it, is as `P` says. -/
def Happened (P : List Event → Event → Prop) (es : List Event) : Prop := ∃ p e r, es = p ++ e :: r ∧ P p e

theorem Happened.snoc {P : List Event → Event → Prop} {es : List Event} (h : Happened P es) (e : Event) :
    Happened P (es ++ [e]) := by
  obtain ⟨p, e', r, rfl, hP⟩ := h
  exact ⟨p, e', r ++ [e], by simp, hP⟩

theorem happened_last {P : List Event → Event → Prop} {es : List Event} {e : Event} (h : P es e) :
    Happened P (es ++ [e]) := ⟨es, e, [], rfl, h⟩

/-- The calls of the approval chains, but for the sweeps. -/
def ChainCall (e : Event) : Prop :=
  match e.op with
  | .materialize .. | .decide .. | .delegate .. => True
  | _ => False

/-- The user approves the step in an accepted decision. -/
def Approves (st : Store) (e : Event) (stepId userId : Uuid) : Prop :=
  ∃ user bookingId input i step, e.op = .decide user bookingId input ∧ input.status = .approved ∧
    ChainDecision e.env user bookingId input st i step ∧ step.id = stepId ∧ user.id = userId

/-- The step is handed to the user in an accepted delegation. -/
def Delegates (st : Store) (e : Event) (stepId userId : Uuid) : Prop :=
  ∃ user bookingId reason step r, e.op = .delegate user bookingId userId reason ∧
    delegate e.env e.now user bookingId userId reason st = .ok r ∧
    (lockChain st user.tenantId bookingId).find? (·.status == .pending) = some step ∧ step.id = stepId

section History

variable (st : Store) (stepId : Uuid)

/-- The step was handed to the user in the run. -/
def Delegated (es : List Event) (userId : Uuid) : Prop :=
  Happened (fun p e => Delegates (run st p) e stepId userId) es

/-- The user, or one the step was handed to before, has approved the step in the run. -/
def Voted (es : List Event) (approver : Uuid) : Prop :=
  Happened (fun p e => ∃ userId, Approves (run st p) e stepId userId ∧
    (userId = approver ∨ Delegated st stepId p userId)) es

end History

/-! ### The step of a level -/

def requesterManager (env : Env) (booking : Booking) (rule : ApprovalRule) : Option Uuid :=
  if rule.levels.any (·.approverType == some .manager) then
    (env.user booking.tenantId booking.userId).bind (·.managerId)
  else none

def departmentHead (env : Env) (booking : Booking) (res : Resource) (rule : ApprovalRule) : Option Uuid :=
  if rule.levels.any (·.approverType == some .departmentHead) then
    res.departmentId.bind fun d => (env.department booking.tenantId d).bind (·.headUserId)
  else none

theorem chainRows_getElem? {env : Env} {now : Instant} {newId : ℕ → Uuid} {booking : Booking} {res : Resource}
    {rule : ApprovalRule} {i : ℕ} {lvl : ApprovalLevel} (h : rule.levels[i]? = some lvl) :
    (chainRows env now newId booking res rule)[i]? = some (levelStep booking rule (requesterManager env booking rule)
      (departmentHead env booking res rule) now newId lvl i) := by
  simp [chainRows, List.getElem?_mapIdx, h, requesterManager, departmentHead]

/-- The approvers the level puts on its step are one user, who is also everybody the level lists. -/
def SoleApprover (lvl : ApprovalLevel) (managerId headUserId : Option Uuid) : Prop :=
  (resolveLevelApprovers lvl managerId headUserId).2 = "" ∧ (resolveLevelApprovers lvl managerId headUserId).1 ≠ [] ∧
    ∀ x ∈ (resolveLevelApprovers lvl managerId headUserId).1, ∀ a ∈ lvl.approverUserIds, x = a

/-- A step that the listed users and those it was handed to can decide, and nobody else. -/
structure Held (listed : List Uuid) (st : Store) (stepId : Uuid) (es : List Event) (s : ApprovalStep) : Prop where
  role : s.approverRole = ""
  some_ : s.approverIds ≠ []
  ids : ∀ x ∈ s.approverIds, (∀ a ∈ listed, x = a) ∨ Delegated st stepId es x
  approved : s.status = .approved → ∀ a ∈ listed, Voted st stepId es a

section Held

variable {listed : List Uuid} {st : Store} {stepId : Uuid} {es : List Event} {s s' : ApprovalStep}

theorem Held.snoc (h : Held listed st stepId es s) (e : Event) : Held listed st stepId (es ++ [e]) s := by
  refine ⟨h.role, h.some_, fun x hx => ?_, fun ha a haL => (h.approved ha a haL).snoc e⟩
  rcases h.ids x hx with hx' | hx'
  · exact .inl hx'
  · exact .inr (hx'.snoc e)

theorem Held.mem_of_may (h : Held listed st stepId es s) {env : Env} {user : AuthUser}
    (hmay : canDecideStep env s user = true) : user.id ∈ s.approverIds := by
  unfold canDecideStep at hmay
  rw [h.role] at hmay
  split at hmay
  · rename_i hin
    exact List.contains_iff_mem.1 hin
  · simp [h.some_] at hmay

theorem Held.decided (h : Held listed st stepId es s) {env : Env} {now : Instant} {user : AuthUser} {bookingId : Uuid}
    {input : DecideInput} {i : ℕ} (hd : ChainDecision env user bookingId input (run st es) i s) (hid : s.id = stepId) :
    Held listed st stepId (es ++ [⟨env, now, .decide user bookingId input⟩])
      (decidedStep now input (some user.id) s) := by
  have hsnoc := h.snoc ⟨env, now, .decide user bookingId input⟩
  refine ⟨hsnoc.role, hsnoc.some_, hsnoc.ids, fun ha a haL => happened_last ⟨user.id, ?_, ?_⟩⟩
  · have hin : input.status = .approved := by
      have : input.status.stepStatus = .approved := ha
      cases hs : input.status with
      | approved => rfl
      | rejected =>
        rw [hs] at this
        cases this
    exact ⟨user, bookingId, input, i, s, rfl, hin, hd, hid, rfl⟩
  · rcases h.ids user.id (h.mem_of_may hd.may) with hlisted | hdel
    · exact .inl (hlisted a haL)
    · exact .inr hdel

theorem Held.delegated (h : Held listed st stepId es s) {e : Event} {user : AuthUser} {toUserId : Uuid}
    {reason : String} (hp : s.status = .pending) (hdel : Delegates (run st es) e stepId toUserId) :
    Held listed st stepId (es ++ [e]) (delegatedStep e.now user toUserId reason s) := by
  have hsnoc := h.snoc e
  refine ⟨hsnoc.role, ?_, fun x hx => ?_, fun ha => ?_⟩
  · simp only [delegatedStep]
    split
    · exact h.some_
    · simp
  · simp only [delegatedStep] at hx
    split at hx
    · exact hsnoc.ids x hx
    · rcases List.mem_append.1 hx with hx | hx
      · exact hsnoc.ids x hx
      · rw [List.mem_singleton.1 hx]
        exact .inr (happened_last hdel)
  · rw [show (delegatedStep e.now user toUserId reason s).status = s.status from rfl, hp] at ha
    cases ha

end Held

/-! ### Every run -/

section Runs

variable {listed : List Uuid} {st : Store} {stepId : Uuid}

/-- The step is in the store, and held by those it is for. -/
def HeldIn (listed : List Uuid) (st : Store) (stepId : Uuid) (es : List Event) (st' : Store) : Prop :=
  ∃ s, st'.steps.find? stepId = some s ∧ Held listed st stepId es s

section Calls

variable {es : List Event} {env : Env} {now : Instant} {s : ApprovalStep}
  (hs : (run st es).steps.find? stepId = some s) (hheld : Held listed st stepId es s)

include hs hheld

theorem heldIn_materialize {booking : Booking} {newId : ℕ → Uuid} {st' : Store} {n : ℕ}
    (h : materialize env now newId booking (run st es) = .ok (st', n)) (e : Event) :
    HeldIn listed st stepId (es ++ [e]) st' := by
  rcases materialize_ok h with ⟨rfl, -⟩ | ⟨res, rule, -, -, -, -, -, -, hrows⟩
  · exact ⟨s, hs, hheld.snoc e⟩
  · refine ⟨s, Table.find?_eq_some_iff.2 ⟨?_, Table.key_of_find? hs⟩, hheld.snoc e⟩
    rw [hrows]
    exact List.mem_append_left _ (Table.mem_of_find? hs)

theorem heldIn_decide {user : AuthUser} {bookingId : Uuid} {input : DecideInput} {st' : Store} {r : DecideResult}
    (h : ApprovalsService.decide env now user bookingId input (run st es) = .ok (st', r)) :
    HeldIn listed st stepId (es ++ [⟨env, now, .decide user bookingId input⟩]) st' := by
  rcases decide_ok h with ⟨_, -, hsteps, -⟩ | ⟨i, step, hd, rfl⟩
  · exact ⟨s, by rw [hsteps]; exact hs, hheld.snoc _⟩
  have hsteps : ∀ k, (recordApprovalAudit now user.tenantId bookingId (some user.id) input
      (commitStepDecision now user.tenantId bookingId (lockChain (run st es) user.tenantId bookingId) step input
        (some user.id) (run st es)).1).steps.find? k =
      ((run st es).steps.save (decidedStep now input (some user.id) step)).find? k := by
    intro k
    show (commitStepDecision ..).1.steps.find? k = _
    rw [commitStepDecision_steps]
  by_cases hid : step.id = stepId
  · have hstep : (run st es).steps.find? stepId = some step := by
      rw [← hid]
      exact Table.find?_of_mem hd.mem.1
    obtain rfl := Option.some.inj (hs.symm.trans hstep)
    exact ⟨_, (hsteps _).trans (Table.find?_save_of_key hid hs), hheld.decided hd hid⟩
  · exact ⟨s, (hsteps _).trans ((Table.find?_save_of_ne hid).trans hs), hheld.snoc _⟩

theorem heldIn_delegate {user : AuthUser} {bookingId toUserId : Uuid} {reason : String} {st' : Store} {u : Unit}
    (h : delegate env now user bookingId toUserId reason (run st es) = .ok (st', u)) :
    HeldIn listed st stepId (es ++ [⟨env, now, .delegate user bookingId toUserId reason⟩]) st' := by
  rcases delegate_ok h with ⟨step, hm, hpend, rfl⟩ | ⟨_, _, -, -, -, rfl⟩
  · by_cases hid : step.id = stepId
    · have hstep : (run st es).steps.find? stepId = some step := by
        rw [← hid]
        exact Table.find?_of_mem hm
      obtain rfl := Option.some.inj (hs.symm.trans hstep)
      refine ⟨_, Table.find?_save_of_key hid hs, ?_⟩
      exact hheld.delegated (e := ⟨env, now, .delegate user bookingId toUserId reason⟩)
        (by simpa using List.find?_some hpend) ⟨user, bookingId, reason, s, _, rfl, h, hpend, hid⟩
    · exact ⟨s, by rw [Table.find?_save_of_ne hid, hs], hheld.snoc _⟩
  · exact ⟨s, hs, hheld.snoc _⟩

end Calls

/-- **One call.** The step stays held by those it is for. -/
theorem heldIn_snoc {es : List Event} (h : HeldIn listed st stepId es (run st es)) {e : Event} (he : ChainCall e) :
    HeldIn listed st stepId (es ++ [e]) (run st (es ++ [e])) := by
  obtain ⟨s, hs, hheld⟩ := h
  have here : HeldIn listed st stepId (es ++ [e]) (run st es) := ⟨s, hs, hheld.snoc e⟩
  rw [run_then]
  obtain ⟨env, now, op⟩ := e
  cases op with
  | materialize booking newId =>
    exact settle_induction (P := HeldIn listed st stepId _) here fun r hr => heldIn_materialize hs hheld hr _
  | decide user bookingId input =>
    exact settle_induction (P := HeldIn listed st stepId _) here fun r hr => heldIn_decide hs hheld hr
  | delegate user bookingId toUserId reason =>
    exact settle_induction (P := HeldIn listed st stepId _) here fun r hr => heldIn_delegate hs hheld hr
  | _ => exact absurd he (by simp [ChainCall])

theorem heldIn_run (h : HeldIn listed st stepId [] st) {es : List Event} (hes : ∀ e ∈ es, ChainCall e) :
    HeldIn listed st stepId es (run st es) := by
  induction es using List.reverseRecOn with
  | nil => exact h
  | append_singleton es e ih =>
    exact heldIn_snoc (ih fun e' he' => hes e' (by simp [he'])) (hes e (by simp))

end Runs

/-- **Levels that need everybody.** A chain is written, and calls of any kind on chains follow, but no sweep. If the
step of a level is for one user and the level lists nobody else, then in every state of the run an approved step has
the approval of everybody listed, or of one it was handed to. -/
theorem approved_by_all_listed {env : Env} {now : Instant} {newId : ℕ → Uuid} {booking : Booking} {st st' : Store}
    {n : ℕ} (hm : materialize env now newId booking st = .ok (st', n)) {res : Resource} {rule : ApprovalRule}
    (hres : env.resource booking.tenantId booking.resourceId = some res)
    (hrule : matchRule env booking.tenantId res = some rule) {i : ℕ} {lvl : ApprovalLevel}
    (hlvl : rule.levels[i]? = some lvl)
    (hsole : SoleApprover lvl (requesterManager env booking rule) (departmentHead env booking res rule))
    {es : List Event} (hes : ∀ e ∈ es, ChainCall e) :
    ∃ s, (run st' es).steps.find? (newId i) = some s ∧
      (s.status = .approved → ∀ a ∈ lvl.approverUserIds, Voted st' (newId i) es a) := by
  have hrow : HeldIn lvl.approverUserIds st' (newId i) [] st' := by
    have hlev : rule.levels ≠ [] := by
      rintro hnil
      rw [hnil] at hlvl
      cases hlvl
    have hmem := List.mem_of_getElem? (@chainRows_getElem? env now newId booking res rule i lvl hlvl)
    refine ⟨levelStep booking rule (requesterManager env booking rule) (departmentHead env booking res rule) now newId
      lvl i, Table.find?_eq_some_iff.2 ⟨?_, rfl⟩, ⟨hsole.1, hsole.2.1, fun x hx => .inl (hsole.2.2 x hx), ?_⟩⟩
    · rw [materialize_writes hm hres hrule hlev]
      exact List.mem_append_right _ hmem
    · intro ha
      cases ha
  obtain ⟨s, hs, hheld⟩ := heldIn_run hrow hes
  exact ⟨s, hs, hheld.approved⟩

/-! ### Two approvers -/

def everybody (listed : List Uuid) : ApprovalRule :=
  { id := "rule", tenantId := "t", scopeType := .tenant,
    levels := [{ name := "board", approverUserIds := listed, requireAll := true }] }

def boardOffice (listed : List Uuid) : Env := { approvalOffice with rules := ⟨[everybody listed], by simp⟩ }

def boardBooking : Booking :=
  { id := "b", tenantId := "t", resourceId := "r", userId := "u", startTime := 3600000, endTime := 7200000,
    status := .pendingApproval }

def boardStore (listed : List Uuid) : Store :=
  settle (materialize (boardOffice listed) 0 (fun i => "s" ++ toString i) boardBooking Store.empty) Store.empty

def annApprovesBoard (listed : List Uuid) : Event :=
  ⟨boardOffice listed, 1, .decide ⟨"ann", "t", "Officer", none⟩ "b" ⟨.approved, none⟩⟩

/-- `ann` is the only one on the list. -/
theorem approved_by_all_listed_ann : ∃ s,
    (run (boardStore ["ann"]) [annApprovesBoard ["ann"]]).steps.find? "s0" = some s ∧
    (s.status = .approved → ∀ a ∈ ["ann"], Voted (boardStore ["ann"]) "s0" [annApprovesBoard ["ann"]] a) := by
  refine @approved_by_all_listed (boardOffice ["ann"]) 0 (fun i => "s" ++ toString i) boardBooking Store.empty
    (boardStore ["ann"]) 1 rfl _ (everybody ["ann"]) rfl rfl 0 _ rfl ?_ _ ?_
  · refine ⟨rfl, by decide, ?_⟩
    decide
  · simp [ChainCall, annApprovesBoard]

/-- `ann` and `bob` are on the list of a level that needs everybody; `ann` approves, and the step is approved. -/
theorem approved_without_bob :
    ¬ ∀ (env : Env) (now : Instant) (newId : ℕ → Uuid) (booking : Booking) (st st' : Store) (n : ℕ) (res : Resource)
      (rule : ApprovalRule) (i : ℕ) (lvl : ApprovalLevel), materialize env now newId booking st = .ok (st', n) →
      env.resource booking.tenantId booking.resourceId = some res →
      matchRule env booking.tenantId res = some rule → rule.levels[i]? = some lvl → lvl.requireAll = true →
      lvl.approverUserIds ≠ [] → ∀ es : List Event, (∀ e ∈ es, ChainCall e) →
      ∀ s, (run st' es).steps.find? (newId i) = some s → s.status = .approved →
        ∀ a ∈ lvl.approverUserIds, Voted st' (newId i) es a := by
  intro h
  obtain ⟨p, e, r, hsplit, userId, ⟨user, bookingId, input, i, step, hop, -, -, -, rfl⟩, hvote⟩ :=
    h (boardOffice ["ann", "bob"]) 0 (fun i => "s" ++ toString i) boardBooking Store.empty
      (boardStore ["ann", "bob"]) 1 _ (everybody ["ann", "bob"]) 0 _ rfl rfl rfl rfl rfl (by decide)
      [annApprovesBoard ["ann", "bob"]] (by simp [ChainCall, annApprovesBoard]) _ rfl rfl "bob" (by decide)
  -- the only call of the run is the decision of `ann`
  cases p with
  | cons e' p => simp at hsplit
  | nil =>
    obtain ⟨rfl, -⟩ := List.cons.inj hsplit
    obtain ⟨rfl, -, -⟩ : user = ⟨"ann", "t", "Officer", none⟩ ∧ _ ∧ _ := by
      simpa [annApprovesBoard, eq_comm] using hop
    rcases hvote with hbob | ⟨p', e', r', hnil, -⟩
    · revert hbob
      decide
    · simp at hnil

end BookingSystem.Runs
