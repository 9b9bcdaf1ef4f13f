import BookingSystem.Concurrency.Chain
import BookingSystem.Concurrency.Statements
import BookingSystem.Effects.Sweeps

/-!
# Decisions and delegations side by side

A decision and an automatic approval lock the rows of a chain before they read them, and the sweep of stale requests
writes pending rows only. `delegate` locks nothing: it reads the chain, and its save reloads the row of the step later
and writes the columns in which its entity differs. The entity is pending, so a decision that was committed in between
is undone. Decided steps are final in exactly the runs in which every delegation that writes has reloaded a pending
row (`decided_final_iff`).
-/

namespace BookingSystem.Concurrency.Delegation

open Base Model Model.ApprovalsService Effects

/-! ### The calls -/

inductive Call
  | decide (user : AuthUser) (bookingId : Uuid) (input : DecideInput)
  | autoApproveStep (tenantId bookingId stepId : Uuid)
  | autoRejectStale (tenantId bookingId : Uuid)
  | delegate (user : AuthUser) (bookingId toUserId : Uuid) (reason : String)

/-- A call, the settings it runs under and the time of its clock. -/
structure Job where
  env : Env
  now : Instant
  call : Call

def closesBooking (w : Decision) : Bool := w.input.status == .rejected || allDone w.steps w.step

def delegation (env : Env) (now : Instant) (user : AuthUser) (bookingId toUserId : Uuid) (reason : String)
    (st : Store) : Option ApprovalStep :=
  (delegate env now user bookingId toUserId reason st).toOption.bind fun _ =>
    ((lockChain st user.tenantId bookingId).find? (·.status == .pending)).map (delegatedStep now user toUserId reason)

/-- The stored row after the `UPDATE` of a save of `entity`, which has reloaded the row as `loaded`. -/
def writeStep (entity loaded stored : ApprovalStep) : ApprovalStep where
  id := stored.id
  tenantId := column entity.tenantId loaded.tenantId stored.tenantId
  bookingId := column entity.bookingId loaded.bookingId stored.bookingId
  ruleId := column entity.ruleId loaded.ruleId stored.ruleId
  stepIndex := column entity.stepIndex loaded.stepIndex stored.stepIndex
  levelName := column entity.levelName loaded.levelName stored.levelName
  approverIds := column entity.approverIds loaded.approverIds stored.approverIds
  approverRole := column entity.approverRole loaded.approverRole stored.approverRole
  minGrade := column entity.minGrade loaded.minGrade stored.minGrade
  status := column entity.status loaded.status stored.status
  decidedBy := column entity.decidedBy loaded.decidedBy stored.decidedBy
  decisionAt := column entity.decisionAt loaded.decisionAt stored.decisionAt
  reason := column entity.reason loaded.reason stored.reason
  dueAt := column entity.dueAt loaded.dueAt stored.dueAt
  requireAll := column entity.requireAll loaded.requireAll stored.requireAll
  approvedBy := column entity.approvedBy loaded.approvedBy stored.approvedBy
  delegatedTo := column entity.delegatedTo loaded.delegatedTo stored.delegatedTo
  delegatedBy := column entity.delegatedBy loaded.delegatedBy stored.delegatedBy
  delegatedAt := column entity.delegatedAt loaded.delegatedAt stored.delegatedAt
  createdAt := column entity.createdAt loaded.createdAt stored.createdAt

theorem key_writeStep (entity loaded stored : ApprovalStep) :
    (key (writeStep entity loaded stored) : Uuid) = key stored := rfl

/-! ### The statements -/

/-- Where a call stands: nothing done yet; the chain locked, with the decision on it as it was read; the booking
cancelled by the sweep and locked; the entity of a delegation in memory; its row reloaded by the save. -/
inductive Phase
  | ready
  | locked (tenantId bookingId : Uuid) (w : Option Decision)
  | closing
  | holding (v : ApprovalStep)
  | reloaded (v loaded : ApprovalStep)

/-- The committed rows, the calls in progress, and the locks on rows of steps and of bookings with their holders. -/
structure Office where
  store : Store
  clients : ℕ → Option (Job × Phase)
  locks : Uuid → Option ℕ
  bookingLocks : Uuid → Option ℕ

namespace Office

variable (st : Office) (p : ℕ)

def lockedFor (id : Uuid) : Bool := (st.locks id).any (· ≠ p)

def bookingLockedFor (id : Uuid) : Bool := (st.bookingLocks id).any (· ≠ p)

def goOn (job : Job) (ph : Phase) : Office := { st with clients := Function.update st.clients p (some (job, ph)) }

def leave (store : Store) : Office where
  store := store
  clients := Function.update st.clients p none
  locks id := if st.locks id = some p then none else st.locks id
  bookingLocks id := if st.bookingLocks id = some p then none else st.bookingLocks id

/-- `SELECT … FOR UPDATE`: waits until no row of the chain is locked, then reads and locks them. -/
def lockRows (job : Job) {tenantId : Uuid} (bookingId : Uuid) (q : Decider tenantId) : Office :=
  let chain := lockChain st.store tenantId bookingId
  if chain.any fun s => st.lockedFor p s.id then st
  else
    { st.goOn p job (.locked tenantId bookingId (q.decision bookingId st.store)) with
      locks := fun id => if id ∈ chain.map (·.id) then some p else st.locks id }

def openSteps (tenantId bookingId : Uuid) : List ApprovalStep :=
  st.store.steps.rows.filter fun s => s.tenantId == tenantId && s.bookingId == bookingId && s.status == .pending

/-- The next statement of a call. A call on a booking without a chain writes the row of the booking only, and counts as
one statement. -/
def act (job : Job) (ph : Phase) : Office :=
  match ph with
  | .ready =>
    match job.call with
    | .decide user bookingId input =>
      if input.status == .approved || trim (input.reason.getD "") != "" then
        if (lockChain st.store user.tenantId bookingId).isEmpty then
          if st.bookingLockedFor p bookingId then st
          else
            st.leave p (settle (ApprovalsService.decide job.env job.now user bookingId input st.store) st.store)
        else st.lockRows p job bookingId (.approver job.env job.now user input rfl)
      else st.leave p st.store
    | .autoApproveStep tenantId bookingId stepId =>
      st.lockRows p job bookingId (.sweep job.now stepId : Decider tenantId)
    | .autoRejectStale tenantId bookingId =>
      match findBooking st.store.bookings tenantId bookingId with
      | some b =>
        if b.status == .pendingApproval then
          if st.bookingLockedFor p bookingId then st
          else
            { st.goOn p job .closing with
              bookingLocks := fun id => if id = bookingId then some p else st.bookingLocks id }
        else st.leave p st.store
      | none => st.leave p st.store
    | .delegate user bookingId toUserId reason =>
      match delegation job.env job.now user bookingId toUserId reason st.store with
      | some v => st.goOn p job (.holding v)
      | none =>
        if st.bookingLockedFor p bookingId then st
        else
          st.leave p (settle (delegate job.env job.now user bookingId toUserId reason st.store) st.store)
  | .locked _ _ none => st.leave p st.store
  | .locked tenantId bookingId (some w) =>
    if closesBooking w && st.bookingLockedFor p bookingId then st
    else st.leave p (w.commit tenantId bookingId st.store).1
  | .closing =>
    match job.call with
    | .autoRejectStale tenantId bookingId =>
      if (st.openSteps tenantId bookingId).any fun s => st.lockedFor p s.id then st
      else st.leave p (autoRejectStale job.now tenantId bookingId st.store)
    | _ => st.leave p st.store
  | .holding v =>
    match st.store.steps.find? v.id with
    | some loaded => st.goOn p job (.reloaded v loaded)
    | none => st.leave p st.store
  | .reloaded v loaded =>
    if st.lockedFor p v.id then st
    else
      st.leave p
        { st.store with
          steps := st.store.steps.update (fun s => s.id == v.id) (writeStep v loaded) (key_writeStep v loaded) }

end Office

/-- What happens: a client calls or the clock starts a sweep, the next statement of a call is executed, or a call dies
in the middle. -/
inductive OfficeEvent
  | call (p : ℕ) (job : Job)
  | turn (p : ℕ)
  | crash (p : ℕ)

/-- The office after an event. -/
def serve (st : Office) (e : OfficeEvent) : Office :=
  match e with
  | .call p job =>
    match st.clients p with
    | none => st.goOn p job .ready
    | some _ => st
  | .turn p =>
    match st.clients p with
    | some (job, ph) => st.act p job ph
    | none => st
  | .crash p => st.leave p st.store

def opened (store : Store) : Office := ⟨store, fun _ => none, fun _ => none, fun _ => none⟩

/-! ### What a statement does to a row -/

section Statement

variable {st : Office} {p : ℕ} {job : Job} {ph : Phase} {id : Uuid}

theorem Office.clients_goOn (st : Office) (p : ℕ) (job : Job) (ph : Phase) (q : ℕ) :
    (st.goOn p job ph).clients q = if q = p then some (job, ph) else st.clients q := Function.update_apply ..

theorem Office.clients_leave (st : Office) (p : ℕ) (store : Store) (q : ℕ) :
    (st.leave p store).clients q = if q = p then none else st.clients q := Function.update_apply ..

theorem delegation_eq_some {env : Env} {now : Instant} {user : AuthUser} {bookingId toUserId : Uuid} {reason : String}
    {store : Store} {v : ApprovalStep} (h : delegation env now user bookingId toUserId reason store = some v) :
    ∃ s, store.steps.find? v.id = some s ∧ s.status = .pending ∧ v = delegatedStep now user toUserId reason s := by
  simp only [delegation, Option.bind_eq_some_iff, Option.map_eq_some_iff] at h
  obtain ⟨-, -, s, hs, rfl⟩ := h
  have hmem := (mem_lockChain.1 (List.mem_of_find?_eq_some hs)).1
  exact ⟨s, Table.find?_of_mem hmem, by simpa using List.find?_some hs, rfl⟩

theorem steps_decide_legacy {env : Env} {now : Instant} {user : AuthUser} {bookingId : Uuid} {input : DecideInput}
    {store : Store} (hchain : (lockChain store user.tenantId bookingId).isEmpty = true) :
    (settle (ApprovalsService.decide env now user bookingId input store) store).steps = store.steps := by
  refine settle_induction (P := fun s : Store => s.steps = store.steps) rfl ?_
  rintro ⟨store', r⟩ h
  rcases decide_ok h with ⟨b, -, hsteps, -⟩ | ⟨i, s, hd, -⟩
  · exact hsteps
  · have hat := hd.at_
    rw [List.isEmpty_iff.1 hchain] at hat
    cases hat

theorem steps_delegate_legacy {env : Env} {now : Instant} {user : AuthUser} {bookingId toUserId : Uuid}
    {reason : String} {store : Store} (hnone : delegation env now user bookingId toUserId reason store = none) :
    (settle (delegate env now user bookingId toUserId reason store) store).steps = store.steps := by
  refine settle_induction (P := fun s : Store => s.steps = store.steps) rfl ?_
  rintro ⟨store', u⟩ h
  rcases delegate_ok h with ⟨s, -, hs, -⟩ | ⟨b, notes, -, -, -, rfl⟩
  · simp [delegation, h, hs, Except.toOption] at hnone
  · rfl

/-- All that the next statement of a call can do: it waits for a lock, goes on, or ends with what it has written. -/
inductive Acts (st : Office) (p : ℕ) (job : Job) : Phase → Office → Prop
  | wait {ph : Phase} : Acts st p job ph st
  | lock {tenantId : Uuid} (bookingId : Uuid) (q : Decider tenantId)
      (hfree : ∀ s ∈ lockChain st.store tenantId bookingId, st.lockedFor p s.id = false) :
      Acts st p job .ready { st.goOn p job (.locked tenantId bookingId (q.decision bookingId st.store)) with
        locks := fun id => if id ∈ (lockChain st.store tenantId bookingId).map (·.id) then some p else st.locks id }
  | close (bookingId : Uuid) :
      Acts st p job .ready { st.goOn p job .closing with
        bookingLocks := fun id => if id = bookingId then some p else st.bookingLocks id }
  | read {user : AuthUser} {bookingId toUserId : Uuid} {reason : String} {v : ApprovalStep}
      (hv : delegation job.env job.now user bookingId toUserId reason st.store = some v) :
      Acts st p job .ready (st.goOn p job (.holding v))
  | reload {v loaded : ApprovalStep} (hloaded : st.store.steps.find? v.id = some loaded) :
      Acts st p job (.holding v) (st.goOn p job (.reloaded v loaded))
  | leave {ph : Phase} {store : Store} (hsteps : store.steps = st.store.steps) : Acts st p job ph (st.leave p store)
  | decided {tenantId bookingId : Uuid} {w : Decision} :
      Acts st p job (.locked tenantId bookingId (some w)) (st.leave p (w.commit tenantId bookingId st.store).1)
  | closed (tenantId bookingId : Uuid) (hfree : ∀ s ∈ st.openSteps tenantId bookingId, st.lockedFor p s.id = false) :
      Acts st p job .closing (st.leave p (autoRejectStale job.now tenantId bookingId st.store))
  | delegated {v loaded : ApprovalStep} (hfree : st.lockedFor p v.id = false) :
      Acts st p job (.reloaded v loaded) (st.leave p { st.store with
        steps := st.store.steps.update (fun s => s.id == v.id) (writeStep v loaded) (key_writeStep v loaded) })

theorem acts_lockRows {tenantId : Uuid} (bookingId : Uuid) (q : Decider tenantId) :
    Acts st p job .ready (st.lockRows p job bookingId q) := by
  simp only [Office.lockRows]
  split
  · exact .wait
  · rename_i hfree
    refine .lock bookingId q fun s hs => ?_
    simpa using fun h => hfree (List.any_eq_true.2 ⟨s, hs, h⟩)

/-- **One statement.** -/
theorem acts_act (st : Office) (p : ℕ) (job : Job) (ph : Phase) : Acts st p job ph (st.act p job ph) := by
  obtain ⟨env, now, call⟩ := job
  cases ph with
  | ready =>
    cases call with
    | decide user bookingId input =>
      simp only [Office.act]
      split
      · split
        · rename_i hempty
          split
          · exact .wait
          · exact .leave (steps_decide_legacy hempty)
        · exact acts_lockRows ..
      · exact .leave rfl
    | autoApproveStep tenantId bookingId stepId => exact acts_lockRows ..
    | autoRejectStale tenantId bookingId =>
      simp only [Office.act]
      split
      · split
        · split
          · exact .wait
          · exact .close bookingId
        · exact .leave rfl
      · exact .leave rfl
    | delegate user bookingId toUserId reason =>
      simp only [Office.act]
      split
      · rename_i v hv
        exact .read hv
      · rename_i hnone
        split
        · exact .wait
        · exact .leave (steps_delegate_legacy hnone)
  | locked tenantId bookingId w =>
    cases w with
    | none => exact .leave rfl
    | some w =>
      simp only [Office.act]
      split
      · exact .wait
      · exact .decided
  | closing =>
    cases call with
    | autoRejectStale tenantId bookingId =>
      simp only [Office.act]
      split
      · exact .wait
      · rename_i hfree
        refine .closed tenantId bookingId fun s hs => ?_
        simpa using fun h => hfree (List.any_eq_true.2 ⟨s, hs, h⟩)
    | _ => exact .leave rfl
  | holding v =>
    simp only [Office.act]
    split
    · rename_i loaded hloaded
      exact .reload hloaded
    · exact .leave rfl
  | reloaded v loaded =>
    simp only [Office.act]
    split
    · exact .wait
    · rename_i hfree
      exact .delegated (by simpa using hfree)

/-- How the next statement of a call takes the row `id` from `s` to `s'`. -/
inductive Wrote (st : Office) (p : ℕ) (job : Job) (ph : Phase) (id : Uuid) (s s' : ApprovalStep) : Prop
  | same (h : s' = s)
  | decided {tenantId bookingId : Uuid} {w : Decision} (hph : ph = .locked tenantId bookingId (some w))
      (hid : w.step.id = id) (h : s' = decidedStep w.now w.input w.actorId w.step)
  | closed (hph : ph = .closing) (hfree : st.lockedFor p id = false) (hp : s.status = .pending)
      (h : s' = { s with status := .rejected, reason := staleNote, decisionAt := some job.now })
  | delegated {v loaded : ApprovalStep} (hph : ph = .reloaded v loaded) (hid : v.id = id)
      (hfree : st.lockedFor p id = false) (h : s' = writeStep v loaded s)

/-- The rows of the steps after a statement, each by what the statement may do to it. -/
def Writes (st : Office) (p : ℕ) (job : Job) (ph : Phase) (id : Uuid) (st' : Office) : Prop :=
  ∃ f, st'.store.steps.find? id = (st.store.steps.find? id).map f ∧
    ∀ s, st.store.steps.find? id = some s → Wrote st p job ph id s (f s)

theorem Writes.same {st' : Office} (h : st'.store.steps = st.store.steps) : Writes st p job ph id st' :=
  ⟨fun s => s, by rw [h, Option.map_id'], fun s _ => .same rfl⟩

theorem writes_act (st : Office) (p : ℕ) (job : Job) (ph : Phase) (id : Uuid) :
    Writes st p job ph id (st.act p job ph) := by
  have hacts := acts_act st p job ph
  generalize st.act p job ph = st' at hacts
  cases hacts with
  | wait => exact .same rfl
  | lock bookingId q hfree => exact .same rfl
  | close bookingId => exact .same rfl
  | read hv => exact .same rfl
  | reload hloaded => exact .same rfl
  | leave hsteps => exact .same hsteps
  | @decided tenantId bookingId w =>
    refine ⟨fun s => if s.id = w.step.id then decidedStep w.now w.input w.actorId w.step else s, ?_, ?_⟩
    · show (commitStepDecision ..).1.steps.find? id = _
      rw [commitStepDecision_steps, Table.find?_save_map]
      rfl
    · intro s hs
      have hsid : s.id = id := Table.key_of_find? hs
      dsimp only
      split
      · rename_i hid
        exact .decided rfl (hid.symm.trans hsid) rfl
      · exact .same rfl
  | closed tenantId bookingId hfree =>
    unfold autoRejectStale
    split
    · split
      · refine ⟨_, Table.find?_update _ _ _ (by intro _; rfl) id, fun s hs => ?_⟩
        have hsid : s.id = id := Table.key_of_find? hs
        split
        · rename_i hopen
          have hmem : s ∈ st.openSteps tenantId bookingId := List.mem_filter.2 ⟨Table.mem_of_find? hs, hopen⟩
          simp only [Bool.and_eq_true, beq_iff_eq] at hopen
          exact .closed rfl (hsid ▸ hfree s hmem) hopen.2 rfl
        · exact .same rfl
      · exact .same rfl
    · exact .same rfl
  | @delegated v loaded hfree =>
    refine ⟨_, Table.find?_update _ _ _ (key_writeStep v loaded) id, fun s hs => ?_⟩
    have hsid : s.id = id := Table.key_of_find? hs
    split
    · rename_i hid
      have hid' : v.id = id := by
        rw [← hsid]
        exact (beq_iff_eq.1 hid).symm
      exact .delegated rfl hid' (hid' ▸ hfree) rfl
    · exact .same rfl

theorem client_act_other {q : ℕ} (hq : q ≠ p) : (st.act p job ph).clients q = st.clients q := by
  have hacts := acts_act st p job ph
  generalize st.act p job ph = st' at hacts
  cases hacts with
  | wait => rfl
  | lock | close | read | reload => exact (Office.clients_goOn ..).trans (if_neg hq)
  | leave | decided | closed | delegated => exact (Office.clients_leave ..).trans (if_neg hq)

theorem locks_act_other {q : ℕ} (hq : q ≠ p) (hlock : st.locks id = some q) :
    (st.act p job ph).locks id = some q := by
  have hleave : ∀ store, (st.leave p store).locks id = some q := by
    intro store
    have hne : st.locks id ≠ some p := by simpa [hlock] using hq
    exact (if_neg hne).trans hlock
  have hacts := acts_act st p job ph
  generalize st.act p job ph = st' at hacts
  cases hacts with
  | wait | close | read | reload => exact hlock
  | leave | decided | closed | delegated => exact hleave _
  | lock bookingId q hfree =>
    refine (if_neg fun hmem => ?_).trans hlock
    obtain ⟨s, hs, rfl⟩ := List.mem_map.1 hmem
    have := hfree s hs
    simp [Office.lockedFor, hlock, hq] at this

end Statement

/-! ### Decisions that stand -/

/-- The status of the step, who has decided and when are the same. -/
def SameDecision (s s' : ApprovalStep) : Prop :=
  s'.status = s.status ∧ s'.decidedBy = s.decidedBy ∧ s'.decisionAt = s.decisionAt

theorem SameDecision.refl (s : ApprovalStep) : SameDecision s s := ⟨rfl, rfl, rfl⟩

theorem SameDecision.trans {s s' s'' : ApprovalStep} (h : SameDecision s s') (h' : SameDecision s' s'') :
    SameDecision s s'' :=
  ⟨h'.1.trans h.1, h'.2.1.trans h.2.1, h'.2.2.trans h.2.2⟩

/-- A step that is decided stays as it is decided. -/
def Kept (s s' : ApprovalStep) : Prop := s.status ≠ .pending → SameDecision s s'

/-- Every decided step is still there, as it was decided. -/
def Final (st st' : Store) : Prop := Table.Evolves Kept st.steps st'.steps

theorem Final.refl (st : Store) : Final st st := Table.Evolves.refl (fun s _ => .refl s) _

theorem Final.trans {st st' st'' : Store} (h : Final st st') (h' : Final st' st'') : Final st st'' := by
  refine Table.Evolves.trans (fun s s' s'' hs hs' hne => ?_) h h'
  have hsame := hs hne
  exact hsame.trans (hs' (by rw [hsame.1]; exact hne))

/-- A step stays as it is, or it is pending and gets decided. -/
def Settles (s s' : ApprovalStep) : Prop := SameDecision s s' ∨ (s.status = .pending ∧ s'.status ≠ .pending)

theorem Settles.kept {s s' : ApprovalStep} (h : Settles s s') : Kept s s' := by
  intro hne
  rcases h with hsame | ⟨hp, -⟩
  · exact hsame
  · exact absurd hp hne

/-- What a call knows about the rows. -/
def Knows (st : Office) (p : ℕ) : Phase → Prop
  | .locked _ _ (some w) =>
    w.step.status = .pending ∧ st.locks w.step.id = some p ∧ st.store.steps.find? w.step.id = some w.step
  | .holding v =>
    v.status = .pending ∧ ∃ s, st.store.steps.find? v.id = some s ∧ (s.status = .pending → SameDecision v s)
  | .reloaded v loaded =>
    v.status = .pending ∧ (loaded.status = .pending → SameDecision v loaded) ∧
      ∃ s, st.store.steps.find? v.id = some s ∧ (loaded.status ≠ .pending → s.status ≠ .pending)
  | _ => True

def Inv (st : Office) : Prop := ∀ p job ph, st.clients p = some (job, ph) → Knows st p ph

def Office.Fresh (st : Office) (p : ℕ) : Phase → Prop
  | .reloaded v loaded => st.lockedFor p v.id = false → loaded.status = .pending
  | _ => True

/-- The condition on a run: a delegation that is about to write the row of its step has reloaded it while it was
pending. -/
def WritesFresh (st : Office) (e : OfficeEvent) : Prop :=
  match e with
  | .turn p => ∀ job ph, st.clients p = some (job, ph) → st.Fresh p ph
  | _ => True

section Step

variable {st : Office} {p : ℕ} {job : Job} {ph : Phase} {id : Uuid}

theorem sameDecision_writeStep {v loaded s : ApprovalStep} (h : SameDecision v loaded) :
    SameDecision s (writeStep v loaded s) :=
  ⟨if_pos h.1.symm, if_pos h.2.1.symm, if_pos h.2.2.symm⟩

theorem status_writeStep {v loaded s : ApprovalStep} (hv : v.status = .pending) (hl : loaded.status ≠ .pending) :
    (writeStep v loaded s).status = .pending := by
  have hne : v.status ≠ loaded.status := by
    rw [hv]
    exact hl.symm
  exact (if_neg hne).trans hv

/-- **One statement.** It leaves a row as it is, or decides it. -/
theorem Inv.settles (h : Inv st) (hp : st.clients p = some (job, ph)) (hC : st.Fresh p ph) {s s' : ApprovalStep}
    (hs : st.store.steps.find? id = some s) (hw : Wrote st p job ph id s s') : Settles s s' := by
  have hat := h p job ph hp
  cases hw with
  | same heq =>
    subst heq
    exact .inl (.refl s')
  | @decided tenantId bookingId w hph hid heq =>
    subst hph heq hid
    obtain ⟨hpend, -, hrow⟩ := hat
    obtain rfl := Option.some.inj (hs.symm.trans hrow)
    refine .inr ⟨hpend, ?_⟩
    show w.input.status.stepStatus ≠ .pending
    cases w.input.status <;> decide
  | closed hph hfree hpend heq =>
    subst heq
    exact .inr ⟨hpend, by simp⟩
  | @delegated v loaded hph hid hfree heq =>
    subst hph heq hid
    exact .inl (sameDecision_writeStep (hat.2.1 (hC hfree)))

theorem Inv.row_after (h : Inv st) (hp : st.clients p = some (job, ph)) (hC : st.Fresh p ph) {s : ApprovalStep}
    (hs : st.store.steps.find? id = some s) :
    ∃ s', (st.act p job ph).store.steps.find? id = some s' ∧ Settles s s' := by
  obtain ⟨f, hf, hwrote⟩ := writes_act st p job ph id
  exact ⟨f s, by rw [hf, hs]; rfl, h.settles hp hC hs (hwrote s hs)⟩

theorem Inv.locked_row (h : Inv st) (hp : st.clients p = some (job, ph)) {q : ℕ} (hq : q ≠ p)
    (hlock : st.locks id = some q) : (st.act p job ph).store.steps.find? id = st.store.steps.find? id := by
  have hbusy : st.lockedFor p id = true := by simp [Office.lockedFor, hlock, hq]
  obtain ⟨f, hf, hwrote⟩ := writes_act st p job ph id
  rw [hf]
  cases hs : st.store.steps.find? id with
  | none => rfl
  | some s =>
    rw [Option.map_some, Option.some.injEq]
    have hw := hwrote s hs
    revert hw
    generalize f s = s'
    intro hw
    cases hw with
    | same heq => exact heq
    | @decided tenantId bookingId w hph hid heq =>
      subst hph hid
      obtain ⟨-, hown, -⟩ := h p job _ hp
      exact absurd (Option.some.inj (hlock.symm.trans hown)) hq
    | closed hph hfree => cases hbusy.symm.trans hfree
    | delegated hph hid hfree => cases hbusy.symm.trans hfree

theorem Inv.knows_other (h : Inv st) (hp : st.clients p = some (job, ph)) (hC : st.Fresh p ph) {q : ℕ} {job' : Job}
    {ph' : Phase} (hq : q ≠ p) (hq' : st.clients q = some (job', ph')) : Knows (st.act p job ph) q ph' := by
  have hat := h q job' ph' hq'
  cases ph' with
  | ready => trivial
  | closing => trivial
  | locked tenantId bookingId w =>
    cases w with
    | none => trivial
    | some w =>
      obtain ⟨hpend, hlock, hrow⟩ := hat
      refine ⟨hpend, locks_act_other hq hlock, ?_⟩
      rw [h.locked_row hp hq hlock]
      exact hrow
  | holding v =>
    obtain ⟨hv, s, hs, hsame⟩ := hat
    obtain ⟨s', hs', hset⟩ := h.row_after hp hC hs
    refine ⟨hv, s', hs', fun hpend => ?_⟩
    rcases hset with hkeep | ⟨-, hne⟩
    · exact (hsame (hkeep.1.symm.trans hpend)).trans hkeep
    · exact absurd hpend hne
  | reloaded v loaded =>
    obtain ⟨hv, hload, s, hs, hdec⟩ := hat
    obtain ⟨s', hs', hset⟩ := h.row_after hp hC hs
    refine ⟨hv, hload, s', hs', fun hne => ?_⟩
    rw [(hset.kept (hdec hne)).1]
    exact hdec hne

theorem Inv.knows_self (h : Inv st) (hp : st.clients p = some (job, ph)) {job' : Job} {ph' : Phase}
    (hp' : (st.act p job ph).clients p = some (job', ph')) : Knows (st.act p job ph) p ph' := by
  have hat := h p job ph hp
  have hacts := acts_act st p job ph
  generalize st.act p job ph = st' at hacts hp'
  have hgo : ∀ {ph'' : Phase}, (st.goOn p job ph'').clients p = some (job', ph') → ph'' = ph' := by
    intro ph'' heq
    rw [Office.clients_goOn, if_pos rfl, Option.some.injEq, Prod.mk.injEq] at heq
    exact heq.2
  have hleave : ∀ {store : Store}, (st.leave p store).clients p ≠ some (job', ph') := by
    intro store heq
    rw [Office.clients_leave, if_pos rfl] at heq
    cases heq
  cases hacts with
  | wait =>
    rw [hp, Option.some.injEq, Prod.mk.injEq] at hp'
    exact hp'.2 ▸ hat
  | @lock tenantId bookingId q hfree =>
    obtain rfl := hgo hp'
    cases hw : q.decision bookingId st.store with
    | none => trivial
    | some w =>
      obtain ⟨-, hmem, hpend⟩ := decision_spec hw
      exact ⟨hpend, if_pos (List.mem_map_of_mem hmem), Table.find?_of_mem (mem_lockChain.1 hmem).1⟩
  | close bookingId =>
    obtain rfl := hgo hp'
    trivial
  | read hv =>
    obtain rfl := hgo hp'
    obtain ⟨s, hs, hpend, rfl⟩ := delegation_eq_some hv
    exact ⟨hpend, s, hs, fun _ => .refl s⟩
  | @reload v loaded hloaded =>
    obtain rfl := hgo hp'
    obtain ⟨hv, s, hs, hsame⟩ := hat
    obtain rfl := Option.some.inj (hloaded.symm.trans hs)
    exact ⟨hv, hsame, loaded, hloaded, id⟩
  | leave | decided | closed | delegated => exact absurd hp' hleave

theorem Inv.act (h : Inv st) (hp : st.clients p = some (job, ph)) (hC : st.Fresh p ph) : Inv (st.act p job ph) := by
  intro q job' ph' hq'
  by_cases hq : q = p
  · subst hq
    exact h.knows_self hp hq'
  · rw [client_act_other hq] at hq'
    exact h.knows_other hp hC hq hq'

/-- **A statement leaves decided steps alone** iff it isn't the write of a delegation that has reloaded a decided
row. -/
theorem Inv.final_act_iff (h : Inv st) (hp : st.clients p = some (job, ph)) :
    Final st.store (st.act p job ph).store ↔ st.Fresh p ph := by
  constructor
  · intro hfinal
    cases ph with
    | reloaded v loaded =>
      intro hfree
      by_contra hl
      obtain ⟨hv, -, s, hs, hdec⟩ := h p job _ hp
      obtain ⟨s', hs', hkept⟩ := hfinal v.id s hs
      have hrow : (st.act p job (.reloaded v loaded)).store.steps.find? v.id = some (writeStep v loaded s) := by
        simp only [Office.act, hfree, Bool.false_eq_true, if_false, Office.leave]
        have hid : s.id = v.id := Table.key_of_find? hs
        rw [Table.find?_update, hs, Option.map_some, if_pos (beq_iff_eq.2 hid)]
      obtain rfl := Option.some.inj (hs'.symm.trans hrow)
      have hstatus := (hkept (hdec hl)).1
      rw [status_writeStep hv hl] at hstatus
      exact hdec hl hstatus.symm
    | _ => trivial
  · intro hC id s hs
    obtain ⟨s', hs', hset⟩ := h.row_after hp hC hs
    exact ⟨s', hs', hset.kept⟩

theorem Inv.final_iff (h : Inv st) (e : OfficeEvent) :
    Final st.store (serve st e).store ↔ WritesFresh st e := by
  cases e with
  | call p job =>
    refine ⟨fun _ => trivial, fun _ => ?_⟩
    simp only [serve]
    split
    · exact .refl _
    · exact .refl _
  | crash p => exact ⟨fun _ => trivial, fun _ => .refl _⟩
  | turn p =>
    simp only [serve, WritesFresh]
    cases hp : st.clients p with
    | none =>
      refine ⟨fun _ job ph heq => ?_, fun _ => .refl _⟩
      cases heq
    | some c =>
      obtain ⟨job, ph⟩ := c
      dsimp only
      rw [h.final_act_iff hp]
      refine ⟨fun hC job' ph' heq => ?_, fun hC => hC job ph rfl⟩
      cases heq
      exact hC

theorem Inv.serve (h : Inv st) {e : OfficeEvent} (hC : WritesFresh st e) : Inv (serve st e) := by
  cases e with
  | call p job =>
    simp only [Delegation.serve]
    split
    · intro q job' ph' hq
      rw [Office.clients_goOn] at hq
      split at hq
      · cases hq
        trivial
      · exact h q job' ph' hq
    · exact h
  | crash p =>
    intro q job' ph' hq
    simp only [Delegation.serve, Office.clients_leave] at hq
    split at hq
    · cases hq
    · rename_i hne
      have hat := h q job' ph' hq
      cases ph' with
      | locked tenantId bookingId w =>
        cases w with
        | none => trivial
        | some w =>
          obtain ⟨hpend, hlock, hrow⟩ := hat
          have hother : st.locks w.step.id ≠ some p := by simpa [hlock] using hne
          exact ⟨hpend, (if_neg hother).trans hlock, hrow⟩
      | _ => exact hat
  | turn p =>
    simp only [Delegation.serve]
    split
    · rename_i job ph hp
      exact h.act hp (hC job ph hp)
    · exact h

end Step

/-! ### Runs -/

/-- All along the run, a step that is decided at some point stays as it was decided then. -/
def DecidedFinal (st : Office) (es : List OfficeEvent) : Prop :=
  ∀ l m r, es = l ++ (m ++ r) → Final (run serve st l).store (run serve st (l ++ m)).store

theorem inv_opened (store : Store) : Inv (opened store) := by
  intro p job ph h
  cases h

/-- **Decided steps are final** in exactly the runs in which every delegation that writes the row of its step has
reloaded it while it was pending: whatever decisions, automatic approvals, sweeps of stale requests and delegations
run side by side, in whatever order their statements are executed, and wherever they die. -/
theorem decided_final_iff (store : Store) (es : List OfficeEvent) :
    DecidedFinal (opened store) es ↔ AllSteps serve WritesFresh (opened store) es := by
  have hsteps : AllSteps serve WritesFresh (opened store) es ↔
      AllSteps serve (fun st e => Final st.store (serve st e).store) (opened store) es :=
    allSteps_congr (I := Inv) (fun st e h => (h.final_iff e).symm) (fun st e h hC => h.serve hC) (inv_opened store)
  rw [hsteps]
  constructor
  · intro h
    refine allSteps_iff.2 fun l e r hes => ?_
    have hmove := h l [e] r hes
    rw [run_append] at hmove
    exact hmove
  · rintro h l m r rfl
    rw [run_append]
    exact run_related (I := fun _ => True) (R := fun (st st' : Office) => Final st.store st'.store)
      (fun st => .refl _) (fun _ _ _ => .trans) (fun _ _ _ _ => trivial) (fun _ _ _ hfinal => hfinal) trivial
      (allSteps_append.1 (allSteps_append.1 h).2).1

/-! ### An approval that is taken back -/

/-- A step that waits for `ann`. -/
def lead : ApprovalStep where
  id := "s"
  tenantId := "t"
  bookingId := "b"
  ruleId := none
  stepIndex := 0
  levelName := "lead"
  approverIds := ["ann"]
  createdAt := 0

def requested : Store := ⟨.empty, ⟨[lead], by decide⟩, []⟩

def ann : AuthUser := ⟨"ann", "t", Roles.roomAdmin, none⟩

def twoApprovers : Env :=
  office .empty ⟨[{ id := "bob", tenantId := "t", role := Roles.roomAdmin }], by decide⟩ .empty

def handOver : Job := ⟨twoApprovers, 60000, .delegate ann "b" "bob" ""⟩

def approve : Job := ⟨twoApprovers, 120000, .decide ann "b" ⟨.approved, none⟩⟩

/-- `ann` hands the step to `bob` in one window and approves it in another one: the delegation has read the chain, and
saves its entity when the approval is committed. -/
def twoWindows : List OfficeEvent :=
  [.call 0 handOver, .turn 0, .call 1 approve, .turn 1, .turn 1, .turn 0, .turn 0]

/-- The approved step is pending again, and nobody has decided it. -/
theorem not_final_twoWindows : ¬ DecidedFinal (opened requested) twoWindows := by
  intro h
  have happroved : ((run serve (opened requested) (twoWindows.take 5)).store.steps.find? "s").map
      (fun s => (s.status, s.decidedBy, s.decisionAt)) = some (.approved, some "ann", some 120000) := by decide
  have hpending : ((run serve (opened requested) twoWindows).store.steps.find? "s").map
      (fun s => (s.status, s.decidedBy, s.decisionAt)) = some (.pending, none, none) := by decide
  obtain ⟨s, hs, heq⟩ := Option.map_eq_some_iff.1 happroved
  obtain ⟨s', hs', heq'⟩ := Option.map_eq_some_iff.1 hpending
  obtain ⟨hst, -⟩ := Prod.mk.inj heq
  obtain ⟨hst', -⟩ := Prod.mk.inj heq'
  obtain ⟨s'', hs'', hkept⟩ := h (twoWindows.take 5) (twoWindows.drop 5) [] rfl "s" s hs
  obtain rfl := Option.some.inj (hs''.symm.trans hs')
  have hsame := (hkept (by rw [hst]; decide)).1
  rw [hst, hst'] at hsame
  cases hsame

end BookingSystem.Concurrency.Delegation
