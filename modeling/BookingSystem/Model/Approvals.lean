import BookingSystem.Model.Entities
import BookingSystem.Base.Outcome
import Mathlib.Data.List.Sort

/-!
# `ApprovalsService`

The approval chain of a booking: the rules (`saveRule`) and the one that applies to a room (`matchRule`), the steps
written from it (`materialize`), the step a user may act on (`firstActionableIndex`), the decisions (`decide`,
`runDueAutoApprovals`, `sweepStaleApprovals`), the hand-off (`delegate`) and the approver's inbox
(`listPendingForApprover`).
-/

namespace BookingSystem.Model.ApprovalsService

open Base

/-! ### Rules -/

/-- `RuleDto`: the rule an administrator sends, once the request is validated. The indices in `dependencies` are
integers, and no more is asked of them. -/
structure RuleDto where
  name : String
  scopeType : ApprovalScopeType
  scopeValue : Option String := none
  priority : Option ℤ := none
  isActive : Option Bool := none
  levels : List ApprovalLevel
  priority_min : ∀ p ∈ priority, 1 ≤ p := by simp
  levels_max : levels.length ≤ 20 := by decide
  hours_min : ∀ lvl ∈ levels, 0 ≤ lvl.autoAfterHours := by decide

/-- The row of a rule; `old` is the stored one. -/
def savedRule (old : Option ApprovalRule) (tenantId id : Uuid) (payload : RuleDto) : ApprovalRule :=
  { id
    tenantId
    name := payload.name
    scopeType := payload.scopeType
    scopeValue := payload.scopeValue.getD ((old.map (·.scopeValue)).getD "")
    priority := (payload.priority.filter (0 < ·)).getD 100
    levels := payload.levels
    isActive := payload.isActive.getD true }

/-- Writes a rule, over the one with the id if the request has one. -/
def saveRule (rules : Table ApprovalRule) (tenantId : Uuid) (id : Option Uuid) (payload : RuleDto) (newId : Uuid) :
    Table ApprovalRule × ApprovalRule :=
  let rule := savedRule (id.bind rules.find?) tenantId (id.getD newId) payload
  (rules.put rule, rule)

def scopeMatches (type : ApprovalScopeType) (value : String) (res : Resource) : Bool :=
  match type with
  | .resource => res.id == value
  | .assetType => res.assetType == value
  | .department => res.departmentId.getD "" == value
  | .tenant => value == ""

/-- The first active rule of the tenant, by priority, whose scope the resource falls in. -/
def matchRule (env : Env) (tenantId : Uuid) (res : Resource) : Option ApprovalRule :=
  let all := (env.rules.rows.filter fun r => r.tenantId == tenantId && r.isActive).insertionSort
    fun r r' => r.priority ≤ r'.priority
  all.find? fun r => scopeMatches r.scopeType r.scopeValue res

/-- The approver ids and the approver role a level puts on its step. -/
def resolveLevelApprovers (lvl : ApprovalLevel) (managerId headUserId : Option Uuid) : List Uuid × String :=
  match lvl.approverType with
  | some .manager => (managerId.toList, "")
  | some .departmentHead => (headUserId.toList, "")
  | some .role => ([], lvl.approverRole)
  | some .user | none => (lvl.approverUserIds, lvl.approverRole)

/-- The step a level becomes on a booking. -/
def levelStep (booking : Booking) (rule : ApprovalRule) (managerId headUserId : Option Uuid) (now : Instant)
    (newId : ℕ → Uuid) (lvl : ApprovalLevel) (i : ℕ) : ApprovalStep :=
  { id := newId i
    tenantId := booking.tenantId
    bookingId := booking.id
    ruleId := some rule.id
    stepIndex := i
    levelName := lvl.name
    approverIds := (resolveLevelApprovers lvl managerId headUserId).1
    approverRole := (resolveLevelApprovers lvl managerId headUserId).2
    minGrade := lvl.minGrade
    status := .pending
    dueAt := if 0 < lvl.autoAfterHours then some (now + lvl.autoAfterHours * 3600000) else none
    createdAt := now }

/-- The rows `materialize` writes for a booking under a rule. -/
def chainRows (env : Env) (now : Instant) (newId : ℕ → Uuid) (booking : Booking) (res : Resource)
    (rule : ApprovalRule) : List ApprovalStep :=
  let managerId :=
    if rule.levels.any (·.approverType == some .manager) then
      (env.user booking.tenantId booking.userId).bind (·.managerId)
    else none
  let headUserId :=
    if rule.levels.any (·.approverType == some .departmentHead) then
      res.departmentId.bind fun d => (env.department booking.tenantId d).bind (·.headUserId)
    else none
  rule.levels.mapIdx fun i lvl => levelStep booking rule managerId headUserId now newId lvl i

/-- Writes the chain of a booking; the result is the number of its steps, `0` for none. -/
def materialize (env : Env) (now : Instant) (newId : ℕ → Uuid) (booking : Booking) (st : Store) :
    Except HttpError (Store × ℕ) :=
  match env.resource booking.tenantId booking.resourceId with
  | none => .ok (st, 0)
  | some res =>
    match matchRule env booking.tenantId res with
    | none => .ok (st, 0)
    | some rule =>
      if rule.levels.isEmpty then .ok (st, 0)
      else
        match st.steps.insertAll? (chainRows env now newId booking res rule) with
        | some steps => .ok ({ st with steps }, rule.levels.length)
        | none => .error (.internal "duplicate key value violates unique constraint")

/-! ### Who may decide -/

def grades : List String := ["SO", "SSO", "ADO", "DO", "SDO", "ADD", "DDGFS", "DGFS"]

def rank (grade : String) : ℕ :=
  match grades.findIdx? (· == grade) with
  | some i => (i + 1) * 10
  | none => 0

def gradeAtLeast (actual : Option String) (required : String) : Bool :=
  required == "" || rank required ≤ rank (actual.getD "")

def canDecideStep (env : Env) (step : ApprovalStep) (user : AuthUser) : Bool :=
  if step.approverIds.contains user.id then gradeAtLeast user.grade step.minGrade
  else if step.approverRole != "" && env.toLowerCase step.approverRole == env.toLowerCase user.role then
    gradeAtLeast user.grade step.minGrade
  else user.role == Roles.systemAdmin && step.approverIds.isEmpty && step.approverRole == ""

def canDecideLegacy (user : AuthUser) (booking : Booking) : Bool :=
  booking.delegatedTo == some user.id || isAdmin user.role

/-! ### The step a user may act on -/

def isDone (s : ApprovalStep) : Bool := s.status == .approved || s.status == .skipped

/-- The steps a step waits for: the level's own list, else the step before it. -/
def depsOf (rule : Option ApprovalRule) (i : ℕ) : List ℤ :=
  let linear : List ℤ := if i = 0 then [] else [(i : ℤ) - 1]
  match rule.bind (·.levels[i]?) with
  | some lvl => if lvl.dependencies.isEmpty then linear else lvl.dependencies
  | none => linear

def stepAt (steps : List ApprovalStep) (d : ℤ) : Option ApprovalStep :=
  if 0 ≤ d then steps[d.toNat]? else none

/-- Every step the `i`-th one waits for is approved or skipped. -/
def depsDone (steps : List ApprovalStep) (rule : Option ApprovalRule) (i : ℕ) : Bool :=
  (depsOf rule i).all fun d => (stepAt steps d).any isDone

/-- The test of the loop of `firstActionableIndex`. -/
def actionable (env : Env) (steps : List ApprovalStep) (rule : Option ApprovalRule) (user : AuthUser)
    (s : ApprovalStep) (i : ℕ) : Bool :=
  s.status == .pending && depsDone steps rule i && canDecideStep env s user

def firstActionableIndex (env : Env) (steps : List ApprovalStep) (rule : Option ApprovalRule) (user : AuthUser) :
    Option ℕ :=
  (List.range steps.length).find? fun i =>
    (steps[i]?).any fun s => actionable env steps rule user s i

/-! ### Decisions -/

structure DecideInput where
  status : ApprovalDecision
  reason : Option String := none

def lockChain (st : Store) (tenantId bookingId : Uuid) : List ApprovalStep :=
  (st.steps.rows.filter fun s => s.tenantId == tenantId && s.bookingId == bookingId).insertionSort
    fun s s' => s.stepIndex ≤ s'.stepIndex

/-- The rule of a chain, `null` when it is gone. -/
def chainRule (env : Env) (steps : List ApprovalStep) : Option ApprovalRule :=
  (steps.head?.bind (·.ruleId)).bind env.rules.find?

/-- `bookings.update({ id, tenantId }, …)`. -/
def updateBooking (st : Store) (tenantId bookingId : Uuid) (f : Booking → Booking)
    (hf : ∀ b : Booking, (f b).id = b.id := by intro _; rfl) : Store :=
  { st with
    bookings := st.bookings.update (fun b => b.id == bookingId && b.tenantId == tenantId) f hf }

/-- Whether a decision confirmed or rejected the booking. -/
structure Outcome where
  confirmed : Bool
  rejected : Bool
  deriving DecidableEq, Repr

/-- The step row after a decision; a system decision leaves `decidedBy` as it is stored. -/
def decidedStep (now : Instant) (input : DecideInput) (actorId : Option Uuid) (step : ApprovalStep) :
    ApprovalStep :=
  { step with
    status := input.status.stepStatus
    decidedBy := actorId.or step.decidedBy
    decisionAt := some now
    reason := input.reason.getD "" }

/-- The test of `commitStepDecision`: with this step approved, the chain is complete. -/
def allDone (steps : List ApprovalStep) (step : ApprovalStep) : Bool :=
  steps.all fun s => s.id == step.id || isDone s

def commitStepDecision (now : Instant) (tenantId bookingId : Uuid) (steps : List ApprovalStep)
    (step : ApprovalStep) (input : DecideInput) (actorId : Option Uuid) (st : Store) : Store × Outcome :=
  let st := { st with steps := st.steps.save (decidedStep now input actorId step) }
  match input.status with
  | .rejected =>
    (updateBooking st tenantId bookingId fun b =>
      { b with
        status := .cancelled
        exceptionNotes := "Rejected at " ++ step.levelName ++ ": " ++ input.reason.getD "" },
      ⟨false, true⟩)
  | .approved =>
    if allDone steps step then
      (updateBooking st tenantId bookingId fun b => { b with status := .confirmed }, ⟨true, false⟩)
    else (st, ⟨false, false⟩)

def recordApprovalAudit (now : Instant) (tenantId bookingId : Uuid) (approverId : Option Uuid)
    (input : DecideInput) (st : Store) : Store :=
  { st with
    approvals := st.approvals ++ [⟨tenantId, bookingId, approverId, input.status, input.reason.getD "", now⟩] }

/-- The single-level decision on a booking without a chain. -/
def decideLegacyTx (user : AuthUser) (bookingId : Uuid) (input : DecideInput) (st : Store) :
    Except HttpError Store := do
  let b ← found (findBooking st.bookings user.tenantId bookingId) (.notFound "booking not found")
  require (canDecideLegacy user b) (.forbidden "Forbidden")
  require (b.status == .pendingApproval || b.status == .confirmed)
    (.badRequest "booking is not pending approval")
  match input.status with
  | .approved =>
    if b.status == .pendingApproval then pure { st with bookings := st.bookings.save { b with status := .confirmed } }
    else pure st
  | .rejected =>
    pure { st with
      bookings := st.bookings.save
        { b with status := .cancelled, exceptionNotes := "Rejected: " ++ input.reason.getD "" } }

structure DecideResult where
  status : ApprovalDecision
  chained : Bool
  deriving DecidableEq, Repr

/-- A decision of `user`: on the first step of the chain the user may act on, or on a booking without a chain. -/
protected def decide (env : Env) (now : Instant) (user : AuthUser) (bookingId : Uuid) (input : DecideInput)
    (st : Store) : Except HttpError (Store × DecideResult) := do
  require (input.status == .approved || trim (input.reason.getD "") != "")
    (.badRequest "reason required for rejection")
  let steps := lockChain st user.tenantId bookingId
  if steps.isEmpty then
    let st ← decideLegacyTx user bookingId input st
    pure (recordApprovalAudit now user.tenantId bookingId (some user.id) input st, ⟨input.status, false⟩)
  else
    let i ← found (firstActionableIndex env steps (chainRule env steps) user)
      (.forbidden "no actionable approval step for this user")
    let step ← found steps[i]? (.internal "no such step")
    let (st, _) := commitStepDecision now user.tenantId bookingId steps step input (some user.id) st
    pure (recordApprovalAudit now user.tenantId bookingId (some user.id) input st, ⟨input.status, true⟩)

/-! ### The sweeps -/

def autoInput : DecideInput := ⟨.approved, some "Auto-approved by system policy"⟩

/-- `none` when there is nothing to do: the step is gone, already decided, or not due. -/
def autoApproveStep (now : Instant) (tenantId bookingId stepId : Uuid) (st : Store) : Option (Store × Outcome) := do
  let steps := lockChain st tenantId bookingId
  let step ← steps.find? (·.id == stepId)
  guard (step.status = .pending)
  let due ← step.dueAt
  guard (due ≤ now)
  let (st, res) := commitStepDecision now tenantId bookingId steps step autoInput none st
  pure (recordApprovalAudit now tenantId bookingId none autoInput st, res)

def dueSteps (now : Instant) (st : Store) : List ApprovalStep :=
  (st.steps.rows.filter fun s => s.status == .pending && s.dueAt.any (· ≤ now)).insertionSort
    fun s s' => s.createdAt ≤ s'.createdAt

/-- One turn of the loop of `runDueAutoApprovals`. -/
def autoApproveTurn (now : Instant) (st : Store) (s : ApprovalStep) : Store :=
  match autoApproveStep now s.tenantId s.bookingId s.id st with
  | some (st', _) => st'
  | none => st

def runDueAutoApprovals (now : Instant) (st : Store) : Store :=
  (dueSteps now st).foldl (autoApproveTurn now) st

def staleNote : String := "Auto-rejected: approver did not act before the meeting start time"

/-- Cancels a booking that is still pending, and closes its pending steps. -/
def autoRejectStale (now : Instant) (tenantId bookingId : Uuid) (st : Store) : Store :=
  match findBooking st.bookings tenantId bookingId with
  | some b =>
    if b.status == .pendingApproval then
      { st with
        bookings := st.bookings.save { b with status := .cancelled, exceptionNotes := staleNote }
        steps := st.steps.update
          (fun s => s.tenantId == tenantId && s.bookingId == bookingId && s.status == .pending)
          (fun s => { s with status := .rejected, reason := staleNote, decisionAt := some now }) }
    else st
  | none => st

def staleBookings (now : Instant) (st : Store) : List Booking :=
  ((st.bookings.rows.filter fun b => b.status == .pendingApproval && b.startTime < now).insertionSort
    fun b b' => b.startTime ≤ b'.startTime).take 1000

def sweepStaleApprovals (now : Instant) (st : Store) : Store :=
  (staleBookings now st).foldl (fun st b => autoRejectStale now b.tenantId b.id st) st

/-! ### Delegation -/

def approvalDecide : String := "approval.decide"

/-- The built-in permissions to decide approvals, for roles the tenant has no stored row for. -/
def defaultDeciders : List String :=
  [Roles.systemAdmin, Roles.securityAdmin, Roles.roomAdmin, Roles.secretary]

/-- `permissions.hasPermission(tenantId, role, 'approval.decide')`. -/
def mayApprove (env : Env) (tenantId : Uuid) (role : String) : Bool :=
  match env.rolePermissions.find? fun p => p.tenantId == tenantId && p.role == role with
  | some p => p.permissions.contains approvalDecide
  | none => defaultDeciders.contains role

def assertEligibleDelegate (env : Env) (tenantId toUserId : Uuid) : Except HttpError Unit := do
  let target ← found (env.user tenantId toUserId)
    (.badRequest "Selected user is not an active member of this tenant.")
  require target.isActive (.badRequest "Selected user is not an active member of this tenant.")
  require (mayApprove env tenantId target.role)
    (.badRequest ("Selected user cannot approve bookings (their role has no approval permission). " ++
      "Pick an eligible approver."))

def delegationNote (user : AuthUser) (toUserId : Uuid) (reason : String) : String :=
  "Delegated " ++ user.id ++ " → " ++ toUserId ++ (if reason = "" then "" else " (" ++ reason ++ ")")

def addNote (notes note : String) : String := if notes = "" then note else notes ++ " · " ++ note

/-- The pending step after it was handed to `toUserId`. -/
def delegatedStep (now : Instant) (user : AuthUser) (toUserId : Uuid) (reason : String) (step : ApprovalStep) :
    ApprovalStep :=
  { step with
    delegatedTo := some toUserId
    delegatedBy := some user.id
    delegatedAt := some now
    approverIds := if step.approverIds.contains toUserId then step.approverIds else step.approverIds ++ [toUserId]
    reason := addNote step.reason (delegationNote user toUserId reason) }

/-- Hands the first pending step of the chain, or a booking without a chain, to another user. -/
def delegate (env : Env) (now : Instant) (user : AuthUser) (bookingId toUserId : Uuid) (reason : String)
    (st : Store) : Except HttpError (Store × Unit) := do
  require (toUserId != "") (.badRequest "to_user_id required")
  assertEligibleDelegate env user.tenantId toUserId
  let steps := lockChain st user.tenantId bookingId
  match steps.find? (·.status == .pending) with
  | some pending =>
    require (canDecideStep env pending user || isAdmin user.role)
      (.forbidden "You are not authorized to delegate this step.")
    pure ({ st with steps := st.steps.save (delegatedStep now user toUserId reason pending) }, ())
  | none =>
    require steps.isEmpty (.badRequest "approval chain is already decided")
    let b ← found (findBooking st.bookings user.tenantId bookingId) (.notFound "booking not found")
    require (b.status == .pendingApproval) (.badRequest "booking is not pending approval")
    require (canDecideLegacy user b) (.forbidden "You are not authorized to delegate this booking.")
    let b' := { b with
      delegatedTo := some toUserId
      exceptionNotes := addNote b.exceptionNotes (delegationNote user toUserId reason) }
    pure ({ st with bookings := st.bookings.save b' }, ())

/-! ### The inbox -/

def withPendingStep (st : Store) (tenantId : Uuid) : List Uuid :=
  ((st.steps.rows.filter fun s => s.tenantId == tenantId && s.status == .pending).map (·.bookingId)).eraseDups

/-- The bookings the user can act on right now: those whose chain has a step for the user, and the pending ones
without a pending step that the user may decide in one go. -/
def actionableIds (env : Env) (user : AuthUser) (st : Store) : List Uuid :=
  let chained := withPendingStep st user.tenantId
  (chained.filter fun bookingId =>
    let steps := lockChain st user.tenantId bookingId
    (firstActionableIndex env steps (chainRule env steps) user).isSome) ++
  (st.bookings.rows.filter fun b =>
    b.tenantId == user.tenantId && b.status == .pendingApproval && !chained.contains b.id &&
      canDecideLegacy user b).map (·.id)

/-- A booking in the inbox, with the names of its requester and of the one it is handed to. -/
structure InboxEntry where
  booking : Booking
  userName : Option String
  delegatedToName : Option String

def listPendingForApprover (env : Env) (user : AuthUser) (st : Store) : List InboxEntry :=
  let ids := actionableIds env user st
  let list := (st.bookings.rows.filter fun b => ids.contains b.id && b.tenantId == user.tenantId).insertionSort
    fun b b' => b.startTime ≤ b'.startTime
  let nameOf := fun id => (env.user user.tenantId id).map (·.username)
  let delegateOf := fun (b : Booking) =>
    (((lockChain st user.tenantId b.id).find? (·.status == .pending)).bind (·.delegatedTo)).or b.delegatedTo
  list.map fun b => ⟨b, nameOf b.userId, (delegateOf b).bind nameOf⟩

end BookingSystem.Model.ApprovalsService
