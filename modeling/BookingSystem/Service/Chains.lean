import BookingSystem.Service.Validator

/-!
# Approval chains

`ApprovalChainUseCase`: a rule is matched to the resource and its levels are written as steps; `Decide` looks for the
first pending step whose dependencies are done and which the user may decide, and tells from the steps that it has read
whether the chain is complete. The rules and the steps are read and written through the pool.
-/

namespace BookingSystem.Service

open Base
open Model (Uuid Instant BookingStatus)

/-- One tier of a rule. -/
structure Level where
  name : String
  approverUserIds : List Uuid := []
  approverRole : String := ""
  minGrade : String := ""
  autoAfterHours : ℤ := 0
  dependencies : List ℤ := []
  deriving DecidableEq, Repr

/-- What a rule applies to; any other text matches nothing. -/
inductive ScopeType
  | resource | assetType | department | tenant | other
  deriving DecidableEq, Repr

structure Rule where
  id : Uuid
  tenantId : Uuid
  scopeType : ScopeType
  scopeValue : String := ""
  levels : List Level
  isActive : Bool := true
  deriving DecidableEq, Repr

inductive StepStatus
  | pending | approved | rejected | skipped
  deriving DecidableEq, Repr

def StepStatus.done (s : StepStatus) : Bool := s == .approved || s == .skipped

/-- A row of `approval_steps`. -/
structure Step where
  id : Uuid
  tenantId : Uuid
  bookingId : Uuid
  ruleId : String
  stepIndex : ℕ
  levelName : String
  approverIds : List Uuid := []
  approverRole : String := ""
  minGrade : String := ""
  status : StepStatus
  decidedBy : String := ""
  decisionAt : Option Instant := none
  reason : String := ""
  dueAt : Option Instant := none
  createdAt : Instant := 0
  deriving DecidableEq, Repr

instance : Keyed Step Uuid := ⟨Step.id⟩

@[simp] theorem key_step (s : Step) : (key s : Uuid) = s.id := rfl

/-! ### Writing the steps of a booking -/

/-- `matches`. -/
def Rule.applies (r : Rule) (res : Resource) : Bool :=
  match r.scopeType with
  | .resource => res.id == r.scopeValue
  | .assetType => res.assetType == r.scopeValue
  | .department => res.departmentId == r.scopeValue
  | .tenant => r.scopeValue == ""
  | .other => false

def matchRule (rules : List Rule) (res : Resource) : Option Rule := rules.find? fun r => r.isActive && r.applies res

/-- The step that `Materialize` writes for a level. -/
def stepFor (tenantId bookingId : Uuid) (rule : Rule) (now : Instant) (id : Uuid) (i : ℕ) (lvl : Level) : Step where
  id := id
  tenantId := tenantId
  bookingId := bookingId
  ruleId := rule.id
  stepIndex := i
  levelName := lvl.name
  approverIds := lvl.approverUserIds
  approverRole := lvl.approverRole
  minGrade := lvl.minGrade
  status := .pending
  dueAt := if 0 < lvl.autoAfterHours then some (now + lvl.autoAfterHours * 3600000) else none
  createdAt := now

/-- The steps of a booking, in the order of the levels; `newId` draws an id for each. -/
def stepsFor (tenantId bookingId : Uuid) (rule : Rule) (now : Instant) (newId : ℕ → Uuid) : List Step :=
  rule.levels.zipIdx.map fun p => stepFor tenantId bookingId rule now (newId p.2) p.2 p.1

/-! ### Who may decide -/

def gradeRanks : List (String × ℕ) :=
  [("", 0), ("SO", 10), ("SSO", 20), ("ADO", 25), ("DO", 30), ("SDO", 40), ("ADD", 50), ("DDGFS", 60), ("DGFS", 70)]

def gradeRank (s : Strings) (grade : String) : ℕ :=
  ((gradeRanks.find? fun p => p.1 == s.toUpper (s.trimSpace grade)).map Prod.snd).getD 0

def gradeAtLeast (s : Strings) (actual required : String) : Bool :=
  s.trimSpace required == "" || decide (gradeRank s required ≤ gradeRank s actual)

/-- `canDecide`. -/
def canDecide (s : Strings) (st : Step) (u : User) : Bool :=
  if u.id ∈ st.approverIds then gradeAtLeast s u.grade st.minGrade
  else if st.approverRole != "" && s.equalFold st.approverRole u.role then gradeAtLeast s u.grade st.minGrade
  else u.role == "System Admin" && st.approverIds.isEmpty && st.approverRole == ""

/-! ### Deciding -/

def dependenciesOf (rule : Option Rule) (idx : ℕ) : List ℤ :=
  ((rule.bind fun r => r.levels[idx]?).map Level.dependencies).getD []

/-- `depsSatisfied`: the dependencies are done; without any, the step before is. -/
def depsSatisfied (rule : Option Rule) (steps : List Step) (idx : ℕ) : Bool :=
  if dependenciesOf rule idx = [] then
    match idx with
    | 0 => true
    | prev + 1 => (steps[prev]?).any fun s => s.status.done
  else (dependenciesOf rule idx).all fun d =>
    decide (0 ≤ d) && ((steps[d.toNat]?).any fun s => s.status.done)

def actionable (s : Strings) (rule : Option Rule) (steps : List Step) (decider : User) : Option Step :=
  (steps.zipIdx.find? fun p => p.1.status == .pending && depsSatisfied rule steps p.2 && canDecide s p.1 decider).map
    Prod.fst

def othersDone (steps : List Step) (decided : Uuid) : Bool := steps.all fun s => s.id == decided || s.status.done

/-- What an approver can choose. -/
inductive Decision
  | approved | rejected
  deriving DecidableEq, Repr

def Decision.status : Decision → StepStatus
  | .approved => .approved
  | .rejected => .rejected

/-- `ListByBooking`, in the order of the steps. -/
def listByBooking (steps : Table Step) (bookingId : Uuid) : List Step :=
  (steps.rows.filter fun s => decide (s.bookingId = bookingId)).mergeSort fun a b => decide (a.stepIndex ≤ b.stepIndex)

/-- `UpdateDecision`: whatever the status of the step is by now. -/
def updateDecision (steps : Table Step) (id : Uuid) (d : Decision) (decidedBy reason : String) (now : Instant) :
    Table Step :=
  steps.update (fun s => decide (s.id = id)) fun s =>
    { s with status := d.status, decidedBy := decidedBy, reason := reason, decisionAt := some now }

/-- `rules.Get`; an error is logged and the chain taken for a linear one. -/
def ruleOf (rules : List Rule) (steps : List Step) : Option Rule :=
  match steps with
  | [] => none
  | s :: _ => if s.ruleId = "" then none else rules.find? fun r => r.id == s.ruleId

/-- The step that `Decide` picks from the steps it has read. -/
def pick (s : Strings) (rules : List Rule) (steps : List Step) (decider : User) : Except CallError Step := do
  require (!steps.isEmpty) (.rejected "no chain on this booking")
  found (actionable s (ruleOf rules steps) steps decider) (.rejected "no actionable approval step for this user")

/-- The update of the booking after a step of those that were read was decided, if there is one: a rejection cancels it,
an approval confirms it when all other steps were done. -/
def verdict (steps : List Step) (picked : Step) (reason : String) : Decision → Option (BookingStatus × String)
  | .rejected => some (.cancelled, "Rejected at " ++ picked.levelName ++ ": " ++ reason)
  | .approved => if othersDone steps picked.id then some (.confirmed, "") else none

/-- What `Decide` does with the booking. -/
def afterDecision (admits : Booking → Bool) (t : Table Booking) (bookingId : Uuid) (steps : List Step) (picked : Step)
    (d : Decision) (reason : String) : Except CallError (Table Booking) :=
  match verdict steps picked reason d with
  | some (status, notes) => updateStatus admits t bookingId status notes
  | none => pure t

end BookingSystem.Service
