import BookingSystem.Base.Outcome
import BookingSystem.Model.RequestTx
import BookingSystem.Service.Chains

/-!
# The two connections of a request

`RunInRequestTx` pins a transaction to a request. A repository that asks for the executor of the request writes in that
transaction and sees its rows; a repository that uses the pool writes on a connection of its own, where every statement
is durable at once and nothing of the open transaction is visible. `approval_steps` is written through the pool, and its
foreign key knows durable bookings only.
-/

namespace BookingSystem.Service

open Base
open Model (Uuid Instant BookingStatus)
open Model.RequestTx (TxFaults)

/-- A row of `booking_services`. -/
structure ServiceLine where
  bookingId : Uuid
  serviceId : Uuid
  quantity : ℤ
  notes : String := ""
  deriving DecidableEq, Repr

instance : Keyed ServiceLine (Uuid × Uuid) := ⟨fun l => (l.bookingId, l.serviceId)⟩

/-- The patterns of a series. -/
inductive Pattern
  | daily | weekly | biWeekly | monthly | other (text : String)
  deriving DecidableEq, Repr

/-- A row of `recurring_series`. -/
structure RecurringSeries where
  id : Uuid
  tenantId : Uuid
  resourceId : Uuid
  userId : Uuid
  pattern : Pattern
  startDate : Instant
  endDate : Instant
  timeStart : Instant
  timeEnd : Instant
  dayOfWeek : List ℤ := []
  dayOfMonth : ℤ := 0
  createdAt : Instant := 0
  deriving DecidableEq, Repr

/-- What is durable. -/
structure Rows where
  bookings : Table Booking
  lines : Table ServiceLine
  steps : Table Step
  series : List RecurringSeries := []

/-- The tables that the transaction of the request writes, as it sees them. -/
structure Pinned where
  bookings : Table Booking
  lines : Table ServiceLine

/-- A request at work: what is durable, its transaction and whether a statement has failed in it, the number of the
statements so far, and the steps that were saved. -/
structure Session where
  rows : Rows
  own : Pinned
  aborted : Bool := false
  ran : ℕ := 0
  saved : List Step := []

abbrev Req := Prog Session CallError

def Rows.pinned (r : Rows) : Pinned := ⟨r.bookings, r.lines⟩

/-! ### Statements -/

section statements

variable (broken : ℕ → Bool) {α : Type}

/-- A statement of the request's executor; `broken` says which statements fail by themselves. After a failure the
transaction takes no statement any more. -/
def exec (f : Pinned → Except CallError (α × Pinned)) : Req α := Prog.of fun s =>
  if s.aborted || broken s.ran then (.error .database, { s with aborted := true, ran := s.ran + 1 })
  else match f s.own with
    | .ok (a, own) => (.ok a, { s with own := own, ran := s.ran + 1 })
    | .error e => (.error e, { s with aborted := true, ran := s.ran + 1 })

def query (f : Pinned → α) : Req α := exec broken fun own => .ok (f own, own)

def poolQuery (x : Except CallError α) : Req α := Prog.of fun s =>
  (if broken s.ran then .error .database else x, { s with ran := s.ran + 1 })

/-- `BookingRepo.Save`: a row whose version has moved is no error of the statement. -/
def saveBooking (admits : Booking → Bool) (b : Booking) : Req Unit := do
  let current ← exec broken fun own =>
    if (own.bookings.find? b.id).any fun r => r.version != b.version then .ok (false, own)
    else (save admits own.bookings b).map fun t => (true, { own with bookings := t })
  Prog.lift (require current .concurrencyConflict)

def updateBookingStatus (admits : Booking → Bool) (id : Uuid) (status : BookingStatus) (notes : String) : Req Unit :=
  exec broken fun own =>
    (updateStatus admits own.bookings id status notes).map fun t => ((), { own with bookings := t })

def saveSeries (admitsSeries : RecurringSeries → Bool) (r : RecurringSeries) : Req Unit := Prog.of fun s =>
  if broken s.ran || !admitsSeries r then (.error .database, { s with ran := s.ran + 1 })
  else (.ok (), { s with rows := { s.rows with series := s.rows.series ++ [r] }, ran := s.ran + 1 })

def attach (t : Table ServiceLine) (l : ServiceLine) : Table ServiceLine :=
  (t.insert? l).getD (t.save l)

def addServiceToBooking (admitsLine : ServiceLine → Bool) (l : ServiceLine) : Req Unit :=
  exec broken fun own => do
    require (own.bookings.find? l.bookingId).isSome .database
    require (admitsLine l) .database
    pure ((), { own with lines := attach own.lines l })

/-- `ApprovalStepRepo.Save`: nothing happens if the booking has a step of that index; else the booking must be known to
the connection. -/
def saveStep (admitsStep : Step → Bool) (st : Step) : Req Unit := Prog.of fun s =>
  let result : Except CallError Rows := do
    require (!broken s.ran) .database
    if s.rows.steps.rows.any fun r => r.bookingId == st.bookingId && r.stepIndex == st.stepIndex then pure s.rows
    else do
      require (s.rows.bookings.find? st.bookingId).isSome .database
      require (admitsStep st) .database
      let steps ← found (s.rows.steps.insert? st) .database
      pure { s.rows with steps := steps }
  match result with
  | .ok rows => (.ok (), { s with rows := rows, ran := s.ran + 1, saved := s.saved ++ [st] })
  | .error e => (.error e, { s with ran := s.ran + 1 })

end statements

/-- `RunInRequestTx`: what is durable afterwards. The body tells whether it returned without an error. -/
def runInRequestTx (faults : TxFaults) (body : Session → Bool × Session) (rows : Rows) : Rows :=
  if faults.begin || faults.setTenant || faults.setUser then rows
  else
    let r := body { rows := rows, own := rows.pinned }
    if !r.1 || faults.commit || r.2.aborted then r.2.rows
    else { r.2.rows with bookings := r.2.own.bookings, lines := r.2.own.lines }

theorem runInRequestTx_cases (faults : TxFaults) (body : Session → Bool × Session) (rows : Rows) :
    runInRequestTx faults body rows = rows ∨
      runInRequestTx faults body rows = (body { rows := rows, own := rows.pinned }).2.rows ∨
      (body { rows := rows, own := rows.pinned }).1 = true ∧
        (body { rows := rows, own := rows.pinned }).2.aborted = false ∧
        runInRequestTx faults body rows = { (body { rows := rows, own := rows.pinned }).2.rows with
          bookings := (body { rows := rows, own := rows.pinned }).2.own.bookings
          lines := (body { rows := rows, own := rows.pinned }).2.own.lines } := by
  unfold runInRequestTx
  split
  · exact .inl rfl
  · right
    dsimp only
    split
    · exact .inl rfl
    · rename_i hcommit
      simp only [Bool.or_eq_true, not_or, Bool.not_eq_true, Bool.not_eq_false'] at hcommit
      exact .inr ⟨hcommit.1.1, hcommit.2, rfl⟩

/-! ### Rules for the statements -/

section rules

variable {broken : ℕ → Bool} {α : Type} {P : Session → Prop} {E : CallError → Session → Prop}

theorem triple_exec {f : Pinned → Except CallError (α × Pinned)} {Q : α → Session → Prop}
    (hok : ∀ s a own, P s → f s.own = .ok (a, own) → Q a { s with own := own, ran := s.ran + 1 })
    (hfail : ∀ s e, P s → E e { s with aborted := true, ran := s.ran + 1 }) : Prog.Triple P (exec broken f) Q E := by
  refine Prog.triple_of fun s hs => ?_
  split
  · refine ⟨nofun, fun e he => ?_⟩
    obtain rfl := Except.error.inj he
    exact hfail s _ hs
  · split
    · rename_i a own hf
      refine ⟨fun a' ha => ?_, nofun⟩
      obtain rfl := Except.ok.inj ha
      exact hok s a own hs hf
    · rename_i e hf
      refine ⟨nofun, fun e' he => ?_⟩
      obtain rfl := Except.error.inj he
      exact hfail s _ hs

theorem triple_query {f : Pinned → α} {Q : α → Session → Prop}
    (hok : ∀ s, P s → Q (f s.own) { s with ran := s.ran + 1 })
    (hfail : ∀ s e, P s → E e { s with aborted := true, ran := s.ran + 1 }) : Prog.Triple P (query broken f) Q E :=
  triple_exec (fun s a own hs h => by
    obtain ⟨rfl, rfl⟩ := Prod.mk.inj (Except.ok.inj h)
    exact hok s hs) hfail

theorem triple_poolQuery {x : Except CallError α} {Q : α → Session → Prop}
    (hok : ∀ s a, P s → x = .ok a → Q a { s with ran := s.ran + 1 })
    (hfail : ∀ s e, P s → E e { s with ran := s.ran + 1 }) : Prog.Triple P (poolQuery broken x) Q E := by
  refine Prog.triple_of fun s hs => ⟨fun a ha => ?_, fun e he => hfail s e hs⟩
  split at ha
  · cases ha
  · exact hok s a hs ha

theorem triple_saveStep {admitsStep : Step → Bool} {st : Step} {Q : Unit → Session → Prop}
    (hunknown : ∀ s, P s → s.rows.bookings.find? st.bookingId = none)
    (hnone : ∀ s, P s → ∀ r ∈ s.rows.steps.rows, r.bookingId ≠ st.bookingId)
    (hfail : ∀ s e, P s → E e { s with ran := s.ran + 1 }) : Prog.Triple P (saveStep broken admitsStep st) Q E := by
  refine Prog.triple_of fun s hs => ?_
  have hany : (s.rows.steps.rows.any fun r => r.bookingId == st.bookingId && r.stepIndex == st.stepIndex) = false := by
    refine List.any_eq_false.2 fun r hr => ?_
    simp [hnone s hs r hr]
  simp only [hany, hunknown s hs]
  split
  · rename_i rows hresult
    simp [bind_eq_ok] at hresult
  · exact ⟨(fun a ha => by cases ha), fun e he => hfail s e hs⟩

end rules

end BookingSystem.Service
