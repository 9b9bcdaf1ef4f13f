import BookingSystem.Base.Savepoint

/-!
# `WithTenantTx` and `RunInRequestTx`

Every request of the Go service runs in one transaction. The handler is a program of statements on it, each of which
may fail by itself and after which the handler may go on or stop; it writes its status and its body when it likes, and
the recorder passes the first status on at once. An audit entry is saved inside a savepoint, and an error of it is
logged and ignored. After the handler the transaction is committed unless the status is 500 or above.
-/

namespace BookingSystem.Model.RequestTx

open Base

variable {ω : Type}

/-- The statements of `auditRepo.Save` that fail by themselves. -/
structure AuditFaults where
  savepoint : Bool := false
  lookup : Bool := false
  insert : Bool := false
  release : Bool := false
  rollback : Bool := false
  deriving DecidableEq, Repr

/-- What a handler does: a statement on the request executor with the row that it writes, if it writes one, and what
comes after it when it went through and when it failed; `auditlog.Record` with the row of the entry; the writer's
`WriteHeader` and `Write`. -/
inductive Handler (ω : Type)
  | done
  | stmt (w : Option ω) (broken : Bool) (next : Bool → Handler ω)
  | record (w : ω) (faults : AuditFaults) (next : Handler ω)
  | writeHeader (code : ℕ) (next : Handler ω)
  | write (next : Handler ω)

/-- The pinned transaction with the number of its last savepoint, and the status recorder; `kept` are the rows of the
statements that went through, as the handler knows them. -/
structure Conn (ω : Type) where
  tx : Tx ℕ ω := {}
  savepointNum : ℕ := 0
  status : ℕ := 200
  wroteHeader : Bool := false
  kept : List ω := []

def Conn.exec (c : Conn ω) (broken : Bool) (s : Statement ℕ ω) : Conn ω × Bool :=
  let r := c.tx.exec broken s
  ({ c with tx := r.1 }, r.2)

def statement : Option ω → Statement ℕ ω
  | some w => .write w
  | none => .read

def saveOnExecutor (f : AuditFaults) (w : ω) (c : Conn ω) : Conn ω × Bool :=
  let found := c.exec f.lookup .read
  if found.2 then found.1.exec f.insert (.write w) else found

/-- `auditRepo.Save` inside the request transaction, and whether it returned no error. -/
def save (f : AuditFaults) (w : ω) (c : Conn ω) : Conn ω × Bool :=
  let c := { c with savepointNum := c.savepointNum + 1 }
  let begun := c.exec f.savepoint (.savepoint c.savepointNum)
  if begun.2 then
    let saved := saveOnExecutor f w begun.1
    if saved.2 then saved.1.exec f.release (.release c.savepointNum)
    else ((saved.1.exec f.rollback (.rollbackTo c.savepointNum)).1, false)
  else begun

namespace Handler

/-- The connection after the handler. -/
def run : Handler ω → Conn ω → Conn ω
  | .done, c => c
  | .stmt w broken next, c =>
    let r := c.exec broken (statement w)
    (next r.2).run (if r.2 then { r.1 with kept := r.1.kept ++ w.toList } else r.1)
  | .record w f next, c =>
    let r := save f w c
    next.run (if r.2 then { r.1 with kept := r.1.kept ++ [w] } else r.1)
  | .writeHeader code next, c =>
    next.run (if c.wroteHeader then c else { c with status := code, wroteHeader := true })
  | .write next, c => next.run { c with wroteHeader := true }

end Handler

/-- The statements of the middleware itself that fail. -/
structure TxFaults where
  begin : Bool := false
  setTenant : Bool := false
  setUser : Bool := false
  commit : Bool := false
  deriving DecidableEq, Repr

/-- The status the client receives, the rows that are durable, and the rows that the handler has written. -/
structure Response (ω : Type) where
  status : ℕ
  durable : List ω
  kept : List ω

/-- A request that cannot begin answers 500. A handler that reports 500 or above is rolled back. Else the transaction is
committed; if that fails, the answer is 500 only when no header was written yet. -/
def withTenantTx (faults : TxFaults) (handler : Handler ω) : Response ω :=
  if faults.begin || faults.setTenant || faults.setUser then ⟨500, [], []⟩
  else
    let c := handler.run {}
    if 500 ≤ c.status then ⟨c.status, [], c.kept⟩
    else if faults.commit || c.tx.failed then ⟨if c.wroteHeader then c.status else 500, [], c.kept⟩
    else ⟨c.status, c.tx.writes, c.kept⟩

end BookingSystem.Model.RequestTx
