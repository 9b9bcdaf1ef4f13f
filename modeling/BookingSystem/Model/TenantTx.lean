import BookingSystem.Base.Savepoint
import BookingSystem.Base.Run

/-!
# `TenantTxInterceptor`

Every request runs in one transaction on a connection of its own, and a `manager.transaction` inside it becomes a
savepoint. The names of the savepoints come from a counter, `depth`, which is `1` in the outer transaction. A request
is a program of statements, inner transactions and `try`/`catch`; `run` says what it does on the connection, and
`intercept` what the client gets and what stays in the database. The type `ω` is that of the rows that are written.
-/

namespace BookingSystem.Model.TenantTx

open Base

variable {ω : Type}

/-- The pinned connection and the counter of the interceptor. -/
structure Pinned (ω : Type) where
  tx : Tx ℤ ω := {}
  depth : ℤ := 1

def malformed : Statement ℤ ω → Bool
  | .savepoint n | .release n | .rollbackTo n => decide (n < 0)
  | _ => false

/-- `qr.query`: the connection after a statement, and whether it went through. -/
def query (broken : Bool) (s : Statement ℤ ω) (st : Pinned ω) : Pinned ω × Bool :=
  let r := st.tx.exec (broken || malformed s) s
  ({ st with tx := r.1 }, r.2)

/-! ### The patched query runner -/

def startTransaction (broken : Bool) (st : Pinned ω) : Pinned ω × Bool :=
  let r := query broken (.savepoint st.depth) st
  if r.2 then ({ r.1 with depth := r.1.depth + 1 }, true) else r

def commitTransaction (broken : Bool) (st : Pinned ω) : Pinned ω × Bool :=
  let st := { st with depth := st.depth - 1 }
  query broken (.release st.depth) st

def rollbackTransaction (broken : Bool) (st : Pinned ω) : Pinned ω × Bool :=
  let st := { st with depth := st.depth - 1 }
  query broken (.rollbackTo st.depth) st

def finish (commit : Bool) (db : List ω) (st : Pinned ω) : List ω := if commit then db ++ st.tx.committed else db

/-! ### Requests -/

/-- The statements of an inner transaction that fail by themselves. -/
structure Faults where
  start : Bool := false
  commit : Bool := false
  rollback : Bool := false

/-- What a handler does on its connection. `sql` is one statement, with the row that it writes, if it writes one. -/
inductive Prog (ω : Type)
  | skip
  | sql (w : Option ω) (broken : Bool)
  | throw
  | seq (p q : Prog ω)
  | tryCatch (p q : Prog ω)
  | transaction (faults : Faults) (p : Prog ω)

/-- The connection after a part of a handler, whether the handler goes on or an exception is on its way, and what the
handler has written: the rows of the statements that went through, without those of an inner transaction that was
given up. -/
structure Result (ω : Type) where
  st : Pinned ω
  ok : Bool
  kept : List ω

def Result.then (r r' : Result ω) : Result ω := { r' with kept := r.kept ++ r'.kept }

def statement : Option ω → Statement ℤ ω
  | some w => .write w
  | none => .read

/-- The end of an inner transaction, after its body: an exception of the body or of the commit leads to a rollback
whose own failure is ignored, and goes on. -/
def endTransaction (f : Faults) (r : Result ω) : Result ω :=
  if r.ok then
    let c := commitTransaction f.commit r.st
    if c.2 then ⟨c.1, true, r.kept⟩ else ⟨(rollbackTransaction f.rollback c.1).1, false, []⟩
  else ⟨(rollbackTransaction f.rollback r.st).1, false, []⟩

namespace Prog

/-- The inner transaction is `EntityManager.transaction`: also a savepoint that cannot be set leads to a rollback. -/
def run : Prog ω → Pinned ω → Result ω
  | .skip, st => ⟨st, true, []⟩
  | .sql w broken, st =>
    let r := query broken (statement w) st
    ⟨r.1, r.2, if r.2 then w.toList else []⟩
  | .throw, st => ⟨st, false, []⟩
  | .seq p q, st =>
    let r := p.run st
    if r.ok then r.then (q.run r.st) else r
  | .tryCatch p q, st =>
    let r := p.run st
    if r.ok then r else r.then (q.run r.st)
  | .transaction f p, st =>
    let s := startTransaction f.start st
    if s.2 then endTransaction f (p.run s.1) else ⟨(rollbackTransaction f.rollback s.1).1, false, []⟩

end Prog

/-- The statements of the interceptor itself that fail. -/
structure OuterFaults where
  begin : Bool := false
  setConfig : Bool := false
  commit : Bool := false

/-- What the client gets, the value or an error, and what is in the database afterwards. -/
structure Response (ω : Type) where
  emitted : Bool
  durable : List ω

def intercept (faults : OuterFaults) (handler : Prog ω) (db : List ω) : Response ω :=
  if faults.begin || faults.setConfig then ⟨false, db⟩
  else
    let r := handler.run {}
    if r.ok && !faults.commit then ⟨true, finish true db r.st⟩ else ⟨false, finish false db r.st⟩

end BookingSystem.Model.TenantTx

/-!
## What the calls of an inner transaction do

The savepoint of an inner transaction is the newest one of its name as long as the counter is right: whatever its body
has left behind has a larger number (`Over`). A commit then releases that savepoint and a rollback goes back to it.
-/

namespace BookingSystem.Effects.TenantTx

open Base Model.TenantTx

variable {ω : Type} {st : Pinned ω} {n : ℤ} {base saved : List (Savepoint ℤ ω)}

/-- Over the savepoints `base` there are only some with numbers from `n` on. -/
def Over (n : ℤ) (base saved : List (Savepoint ℤ ω)) : Prop := ∃ extra, saved = extra ++ base ∧ ∀ x ∈ extra, n ≤ x.name

theorem Over.refl (n : ℤ) (base : List (Savepoint ℤ ω)) : Over n base base := ⟨[], rfl, by simp⟩

theorem Over.cons {p : Savepoint ℤ ω} (h : Over n base saved) (hsp : n ≤ p.name) : Over n base (p :: saved) := by
  obtain ⟨extra, rfl, hextra⟩ := h
  exact ⟨p :: extra, rfl, by simpa using ⟨hsp, hextra⟩⟩

/-- The savepoint right below the level is what its own name stands for. -/
theorem Over.since {p : Savepoint ℤ ω} {t : Tx ℤ ω} (h : Over (p.name + 1) (p :: base) t.saved) :
    t.since p.name = p :: base := by
  obtain ⟨extra, hsaved, hextra⟩ := h
  exact Tx.since_eq hsaved rfl fun x hx heq => absurd (hextra x hx) (by omega)

theorem startTransaction_eq (hn : 0 ≤ st.depth) (hok : st.tx.failed = false) :
    startTransaction false st =
      (⟨{ st.tx with
          saved := ⟨st.depth, st.tx.next, st.tx.writes⟩ :: st.tx.saved
          next := st.tx.next + 1 }, st.depth + 1⟩, true) := by
  have hname : decide (st.depth < 0) = false := by simpa using hn
  simp [startTransaction, query, Tx.exec, Tx.exec?, malformed, hok, hname]

section Ends

variable {p : Savepoint ℤ ω} (hdepth : st.depth = p.name + 1) (hover : Over (p.name + 1) (p :: base) st.tx.saved)
  (hn : 0 ≤ p.name)

include hdepth hover hn

theorem commitTransaction_eq (hok : st.tx.failed = false) :
    commitTransaction false st = (⟨{ st.tx with saved := base }, p.name⟩, true) := by
  have hd : st.depth - 1 = p.name := by omega
  have hname : decide (p.name < 0) = false := by simpa using hn
  simp [commitTransaction, query, Tx.exec, Tx.exec?, malformed, hok, hd, hname, hover.since]

theorem rollbackTransaction_eq :
    rollbackTransaction false st =
      (⟨{ st.tx with writes := p.writes, saved := p :: base, failed := false }, p.name⟩, true) := by
  have hd : st.depth - 1 = p.name := by omega
  have hname : decide (p.name < 0) = false := by simpa using hn
  simp [rollbackTransaction, query, Tx.exec, Tx.exec?, malformed, hd, hname, hover.since]

end Ends

end BookingSystem.Effects.TenantTx
