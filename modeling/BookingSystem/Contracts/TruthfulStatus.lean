import BookingSystem.Model.RequestTx

/-!
# The status and the commit

The status goes to the client before the commit is tried. `judge` follows a handler without a database: a statement
that fails outside an audit savepoint spoils the transaction for good, while a failure between the savepoint of an
audit entry and its end is undone. The connection does what `judge` says (`follows_run`), so the status tells the truth
unless the handler has written rows and a status below 400 and the transaction is spoiled or the `COMMIT` fails
(`status_truthful_iff`).
-/

namespace BookingSystem.Contracts.TruthfulStatus

open Base Model.RequestTx

variable {ω : Type}

/-- **The status tells the truth**: below 400 all rows that the handler has written are durable, from 500 on none is. -/
def Truthful (r : Response ω) : Prop := (r.status < 400 → r.durable = r.kept) ∧ (500 ≤ r.status → r.durable = [])

/-! ### Following a handler -/

/-- What is said of a handler: whether the transaction is healthy, the status, whether it was written, and the rows. -/
structure Verdict (ω : Type) where
  healthy : Bool := true
  status : ℕ := 200
  wroteHeader : Bool := false
  kept : List ω := []

def AuditFaults.none (f : AuditFaults) : Bool := !f.savepoint && !f.lookup && !f.insert && !f.release

def AuditFaults.contained (f : AuditFaults) : Bool := !f.savepoint && (f.lookup || f.insert) && !f.rollback

def judge : Handler ω → Verdict ω → Verdict ω
  | .done, v => v
  | .stmt w broken next, v =>
    if v.healthy && !broken then judge (next true) { v with kept := v.kept ++ w.toList }
    else judge (next false) { v with healthy := false }
  | .record w f next, v =>
    if v.healthy && AuditFaults.none f then judge next { v with kept := v.kept ++ [w] }
    else judge next { v with healthy := v.healthy && AuditFaults.contained f }
  | .writeHeader code next, v =>
    judge next (if v.wroteHeader then v else { v with status := code, wroteHeader := true })
  | .write next, v => judge next { v with wroteHeader := true }

/-- The handler has written rows and a status below 400, but a statement has spoiled its transaction or the `COMMIT`
fails. -/
def Misleads (faults : TxFaults) (handler : Handler ω) : Prop :=
  let v := judge handler {}
  (faults.begin || faults.setTenant || faults.setUser) = false ∧ v.wroteHeader = true ∧ v.status < 400 ∧
    (v.healthy = false ∨ faults.commit = true) ∧ v.kept ≠ []

/-! ### The connection does what is said -/

/-- The connection is as the verdict says, and its savepoints are numbered from 1 to the last one. -/
structure Follows (v : Verdict ω) (c : Conn ω) : Prop where
  failed : c.tx.failed = !v.healthy
  writes : v.healthy = true → c.tx.writes = v.kept
  status : c.status = v.status
  wroteHeader : c.wroteHeader = v.wroteHeader
  kept : c.kept = v.kept

variable {v : Verdict ω} {c : Conn ω}

theorem exec_statement (h : Follows v c) (w : Option ω) (broken : Bool) :
    (c.exec broken (statement w)).2 = (v.healthy && !broken) ∧
      (c.exec broken (statement w)).1.tx.failed = !(v.healthy && !broken) ∧
      ((v.healthy && !broken) = true → (c.exec broken (statement w)).1.tx.writes = v.kept ++ w.toList) := by
  cases hv : v.healthy with
  | false =>
    have hfailed : c.tx.failed = true := by rw [h.failed, hv]; rfl
    have hexec : c.tx.exec broken (statement w) = (c.tx, false) :=
      Tx.exec_of_failed hfailed (fun n => by cases w <;> nofun) broken
    simp only [Conn.exec, hexec, hfailed, Bool.false_and, Bool.not_false, Bool.false_eq_true, false_implies,
      and_self]
  | true =>
    have hfailed : c.tx.failed = false := by rw [h.failed, hv]; rfl
    have hwrites := h.writes hv
    cases broken <;> cases w <;> simp [Conn.exec, Tx.exec, Tx.exec?, statement, hfailed, hwrites]

theorem exec_save (h : Follows v c) (w : ω) (f : AuditFaults) :
    (save f w c).2 = (v.healthy && AuditFaults.none f) ∧
      (save f w c).1.tx.failed = !(v.healthy && (AuditFaults.none f || AuditFaults.contained f)) ∧
      ((v.healthy && AuditFaults.none f) = true → (save f w c).1.tx.writes = v.kept ++ [w]) ∧
      ((v.healthy && AuditFaults.none f) = false → (v.healthy && AuditFaults.contained f) = true →
        (save f w c).1.tx.writes = v.kept) := by
  cases hv : v.healthy with
  | false =>
    -- in a failed transaction not even the savepoint can be set
    have hfailed : c.tx.failed = true := by rw [h.failed, hv]; rfl
    have hexec : c.tx.exec f.savepoint (.savepoint (c.savepointNum + 1)) = (c.tx, false) :=
      Tx.exec_of_failed hfailed (fun n hn => by cases hn) f.savepoint
    simp only [save, Conn.exec, hexec, hfailed, Bool.false_and, Bool.not_false, Bool.false_eq_true, false_implies,
      if_false, and_self, implies_true]
  | true =>
    have hfailed : c.tx.failed = false := by rw [h.failed, hv]; rfl
    have hwrites := h.writes hv
    obtain ⟨savepoint, lookup, insert, release, rollback⟩ := f
    cases savepoint <;> cases lookup <;> cases insert <;> cases release <;> cases rollback <;>
      simp [save, saveOnExecutor, Conn.exec, Tx.exec, Tx.exec?, Tx.since, AuditFaults.none, AuditFaults.contained,
        hfailed, hwrites]

theorem save_recorder (w : ω) (f : AuditFaults) (c : Conn ω) :
    (save f w c).1.status = c.status ∧ (save f w c).1.wroteHeader = c.wroteHeader ∧ (save f w c).1.kept = c.kept := by
  unfold save saveOnExecutor
  simp only
  split
  · split
    · split <;> exact ⟨rfl, rfl, rfl⟩
    · exact ⟨rfl, rfl, rfl⟩
  · exact ⟨rfl, rfl, rfl⟩

/-- **The connection follows the verdict.** -/
theorem follows_run (handler : Handler ω) (h : Follows v c) : Follows (judge handler v) (handler.run c) := by
  induction handler generalizing v c with
  | done => exact h
  | stmt w broken next ih =>
    obtain ⟨hok, hfailed, hwrites⟩ := exec_statement h w broken
    simp only [judge, Handler.run, hok]
    cases hgood : v.healthy && !broken with
    | true =>
      rw [hgood] at hfailed hwrites
      refine ih true ⟨?_, fun _ => hwrites rfl, h.status, h.wroteHeader, congrArg (· ++ w.toList) h.kept⟩
      rw [(Bool.and_eq_true_iff.1 hgood).1]
      exact hfailed
    | false =>
      rw [hgood] at hfailed
      exact ih false ⟨hfailed, nofun, h.status, h.wroteHeader, h.kept⟩
  | record w f next ih =>
    obtain ⟨hok, hfailed, hwrites, hundone⟩ := exec_save h w f
    obtain ⟨hstatus, hwrote, hkept⟩ := save_recorder w f c
    simp only [judge, Handler.run, hok]
    cases hgood : v.healthy && AuditFaults.none f with
    | true =>
      rw [hgood] at hwrites
      obtain ⟨hv, hnone⟩ := Bool.and_eq_true_iff.1 hgood
      refine ih ⟨?_, fun _ => hwrites rfl, hstatus.trans h.status, hwrote.trans h.wroteHeader, ?_⟩
      · rw [hv]
        simpa [hv, hnone] using hfailed
      · exact congrArg (· ++ [w]) (hkept.trans h.kept)
    | false =>
      refine ih ⟨?_, hundone hgood, hstatus.trans h.status, hwrote.trans h.wroteHeader, hkept.trans h.kept⟩
      simp only [Bool.false_eq_true, if_false]
      rw [hfailed, Bool.and_or_distrib_left, hgood, Bool.false_or]
  | writeHeader code next ih =>
    simp only [judge, Handler.run, h.wroteHeader]
    split
    · exact ih h
    · exact ih ⟨h.failed, h.writes, rfl, rfl, h.kept⟩
  | write next ih => exact ih ⟨h.failed, h.writes, h.status, rfl, h.kept⟩

/-! ### The status -/

theorem follows_start : Follows ({} : Verdict ω) {} := ⟨rfl, fun _ => rfl, rfl, rfl, rfl⟩

theorem truthful_of_committed (h : Follows v c) (hhealthy : v.healthy = true) (hstatus : ¬ 500 ≤ c.status) :
    Truthful (⟨c.status, c.tx.writes, c.kept⟩ : Response ω) := by
  refine ⟨fun _ => ?_, fun h500 => absurd h500 hstatus⟩
  rw [h.writes hhealthy, h.kept]

theorem truthful_of_lost (h : Follows v c) :
    Truthful (⟨if c.wroteHeader then c.status else 500, [], c.kept⟩ : Response ω) ↔
      ¬ (v.wroteHeader = true ∧ v.status < 400 ∧ v.kept ≠ []) := by
  rw [← h.wroteHeader, ← h.status, ← h.kept]
  constructor
  · rintro ⟨hlow, -⟩ ⟨hwrote, hstatus, hkept⟩
    simp only [hwrote, if_true] at hlow
    exact hkept (hlow hstatus).symm
  · intro hno
    refine ⟨fun hlow => ?_, fun _ => rfl⟩
    cases hwrote : c.wroteHeader with
    | false => simp [hwrote] at hlow
    | true =>
      simp only [hwrote, if_true] at hlow
      by_contra hkept
      exact hno ⟨hwrote, hlow, fun hnil => hkept hnil.symm⟩

/-- **The status tells the truth iff the handler is not misled**: no success over written rows has gone out when a
statement outside the audit savepoints, or the `COMMIT`, fails. -/
theorem status_truthful_iff (faults : TxFaults) (handler : Handler ω) :
    Truthful (withTenantTx faults handler) ↔ ¬ Misleads faults handler := by
  have hfollows : Follows (judge handler {}) (handler.run {}) := follows_run handler follows_start
  unfold withTenantTx Misleads
  cases hstart : faults.begin || faults.setTenant || faults.setUser with
  | true => simp [Truthful]
  | false =>
    simp only [Bool.false_eq_true, if_false, true_and]
    by_cases h500 : 500 ≤ (handler.run {}).status
    · rw [if_pos h500]
      refine iff_of_true ⟨fun hlow => absurd h500 (Nat.not_le.2 (Nat.lt_of_lt_of_le hlow (by decide))), fun _ => rfl⟩ ?_
      rintro ⟨-, hlow, -⟩
      rw [← hfollows.status] at hlow
      omega
    rw [if_neg h500]
    cases hlost : faults.commit || (handler.run {}).tx.failed with
    | true =>
      have hreason : (judge handler {}).healthy = false ∨ faults.commit = true := by
        rw [hfollows.failed, Bool.or_eq_true, Bool.not_eq_true'] at hlost
        exact hlost.symm
      rw [if_pos rfl, truthful_of_lost hfollows]
      simp only [hreason, true_and]
    | false =>
      obtain ⟨hcommit, hfailed⟩ := Bool.or_eq_false_iff.1 hlost
      have hhealthy : (judge handler {}).healthy = true := by
        rw [hfollows.failed, Bool.not_eq_false'] at hfailed
        exact hfailed
      rw [if_neg Bool.false_ne_true]
      refine iff_of_true (truthful_of_committed hfollows hhealthy h500) ?_
      rintro ⟨-, -, hreason, -⟩
      rw [hhealthy, hcommit] at hreason
      simp at hreason

def ignoringHandler : Handler String :=
  .stmt (some "booking") false fun _ => .stmt none true fun _ => .writeHeader 201 .done

/-- **A success over a rolled-back booking**: the client has received 201, and the booking is not there. -/
theorem success_rolled_back :
    (withTenantTx {} ignoringHandler).status = 201 ∧ (withTenantTx {} ignoringHandler).kept = ["booking"] ∧
      (withTenantTx {} ignoringHandler).durable = [] ∧ ¬ Truthful (withTenantTx {} ignoringHandler) := by
  refine ⟨rfl, rfl, rfl, fun h => ?_⟩
  have hdurable : ([] : List String) = ["booking"] := h.1 (by decide)
  cases hdurable

/-! ### Audit entries -/

def OnlyAuditFails : Handler ω → Prop
  | .done => True
  | .stmt _ broken next => broken = false ∧ OnlyAuditFails (next true)
  | .record _ f next => (AuditFaults.none f = true ∨ AuditFaults.contained f = true) ∧ OnlyAuditFails next
  | .writeHeader _ next => OnlyAuditFails next
  | .write next => OnlyAuditFails next

theorem healthy_of_onlyAuditFails (handler : Handler ω) (h : OnlyAuditFails handler) (hv : v.healthy = true) :
    (judge handler v).healthy = true := by
  induction handler generalizing v with
  | done => exact hv
  | stmt w broken next ih =>
    obtain ⟨rfl, hnext⟩ := h
    simp only [judge, hv, Bool.not_false, Bool.and_self, if_true]
    exact ih true hnext rfl
  | record w f next ih =>
    simp only [judge, hv, Bool.true_and]
    split
    · exact ih h.2 rfl
    · rename_i hnone
      exact ih h.2 (h.1.resolve_left hnone)
  | writeHeader code next ih =>
    simp only [judge]
    split
    · exact ih h hv
    · exact ih h hv
  | write next ih => exact ih h hv

/-- **A failed audit entry never turns a success into a rollback**: its savepoint contains it. -/
theorem audit_never_misleads (handler : Handler ω) (h : OnlyAuditFails handler) :
    ¬ Misleads {} handler := by
  rintro ⟨-, -, -, hreason, -⟩
  rw [healthy_of_onlyAuditFails handler h rfl] at hreason
  simp at hreason

end BookingSystem.Contracts.TruthfulStatus
