import Mathlib.Data.List.TakeWhile

/-!
# A transaction with savepoints

One open transaction of a relational store: what it has written, the savepoints that are set in it, newest first, and
whether a statement has failed in it. After a failure every statement is refused until a rollback to a savepoint, and
the commit of a failed transaction keeps nothing. A name may be used again while an older savepoint has it: it then
stands for the newest one (`since`).
-/

namespace BookingSystem.Base

variable {ν ω : Type}

/-- A savepoint: its name, its number among those set in the transaction, and what had been written by then. -/
structure Savepoint (ν ω : Type) where
  name : ν
  serial : ℕ
  writes : List ω

/-- An open transaction. -/
structure Tx (ν ω : Type) where
  writes : List ω := []
  saved : List (Savepoint ν ω) := []
  failed : Bool := false
  next : ℕ := 0

inductive Statement (ν ω : Type)
  | read
  | write (w : ω)
  | savepoint (n : ν)
  | release (n : ν)
  | rollbackTo (n : ν)

namespace Tx

variable [DecidableEq ν] (t : Tx ν ω) (n : ν)

def since : List (Savepoint ν ω) := t.saved.dropWhile fun sp => decide (sp.name ≠ n)

/-- The transaction after a statement, `none` when it is refused. -/
def exec? : Statement ν ω → Option (Tx ν ω)
  | .read => if t.failed then none else some t
  | .write w => if t.failed then none else some { t with writes := t.writes ++ [w] }
  | .savepoint n =>
    if t.failed then none else some { t with saved := ⟨n, t.next, t.writes⟩ :: t.saved, next := t.next + 1 }
  | .release n =>
    if t.failed then none
    else
      match t.since n with
      | _ :: older => some { t with saved := older }
      | [] => none
  | .rollbackTo n =>
    match t.since n with
    | sp :: older => some { t with writes := sp.writes, saved := sp :: older, failed := false }
    | [] => none

/-- A statement and whether it went through; one that is `broken` fails by itself. -/
def exec (broken : Bool) (s : Statement ν ω) : Tx ν ω × Bool :=
  match if broken then none else t.exec? s with
  | some t' => (t', true)
  | none => ({ t with failed := true }, false)

def committed : List ω := if t.failed then [] else t.writes

variable {t n}

theorem since_eq {extra base : List (Savepoint ν ω)} {sp : Savepoint ν ω} (hsaved : t.saved = extra ++ sp :: base)
    (hname : sp.name = n) (hextra : ∀ x ∈ extra, x.name ≠ n) : t.since n = sp :: base := by
  rw [since, hsaved, List.dropWhile_append_of_pos fun x hx => decide_eq_true (hextra x hx)]
  exact List.dropWhile_cons_of_neg (by simpa using hname)

theorem since_eq_nil (h : ∀ x ∈ t.saved, x.name ≠ n) : t.since n = [] := by
  rw [since, List.dropWhile_eq_nil_iff]
  exact fun x hx => decide_eq_true (h x hx)

theorem since_cons {sp : Savepoint ν ω} {older : List (Savepoint ν ω)} (h : t.since n = sp :: older) :
    sp.name = n ∧ ∀ x ∈ sp :: older, x ∈ t.saved := by
  have hsub : (t.since n).Sublist t.saved := List.dropWhile_sublist _
  have hhead := List.head?_dropWhile_not (fun sp : Savepoint ν ω => decide (sp.name ≠ n)) t.saved
  rw [show t.saved.dropWhile _ = sp :: older from h] at hhead
  exact ⟨by simpa using hhead, fun x hx => hsub.subset (h ▸ hx)⟩

theorem exec_of_failed {s : Statement ν ω} (h : t.failed = true) (hs : ∀ n, s ≠ .rollbackTo n) (broken : Bool) :
    t.exec broken s = (t, false) := by
  have hnone : t.exec? s = none := by
    cases s with
    | rollbackTo n => exact absurd rfl (hs n)
    | _ => simp [exec?, h]
  have hfail : { t with failed := true } = t := by rw [← h]
  unfold exec
  rw [hnone, ite_self]
  exact Prod.ext hfail rfl

end Tx

end BookingSystem.Base
