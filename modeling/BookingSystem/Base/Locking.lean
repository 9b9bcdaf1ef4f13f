import Mathlib.Logic.Function.Basic
import Mathlib.Data.List.Basic
import Mathlib.Data.List.Induction

/-!
# Interleaved transactions under exclusive row locks

A transaction of a `Protocol` first reads (`prep`), takes its row locks one after another (`locks`), reads once
more under them and settles what it will write (`plan`), and writes when it commits (`apply`); it may be rolled
back at any point. Any number of transactions run interleaved (`Step`): a read sees what is committed at that
moment, nobody sees a write before its commit, and a row lock is held by one transaction until its end.

The development below says when this is as good as running the transactions one at a time, each in one go. It
is enough (`Stable`) that a commit of one transaction does not change what another one has read, as long as the
two hold no lock in common. Then the committed transactions, in the order of their commits, are a serial
execution (`serial_of_reach`), and an invariant of the serial executions is one of the interleaved ones.
-/

namespace BookingSystem.Base

open Function (update update_of_ne update_self)

/-- The four parts of a transaction: `τ` the requests, `κ` what was read before the locks, `ι` the lockable rows,
`ω` the writes, `σ` the committed store. -/
structure Protocol (σ τ κ ι ω : Type) where
  prep : τ → σ → Option κ
  locks : κ → List ι
  plan : κ → σ → Option ω
  apply : ω → σ → σ

namespace Protocol

variable {σ τ κ ι ω : Type}

/-- How far a transaction has come. -/
inductive Phase (κ ι ω : Type)
  | begun
  | locking (k : κ) (held todo : List ι)
  | planned (k : κ) (w : ω)

/-- The committed store, the transactions in flight, and what has been committed so far (latest last). -/
structure State (σ τ κ ι ω : Type) where
  db : σ
  txns : ℕ → Option (τ × Phase κ ι ω)
  log : List (τ × ω)

def init (db : σ) : State σ τ κ ι ω := ⟨db, fun _ => none, []⟩

variable (P : Protocol σ τ κ ι ω)

def held : Phase κ ι ω → List ι
  | .begun => []
  | .locking _ held _ => held
  | .planned k _ => P.locks k

/-- One step of one transaction. `compat` is what the callers promise about requests in flight together. -/
inductive Step (compat : τ → τ → Prop) : State σ τ κ ι ω → State σ τ κ ι ω → Prop
  | start {s : State σ τ κ ι ω} {i : ℕ} (t : τ) : s.txns i = none →
      (∀ j u ph, s.txns j = some (u, ph) → compat t u ∧ compat u t) →
      Step compat s { s with txns := update s.txns i (some (t, .begun)) }
  | read {s : State σ τ κ ι ω} {i : ℕ} {t : τ} {k : κ} : s.txns i = some (t, .begun) →
      P.prep t s.db = some k →
      Step compat s { s with txns := update s.txns i (some (t, .locking k [] (P.locks k))) }
  | lock {s : State σ τ κ ι ω} {i : ℕ} {t : τ} {k : κ} {held todo : List ι} {x : ι} :
      s.txns i = some (t, .locking k held (x :: todo)) →
      (∀ j u ph, j ≠ i → s.txns j = some (u, ph) → x ∉ P.held ph) →
      Step compat s { s with txns := update s.txns i (some (t, .locking k (held ++ [x]) todo)) }
  | plan {s : State σ τ κ ι ω} {i : ℕ} {t : τ} {k : κ} {held : List ι} {w : ω} :
      s.txns i = some (t, .locking k held []) → P.plan k s.db = some w →
      Step compat s { s with txns := update s.txns i (some (t, .planned k w)) }
  | commit {s : State σ τ κ ι ω} {i : ℕ} {t : τ} {k : κ} {w : ω} : s.txns i = some (t, .planned k w) →
      Step compat s ⟨P.apply w s.db, update s.txns i none, s.log ++ [(t, w)]⟩
  | rollback {s : State σ τ κ ι ω} {i : ℕ} {t : τ} {ph : Phase κ ι ω} : s.txns i = some (t, ph) →
      Step compat s { s with txns := update s.txns i none }

/-- The states the interleaved transactions can reach from a committed store. -/
inductive Reach (compat : τ → τ → Prop) (db : σ) : State σ τ κ ι ω → Prop
  | init : Reach compat db (Protocol.init db)
  | step {s s' : State σ τ κ ι ω} : Reach compat db s → P.Step compat s s' → Reach compat db s'

/-- A serial execution: each transaction runs in one go on what the one before it has left. -/
inductive Serial (db : σ) : List (τ × ω) → σ → Prop
  | nil : Serial db [] db
  | snoc {log : List (τ × ω)} {s : σ} {t : τ} {k : κ} {w : ω} : Serial db log s → P.prep t s = some k →
      P.plan k s = some w → Serial db (log ++ [(t, w)]) (P.apply w s)

/-- A commit does not change what another transaction in flight has read: before its locks in any case, under
its locks when the two hold no lock in common. -/
structure Stable (compat : τ → τ → Prop) : Prop where
  prep : ∀ {t u : τ} {k l : κ} {v : ω} {s : σ}, compat t u → P.prep t s = some k → P.prep u s = some l →
    P.plan l s = some v → P.prep t (P.apply v s) = some k
  plan : ∀ {t u : τ} {k l : κ} {w v : ω} {s : σ}, compat t u → P.prep t s = some k → P.prep u s = some l →
    (∀ x ∈ P.locks k, x ∉ P.locks l) → P.plan k s = some w → P.plan l s = some v →
    P.plan k (P.apply v s) = some w

/-! ### What holds along every interleaving -/

def UpToDate (t : τ) (db : σ) : Phase κ ι ω → Prop
  | .begun => True
  | .locking k held todo => P.prep t db = some k ∧ held ++ todo = P.locks k
  | .planned k w => P.prep t db = some k ∧ P.plan k db = some w

/-- The invariant of the interleaved executions. -/
structure Sound (compat : τ → τ → Prop) (db : σ) (s : State σ τ κ ι ω) : Prop where
  serial : P.Serial db s.log s.db
  fresh : ∀ i t ph, s.txns i = some (t, ph) → P.UpToDate t s.db ph
  compat : ∀ i j t u ph qh, i ≠ j → s.txns i = some (t, ph) → s.txns j = some (u, qh) → compat t u
  excl : ∀ i j t u ph qh, i ≠ j → s.txns i = some (t, ph) → s.txns j = some (u, qh) →
    ∀ x ∈ P.held ph, x ∉ P.held qh

variable {P} {compat : τ → τ → Prop} {db : σ}

theorem sound_init : P.Sound compat db (init db) where
  serial := .nil
  fresh := by simp [init]
  compat := by simp [init]
  excl := by simp [init]

theorem Sound.move {s : State σ τ κ ι ω} (h : P.Sound compat db s) {i : ℕ} {t : τ} {ph : Phase κ ι ω}
    (hfresh : P.UpToDate t s.db ph)
    (hcompat : ∀ j u qh, j ≠ i → s.txns j = some (u, qh) → compat t u ∧ compat u t)
    (hexcl : ∀ j u qh, j ≠ i → s.txns j = some (u, qh) → ∀ x ∈ P.held ph, x ∉ P.held qh) :
    P.Sound compat db { s with txns := update s.txns i (some (t, ph)) } where
  serial := h.serial
  fresh j u qh hj := by
    by_cases e : j = i
    · subst e
      simp only [update_self, Option.some.injEq, Prod.mk.injEq] at hj
      obtain ⟨rfl, rfl⟩ := hj
      exact hfresh
    · exact h.fresh j u qh (by simpa [update_of_ne e] using hj)
  compat j j' u v qh rh hne hj hj' := by
    by_cases e : j = i <;> by_cases e' : j' = i
    · exact absurd (e.trans e'.symm) hne
    · subst e
      simp only [update_self, Option.some.injEq, Prod.mk.injEq] at hj
      obtain ⟨rfl, rfl⟩ := hj
      exact (hcompat j' v rh e' (by simpa [update_of_ne e'] using hj')).1
    · subst e'
      simp only [update_self, Option.some.injEq, Prod.mk.injEq] at hj'
      obtain ⟨rfl, rfl⟩ := hj'
      exact (hcompat j u qh e (by simpa [update_of_ne e] using hj)).2
    · exact h.compat j j' u v qh rh hne (by simpa [update_of_ne e] using hj)
        (by simpa [update_of_ne e'] using hj')
  excl j j' u v qh rh hne hj hj' x hx := by
    by_cases e : j = i <;> by_cases e' : j' = i
    · exact absurd (e.trans e'.symm) hne
    · subst e
      simp only [update_self, Option.some.injEq, Prod.mk.injEq] at hj
      obtain ⟨rfl, rfl⟩ := hj
      exact hexcl j' v rh e' (by simpa [update_of_ne e'] using hj') x hx
    · subst e'
      simp only [update_self, Option.some.injEq, Prod.mk.injEq] at hj'
      obtain ⟨rfl, rfl⟩ := hj'
      exact fun hx' => hexcl j u qh e (by simpa [update_of_ne e] using hj) x hx' hx
    · exact h.excl j j' u v qh rh hne (by simpa [update_of_ne e] using hj)
        (by simpa [update_of_ne e'] using hj') x hx

theorem txns_of_leave {s : State σ τ κ ι ω} {i j : ℕ} {u : τ × Phase κ ι ω}
    (h : update s.txns i none j = some u) : j ≠ i ∧ s.txns j = some u := by
  by_cases e : j = i
  · subst e; simp at h
  · exact ⟨e, by simpa [update_of_ne e] using h⟩

theorem Sound.leave {s : State σ τ κ ι ω} (h : P.Sound compat db s) {i : ℕ} {db' : σ} {log' : List (τ × ω)}
    (hserial : P.Serial db log' db')
    (hfresh : ∀ j u qh, j ≠ i → s.txns j = some (u, qh) → P.UpToDate u db' qh) :
    P.Sound compat db ⟨db', update s.txns i none, log'⟩ where
  serial := hserial
  fresh j u qh hj := by
    obtain ⟨e, hj⟩ := txns_of_leave hj
    exact hfresh j u qh e hj
  compat j j' u v qh rh hne hj hj' :=
    h.compat j j' u v qh rh hne (txns_of_leave hj).2 (txns_of_leave hj').2
  excl j j' u v qh rh hne hj hj' :=
    h.excl j j' u v qh rh hne (txns_of_leave hj).2 (txns_of_leave hj').2

theorem Sound.step (hP : P.Stable compat) {s s' : State σ τ κ ι ω} (h : P.Sound compat db s)
    (hs : P.Step compat s s') : P.Sound compat db s' := by
  -- what the others promised a transaction that is already in flight
  have old : ∀ {i t ph}, s.txns i = some (t, ph) → ∀ j u qh, j ≠ i → s.txns j = some (u, qh) →
      compat t u ∧ compat u t := fun {i t ph} hi j u qh hne hj =>
    ⟨h.compat i j t u ph qh hne.symm hi hj, h.compat j i u t qh ph hne hj hi⟩
  cases hs with
  | start t hi hc =>
    exact h.move trivial (fun j u qh _ hj => hc j u qh hj) (fun _ _ _ _ _ x hx => by simp [held] at hx)
  | read hi hk =>
    exact h.move ⟨hk, rfl⟩ (old hi) (fun _ _ _ _ _ x hx => by simp [held] at hx)
  | @lock i t k held todo x hi hfree =>
    obtain ⟨hk, hl⟩ := h.fresh _ _ _ hi
    refine h.move ⟨hk, by rw [← hl]; simp⟩ (old hi) (fun j u qh hne hj y hy => ?_)
    rcases List.mem_append.1 hy with hy | hy
    · exact h.excl _ j _ u _ qh hne.symm hi hj y hy
    · rw [List.mem_singleton.1 hy]
      exact hfree j u qh hne hj
  | @plan i t k held w hi hw =>
    obtain ⟨hk, hl⟩ := h.fresh _ _ _ hi
    rw [List.append_nil] at hl
    exact h.move ⟨hk, hw⟩ (old hi) (fun j u qh hne hj y hy =>
      h.excl _ j _ u _ qh hne.symm hi hj y (show y ∈ held by rw [hl]; exact hy))
  | @commit i t k w hi =>
    obtain ⟨hk, hw⟩ := h.fresh _ _ _ hi
    refine h.leave (h.serial.snoc hk hw) (fun j u qh hne hj => ?_)
    have hc := (old hi j u qh hne hj).2
    have hu := h.fresh j u qh hj
    cases qh with
    | begun => trivial
    | locking l held todo => exact ⟨hP.prep hc hu.1 hk hw, hu.2⟩
    | planned l v =>
      refine ⟨hP.prep hc hu.1 hk hw, hP.plan hc hu.1 hk ?_ hu.2 hw⟩
      exact h.excl j i u t _ _ hne hj hi
  | rollback hi =>
    exact h.leave h.serial (fun j u qh _ hj => h.fresh j u qh hj)

theorem sound_of_reach (hP : P.Stable compat) {s : State σ τ κ ι ω} (h : P.Reach compat db s) :
    P.Sound compat db s := by
  induction h with
  | init => exact sound_init
  | step _ hs ih => exact ih.step hP hs

/-- **Serializability.** The committed transactions of an interleaved execution, in the order of their commits,
are a serial execution that ends in the same store. -/
theorem serial_of_reach (hP : P.Stable compat) {s : State σ τ κ ι ω} (h : P.Reach compat db s) :
    P.Serial db s.log s.db :=
  (sound_of_reach hP h).serial

theorem planned_of_reach (hP : P.Stable compat) {s : State σ τ κ ι ω} (h : P.Reach compat db s) {i : ℕ} {t : τ}
    {k : κ} {w : ω} (hi : s.txns i = some (t, .planned k w)) : P.prep t s.db = some k ∧ P.plan k s.db = some w :=
  (sound_of_reach hP h).fresh i t _ hi

theorem Serial.last {log : List (τ × ω)} {e : τ × ω} {s : σ} (h : P.Serial db (log ++ [e]) s) :
    ∃ m k, P.Serial db log m ∧ P.prep e.1 m = some k ∧ P.plan k m = some e.2 ∧ s = P.apply e.2 m := by
  generalize hl : log ++ [e] = l at h
  cases h with
  | nil => simp at hl
  | @snoc log' m t k w hser hk hw =>
    obtain ⟨rfl, he⟩ := List.append_inj' hl rfl
    cases he
    exact ⟨m, k, hser, hk, hw, rfl⟩

theorem Serial.split {log₁ log₂ : List (τ × ω)} {s : σ} (h : P.Serial db (log₁ ++ log₂) s) :
    ∃ m, P.Serial db log₁ m ∧ P.Serial m log₂ s := by
  induction log₂ using List.reverseRecOn generalizing s with
  | nil => exact ⟨s, by simpa using h, .nil⟩
  | append_singleton log₂ e ih =>
    rw [← List.append_assoc] at h
    obtain ⟨m, k, hser, hk, hw, rfl⟩ := h.last
    obtain ⟨m', h₁, h₂⟩ := ih hser
    exact ⟨m', h₁, h₂.snoc hk hw⟩

theorem Serial.invariant {Inv : σ → Prop}
    (hstep : ∀ {t k w s}, Inv s → P.prep t s = some k → P.plan k s = some w → Inv (P.apply w s))
    (hdb : Inv db) {log : List (τ × ω)} {s : σ} (h : P.Serial db log s) : Inv s := by
  induction h with
  | nil => exact hdb
  | snoc _ hk hw ih => exact hstep ih hk hw

end Protocol

end BookingSystem.Base
