import Mathlib.Data.List.Forall2
import Mathlib.Tactic.Common

/-!
# Programs that ask an oracle

The `i`-th question of a run has the answer `order i`; `count` of a state says how many questions have been asked, and
`core` is the state without that number. `Realises core count m R` says that `m`, over all the oracles, has the outcomes
that the relation `R` allows, and no others: where a run has asked a question, a later part of an oracle may still be
chosen freely.
-/

namespace BookingSystem.Base

variable {σ κ α β γ : Type} {core : σ → κ} {count : σ → ℕ}

/-- **The outcomes of `m` are those of `R`.** -/
structure Realises (core : σ → κ) (count : σ → ℕ) (m : (ℕ → ℕ) → StateM σ α) (R : κ → α → κ → Prop) : Prop where
  sound : ∀ (order : ℕ → ℕ) (s : σ), R (core s) ((m order).run s).1 (core ((m order).run s).2)
  later : ∀ (order : ℕ → ℕ) (s : σ), count s ≤ count ((m order).run s).2
  asked : ∀ (order order' : ℕ → ℕ) (s : σ), (∀ i < count ((m order).run s).2, order' i = order i) →
    (m order').run s = (m order).run s
  complete : ∀ (order : ℕ → ℕ) (s : σ) (a : α) (k : κ), R (core s) a k →
    ∃ order' s', (∀ i < count s, order' i = order i) ∧ (m order').run s = (a, s') ∧ core s' = k

namespace Realises

variable {m : (ℕ → ℕ) → StateM σ α} {R R' : κ → α → κ → Prop}

theorem congr (h : Realises core count m R) (hR : ∀ k a k', R k a k' ↔ R' k a k') : Realises core count m R' where
  sound order s := (hR ..).1 (h.sound order s)
  later := h.later
  asked := h.asked
  complete order s a k hk := h.complete order s a k ((hR ..).2 hk)

theorem of_run {f : σ → α × σ} {g : κ → α × κ} (hm : ∀ order s, (m order).run s = f s)
    (hcore : ∀ s, g (core s) = ((f s).1, core (f s).2)) (hcount : ∀ s, count (f s).2 = count s) :
    Realises core count m fun k a k' => (a, k') = g k where
  sound order s := by rw [hm, hcore]
  later order s := Nat.le_of_eq (by rw [hm, hcount])
  asked order order' s _ := by rw [hm, hm]
  complete order s a k hk := by
    rw [hcore] at hk
    obtain ⟨rfl, rfl⟩ := Prod.mk.inj hk
    exact ⟨order, (f s).2, fun _ _ => rfl, hm order s, rfl⟩

theorem pure (a : α) : Realises core count (fun _ => Pure.pure a) fun k b k' => b = a ∧ k' = k :=
  (of_run (f := fun s => (a, s)) (g := fun k => (a, k)) (fun _ _ => rfl) (fun _ => rfl) fun _ => rfl).congr
    fun _ _ _ => Prod.mk.injEq .. |>.to_iff

theorem bind {f : α → (ℕ → ℕ) → StateM σ β} {S : α → κ → β → κ → Prop} (hm : Realises core count m R)
    (hf : ∀ a, Realises core count (f a) (S a)) :
    Realises core count (fun order => m order >>= fun a => f a order) fun k b k' => ∃ a l, R k a l ∧ S a l b k' where
  sound order s := ⟨_, _, hm.sound order s, (hf _).sound order _⟩
  later order s := Nat.le_trans (hm.later order s) ((hf _).later order _)
  asked order order' s h := by
    have hfirst : (m order').run s = (m order).run s :=
      hm.asked order order' s fun i hi => h i (Nat.lt_of_lt_of_le hi ((hf _).later order _))
    change (f ((m order').run s).1 order').run ((m order').run s).2 =
      (f ((m order).run s).1 order).run ((m order).run s).2
    rw [hfirst]
    exact (hf _).asked order order' _ h
  complete order s b k := by
    rintro ⟨a, l, hR, hS⟩
    obtain ⟨order₁, s₁, hagree₁, hrun₁, rfl⟩ := hm.complete order s a l hR
    obtain ⟨order₂, s₂, hagree₂, hrun₂, hk⟩ := (hf a).complete order₁ s₁ b k hS
    have hlater : count s ≤ count s₁ := by simpa [hrun₁] using hm.later order₁ s
    have hfirst : (m order₂).run s = (a, s₁) := by
      rw [← hrun₁]
      exact hm.asked order₁ order₂ s fun i hi => hagree₂ i (by simpa [hrun₁] using hi)
    refine ⟨order₂, s₂, fun i hi => (hagree₂ i (Nat.lt_of_lt_of_le hi hlater)).trans (hagree₁ i hi), ?_, hk⟩
    change (f ((m order₂).run s).1 order₂).run ((m order₂).run s).2 = (b, s₂)
    rw [hfirst]
    exact hrun₂

/-- One question, whose answer picks an element of a list. -/
theorem of_pick {xs : List α} (next : σ → σ)
    (hm : ∀ order s, ∃ hlt : order (count s) % xs.length < xs.length,
      (m order).run s = (xs[order (count s) % xs.length], next s))
    (hcore : ∀ s, core (next s) = core s) (hcount : ∀ s, count (next s) = count s + 1) :
    Realises core count m fun k a k' => a ∈ xs ∧ k' = k where
  sound order s := by
    obtain ⟨hlt, hrun⟩ := hm order s
    rw [hrun]
    exact ⟨List.getElem_mem hlt, hcore s⟩
  later order s := by
    obtain ⟨_, hrun⟩ := hm order s
    rw [hrun, hcount]
    exact Nat.le_succ _
  asked order order' s h := by
    obtain ⟨hlt, hrun⟩ := hm order s
    obtain ⟨hlt', hrun'⟩ := hm order' s
    have hsame : order' (count s) = order (count s) := h _ (by rw [hrun, hcount]; exact Nat.lt_succ_self _)
    simp only [hrun, hrun', hsame]
  complete order s a k := by
    rintro ⟨ha, rfl⟩
    obtain ⟨i, hi, rfl⟩ := List.getElem_of_mem ha
    obtain ⟨hlt, hrun⟩ := hm (Function.update order (count s) i) s
    refine ⟨Function.update order (count s) i, next s, fun j hj => Function.update_of_ne (Nat.ne_of_lt hj) _ _, ?_,
      hcore s⟩
    rw [hrun]
    simp only [Function.update_self, Nat.mod_eq_of_lt hi]

theorem mapM {f : β → (ℕ → ℕ) → StateM σ α} {P : β → α → Prop} :
    ∀ xs : List β, (∀ x ∈ xs, Realises core count (f x) fun k a k' => P x a ∧ k' = k) →
      Realises core count (fun order => xs.mapM fun x => f x order) fun k as k' => List.Forall₂ P xs as ∧ k' = k
  | [], _ => (pure []).congr fun _ _ _ => by simp
  | x :: xs, h => by
    have hrest := mapM xs fun y hy => h y (List.mem_cons_of_mem _ hy)
    simp only [List.mapM_cons]
    refine ((h x List.mem_cons_self).bind fun a => hrest.bind fun as => pure (a :: as)).congr fun k as k' => ?_
    constructor
    · rintro ⟨a, l, ⟨hP, rfl⟩, as, l, ⟨has, rfl⟩, rfl, rfl⟩
      exact ⟨.cons hP has, rfl⟩
    · rintro ⟨has, rfl⟩
      obtain ⟨a, as, hP, htail, rfl⟩ := List.forall₂_cons_left_iff.1 has
      exact ⟨a, _, ⟨hP, rfl⟩, as, _, ⟨htail, rfl⟩, rfl, rfl⟩

def Through (R : β → κ → κ → Prop) : List β → κ → κ → Prop
  | [], k, k' => k' = k
  | x :: xs, k, k' => ∃ l, R x k l ∧ Through R xs l k'

theorem forM {f : β → (ℕ → ℕ) → StateM σ Unit} {S : β → κ → κ → Prop} :
    ∀ xs : List β, (∀ x ∈ xs, Realises core count (f x) fun k _ k' => S x k k') →
      Realises core count (fun order => xs.forM fun x => f x order) fun k _ k' => Through S xs k k'
  | [], _ => (pure ()).congr fun _ _ _ => by simp [Through]
  | x :: xs, h => by
    have hrest := forM xs fun y hy => h y (List.mem_cons_of_mem _ hy)
    exact ((h x List.mem_cons_self).bind fun _ => hrest).congr fun k _ k' =>
      ⟨fun ⟨_, l, hx, hxs⟩ => ⟨l, hx, hxs⟩, fun ⟨l, hx, hxs⟩ => ⟨(), l, hx, hxs⟩⟩

theorem run_iff (h : Realises core count m R) {s : σ} {a : α} {k : κ} :
    (∃ order, ((m order).run s).1 = a ∧ core ((m order).run s).2 = k) ↔ R (core s) a k := by
  constructor
  · rintro ⟨order, rfl, rfl⟩
    exact h.sound order s
  · intro hR
    obtain ⟨order, s', -, hrun, hk⟩ := h.complete (fun _ => 0) s a k hR
    exact ⟨order, by rw [hrun], by rw [hrun, hk]⟩

end Realises

end BookingSystem.Base
