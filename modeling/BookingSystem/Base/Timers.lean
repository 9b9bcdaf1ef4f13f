import Mathlib.Algebra.Order.Group.Int
import Mathlib.Data.List.Nodup

/-!
# Timers

A clock with the timers that are armed on it. A timer has a handle, under which it can be cleared, and fires at the
moment it is due: the clock does not pass a timer by. Timers that are chained, each arming the next one, are followed by
the time at which the chain is to end (`targets`).
-/

namespace BookingSystem.Base

/-- A timer that is armed, and what it calls. -/
structure Timer (β : Type) where
  handle : ℕ
  due : ℤ
  callback : β

structure Clock (β : Type) where
  now : ℤ
  next : ℕ := 0
  armed : List (Timer β) := []

namespace Clock

variable {β : Type}

def setTimeout (c : Clock β) (callback : β) (delay : ℤ) : Clock β :=
  { c with next := c.next + 1, armed := c.armed ++ [⟨c.next, c.now + delay, callback⟩] }

def clearTimeouts (c : Clock β) (handles : List ℕ) : Clock β :=
  { c with armed := c.armed.filter fun t => decide (t.handle ∉ handles) }

/-- A timer that is due fires. -/
def fire? (c : Clock β) (handle : ℕ) : Option (β × Clock β) :=
  (c.armed.find? fun t => decide (t.handle = handle ∧ t.due ≤ c.now)).map fun t =>
    (t.callback, { c with armed := c.armed.filter fun t' => decide (t'.handle ≠ handle) })

def wait (c : Clock β) (d : ℕ) : Clock β :=
  if c.armed.all fun t => decide (c.now + d ≤ t.due) then { c with now := c.now + d } else c

/-- Each timer has a handle of its own, and none is overdue. -/
structure Sound (c : Clock β) : Prop where
  handles : (c.armed.map Timer.handle).Nodup
  below : ∀ t ∈ c.armed, t.handle < c.next
  due : ∀ t ∈ c.armed, c.now ≤ t.due

variable {c c' : Clock β} {callback : β}

theorem sound_empty (now : ℤ) : ({ now := now } : Clock β).Sound := ⟨List.nodup_nil, nofun, nofun⟩

theorem Sound.setTimeout (h : c.Sound) (callback : β) {delay : ℤ} (hdelay : 0 ≤ delay) :
    (c.setTimeout callback delay).Sound where
  handles := by
    rw [Clock.setTimeout, List.map_append]
    refine List.nodup_append.2 ⟨h.handles, List.nodup_singleton _, fun a ha b hb => ?_⟩
    obtain ⟨t, ht, rfl⟩ := List.mem_map.1 ha
    obtain rfl := List.mem_singleton.1 hb
    exact (h.below t ht).ne
  below t ht := by
    obtain ht | ht := List.mem_append.1 ht
    · exact (h.below t ht).trans (Nat.lt_succ_self _)
    · obtain rfl := List.mem_singleton.1 ht
      exact Nat.lt_succ_self _
  due t ht := by
    obtain ht | ht := List.mem_append.1 ht
    · exact h.due t ht
    · obtain rfl := List.mem_singleton.1 ht
      exact le_add_of_nonneg_right hdelay

theorem Sound.filter (h : c.Sound) (p : Timer β → Bool) : ({ c with armed := c.armed.filter p } : Clock β).Sound where
  handles := h.handles.sublist (List.filter_sublist.map _)
  below t ht := h.below t (List.mem_filter.1 ht).1
  due t ht := h.due t (List.mem_filter.1 ht).1

theorem Sound.clearTimeouts (h : c.Sound) (handles : List ℕ) : (c.clearTimeouts handles).Sound := h.filter _

/-- **What fires**: a timer that is due at this moment, and it is armed no longer. -/
theorem Sound.fire? (h : c.Sound) {handle : ℕ} (hfire : c.fire? handle = some (callback, c')) : c'.Sound ∧
    ∃ t ∈ c.armed, t.due = c.now ∧ t.callback = callback ∧
      c' = { c with armed := c.armed.filter fun t' => decide (t'.handle ≠ t.handle) } := by
  obtain ⟨t, hfind, heq⟩ := Option.map_eq_some_iff.1 hfire
  cases heq
  have hmem := List.mem_of_find?_eq_some hfind
  have hfound := List.find?_some hfind
  obtain ⟨rfl, hdue⟩ := of_decide_eq_true hfound
  exact ⟨h.filter _, t, hmem, hdue.antisymm (h.due t hmem), rfl, rfl⟩

theorem Sound.wait (h : c.Sound) (d : ℕ) : (c.wait d).Sound := by
  unfold Clock.wait
  split
  · rename_i hall
    exact ⟨h.handles, h.below, fun t ht => of_decide_eq_true (List.all_eq_true.1 hall t ht)⟩
  · exact h

theorem wait_armed (c : Clock β) (d : ℕ) : (c.wait d).armed = c.armed ∧ (c.wait d).next = c.next := by
  unfold Clock.wait
  split <;> exact ⟨rfl, rfl⟩

/-! ### Chains -/

section

variable (rest : β → ℤ) (p : β → Bool)

/-- When the chains of some of the callbacks are to end: `rest` is what is left when a timer fires. -/
def targets (c : Clock β) : List ℤ :=
  (c.armed.filter fun t => p t.callback).map fun t => t.due + rest t.callback

variable {rest p}

theorem targets_setTimeout (c : Clock β) (callback : β) (delay : ℤ) : (c.setTimeout callback delay).targets rest p =
    c.targets rest p ++ if p callback then [c.now + delay + rest callback] else [] := by
  rw [targets, setTimeout, List.filter_append, List.map_append]
  cases hp : p callback <;> simp [hp, targets]

theorem targets_clearTimeouts {handles : List ℕ} (h : ∀ t ∈ c.armed, p t.callback = true → t.handle ∉ handles) :
    (c.clearTimeouts handles).targets rest p = c.targets rest p := by
  rw [targets, clearTimeouts, List.filter_filter, targets]
  refine congrArg _ (List.filter_congr fun t ht => ?_)
  cases hp : p t.callback with
  | false => rfl
  | true => simpa using h t ht hp

theorem targets_eq_nil : c.targets rest p = [] ↔ ∀ t ∈ c.armed, p t.callback = false := by
  simp [targets, List.filter_eq_nil_iff]

theorem targets_clearTimeouts_eq_nil {handles : List ℕ}
    (h : ∀ t ∈ c.armed, p t.callback = true → t.handle ∈ handles) : (c.clearTimeouts handles).targets rest p = [] := by
  rw [targets_eq_nil]
  intro t ht
  obtain ⟨hmem, hkept⟩ := List.mem_filter.1 ht
  cases hp : p t.callback with
  | false => rfl
  | true => exact absurd (h t hmem hp) (of_decide_eq_true hkept)

/-- A timer that fires is one of the chains, or none of them. -/
theorem Sound.targets_fire (h : c.Sound) {t : Timer β} (ht : t ∈ c.armed) : (c.targets rest p).Perm
    ((if p t.callback then [t.due + rest t.callback] else []) ++
      ({ c with armed := c.armed.filter fun t' => decide (t'.handle ≠ t.handle) } : Clock β).targets rest p) := by
  have hsplit : c.armed.Perm (t :: c.armed.filter fun t' => decide (t'.handle ≠ t.handle)) := by
    obtain ⟨before, after, harmed⟩ := List.append_of_mem ht
    have hhandles := h.handles
    rw [harmed, List.map_append, List.map_cons, List.nodup_append, List.nodup_cons] at hhandles
    obtain ⟨-, ⟨hafter, -⟩, hbefore⟩ := hhandles
    -- no other timer has the handle
    have hother : ∀ t' ∈ before ++ after, decide (t'.handle ≠ t.handle) = true := by
      intro t' ht'
      rw [decide_eq_true_eq]
      intro heq
      obtain ht' | ht' := List.mem_append.1 ht'
      · exact hbefore _ (List.mem_map_of_mem ht') _ List.mem_cons_self heq
      · exact hafter (List.mem_map.2 ⟨t', ht', heq⟩)
    rw [harmed, List.filter_append, List.filter_cons_of_neg (by simp), ← List.filter_append,
      List.filter_eq_self.2 hother]
    exact List.perm_middle
  have hperm := (hsplit.filter fun t => p t.callback).map fun t => t.due + rest t.callback
  refine hperm.trans ?_
  cases hp : p t.callback <;> simp [hp, targets]

theorem Sound.le_targets (h : c.Sound) (hrest : ∀ t ∈ c.armed, 0 ≤ rest t.callback) :
    ∀ x ∈ c.targets rest p, c.now ≤ x := by
  intro x hx
  obtain ⟨t, ht, rfl⟩ := List.mem_map.1 hx
  have hmem := (List.mem_filter.1 ht).1
  exact (h.due t hmem).trans (le_add_of_nonneg_right (hrest t hmem))

end

end Clock

end BookingSystem.Base
