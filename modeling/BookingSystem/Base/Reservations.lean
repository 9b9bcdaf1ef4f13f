import Mathlib.Algebra.Order.Ring.Int
import Mathlib.Data.List.Perm.Basic
import Mathlib.Order.Interval.Set.Disjoint
import Mathlib.Order.CompletePartialOrder
import Mathlib.Order.ConditionallyCompleteLattice.Basic
import Mathlib.Data.Int.ConditionallyCompleteOrder

/-!
# Reservations of places for a time

Parties claim slots, that is places for a window of time, and what they have claimed becomes part of a list of slots
later, at once or one by one. Some places exclude each other, some hold a number of slots at a time. The list is `Sound`
when no two slots of places that exclude each other have a time in common and no place holds more than it can. `Safe`
is the invariant that lets every party add its claims in its own time: a claim meets nothing that it excludes, neither
in the list nor among the claims of others, and there is room for it. It is kept when a slot is claimed that was
compared with the list and with all claims (`Safe.claim`), when a claim enters the list (`Safe.put`), and when claims
are given up (`Safe.mono`).
-/

namespace BookingSystem.Base.Reservations

/-- A place for a window of time; a slot that is not live holds nothing. -/
structure Slot (κ ρ τ : Type) where
  id : κ
  place : ρ
  start : τ
  finish : τ
  live : Bool

variable {κ ρ τ ι : Type} [DecidableEq κ] [DecidableEq ρ] [LinearOrder τ]

def Slot.meets (x y : Slot κ ρ τ) : Bool := decide (x.start < y.finish) && decide (y.start < x.finish)

def Slot.clashes (x y : Slot κ ρ τ) : Bool := x.live && y.live && decide (x.id ≠ y.id) && x.meets y

def Slot.holds (x : Slot κ ρ τ) (p : ρ) (t : τ) : Bool :=
  decide (x.place = p) && x.live && decide (x.start ≤ t) && decide (t < x.finish)

/-- A slot of the same place that clashes with `x`. -/
def Slot.rivals (x y : Slot κ ρ τ) : Bool := decide (y.place = x.place) && x.clashes y

omit [DecidableEq κ] [DecidableEq ρ] in
theorem Slot.meets_comm (x y : Slot κ ρ τ) : x.meets y = y.meets x := Bool.and_comm _ _

omit [DecidableEq ρ] in
theorem Slot.clashes_comm (x y : Slot κ ρ τ) : x.clashes y = y.clashes x := by
  rw [Slot.clashes, Slot.clashes, Slot.meets_comm, Bool.and_comm x.live, decide_eq_decide.2 (ne_comm (a := x.id))]

omit [DecidableEq κ] [DecidableEq ρ] in
theorem Slot.disjoint_of_not_meets {x y : Slot κ ρ τ} (h : x.meets y = false) :
    Disjoint (Set.Ico x.start x.finish) (Set.Ico y.start y.finish) := by
  refine Set.disjoint_left.2 fun t hx hy => ?_
  have hmeets : x.meets y = true := by
    rw [Slot.meets, Bool.and_eq_true, decide_eq_true_eq, decide_eq_true_eq]
    exact ⟨hx.1.trans_lt hy.2, hy.1.trans_lt hx.2⟩
  rw [h] at hmeets
  cases hmeets

theorem Slot.rivals_of_holds {x y : Slot κ ρ τ} {p : ρ} {t : τ} (hx : x.holds p t = true) (hy : y.holds p t = true)
    (hne : x.id ≠ y.id) : x.rivals y = true := by
  simp only [Slot.holds, Bool.and_eq_true, decide_eq_true_eq] at hx hy
  obtain ⟨⟨⟨rfl, hlive⟩, hstart⟩, hfinish⟩ := hx
  obtain ⟨⟨⟨hplace, hlive'⟩, hstart'⟩, hfinish'⟩ := hy
  simp only [Slot.rivals, Slot.clashes, Slot.meets, Bool.and_eq_true, decide_eq_true_eq]
  exact ⟨hplace, ⟨⟨hlive, hlive'⟩, hne⟩, hstart.trans_lt hfinish', hstart'.trans_lt hfinish⟩

/-! ### Writing a slot -/

def put (T : List (Slot κ ρ τ)) (w : Slot κ ρ τ) : List (Slot κ ρ τ) :=
  T.filter (fun y => decide (y.id ≠ w.id)) ++ [w]

omit [DecidableEq ρ] [LinearOrder τ] in
theorem mem_put {T : List (Slot κ ρ τ)} {w y : Slot κ ρ τ} : y ∈ put T w ↔ y ∈ T ∧ y.id ≠ w.id ∨ y = w := by
  simp [put]

omit [DecidableEq ρ] [LinearOrder τ] in
theorem countP_put (T : List (Slot κ ρ τ)) (w : Slot κ ρ τ) (q : Slot κ ρ τ → Bool) :
    (put T w).countP q = (T.countP fun y => q y && decide (y.id ≠ w.id)) + if q w then 1 else 0 := by
  simp only [put, List.countP_append, List.countP_filter, List.countP_singleton]

omit [DecidableEq κ] [DecidableEq ρ] [LinearOrder τ] in
theorem countP_and_le (T : List (Slot κ ρ τ)) (p q : Slot κ ρ τ → Bool) :
    (T.countP fun y => q y && p y) ≤ T.countP q :=
  List.countP_mono_left fun _ _ h => (Bool.and_eq_true _ _ ▸ h).1

omit [DecidableEq ρ] [LinearOrder τ] in
theorem put_perm {T : List (Slot κ ρ τ)} {w : Slot κ ρ τ} (hw : w ∈ T) (hnodup : (T.map Slot.id).Nodup) :
    (put T w).Perm T := by
  induction T with
  | nil => cases hw
  | cons x T ih =>
    rw [List.map_cons, List.nodup_cons] at hnodup
    have hfilter : ∀ k ∉ T.map Slot.id, T.filter (fun y => decide (y.id ≠ k)) = T := fun k hk =>
      List.filter_eq_self.2 fun y hy => decide_eq_true fun heq => hk (List.mem_map.2 ⟨y, hy, heq⟩)
    obtain rfl | hw := List.mem_cons.1 hw
    · rw [put, List.filter_cons, if_neg (by simp), hfilter _ hnodup.1]
      exact List.perm_append_singleton _ _
    · have hne : x.id ≠ w.id := fun heq => hnodup.1 (heq ▸ List.mem_map_of_mem hw)
      rw [put, List.filter_cons, if_pos (decide_eq_true hne)]
      exact (ih hw hnodup.2).cons x

/-! ### Sound lists -/

variable (Excludes : ρ → ρ → Prop) (capacity : ρ → Option ℤ)

/-- No two slots of places that exclude each other have a time in common, and no place holds more than it can. -/
structure Sound (T : List (Slot κ ρ τ)) : Prop where
  apart : ∀ x ∈ T, ∀ y ∈ T, x.id ≠ y.id → x.live = true → y.live = true → Excludes x.place y.place →
    Disjoint (Set.Ico x.start x.finish) (Set.Ico y.start y.finish)
  fits : ∀ p n, capacity p = some n → ∀ t, ((T.countP fun y => y.holds p t : ℕ) : ℤ) ≤ n

/-- **What lets every party add its claims in its own time.** -/
structure Safe (T : List (Slot κ ρ τ)) (claims : ι → List (Slot κ ρ τ)) : Prop where
  sound : Sound Excludes capacity T
  apart : ∀ i, ∀ x ∈ claims i, ∀ y ∈ T, Excludes x.place y.place → x.clashes y = false
  among : ∀ i j, ∀ x ∈ claims i, ∀ y ∈ claims j, Excludes x.place y.place → x.clashes y = false
  crowd : ∀ i j, ∀ x ∈ claims i, ∀ y ∈ claims j, capacity x.place ≠ none → x.rivals y = false
  room : ∀ i, ∀ x ∈ claims i, x.live = true → ∀ n, capacity x.place = some n → ((T.countP x.rivals : ℕ) : ℤ) < n

variable {Excludes capacity} {T T' : List (Slot κ ρ τ)} {claims claims' : ι → List (Slot κ ρ τ)}

theorem Sound.safe (h : Sound Excludes capacity T) (hnone : ∀ i, claims i = []) : Safe Excludes capacity T claims where
  sound := h
  apart := fun i x hx => by rw [hnone] at hx; cases hx
  among := fun i j x hx => by rw [hnone] at hx; cases hx
  crowd := fun i j x hx => by rw [hnone] at hx; cases hx
  room := fun i x hx => by rw [hnone] at hx; cases hx

theorem Safe.mono (h : Safe Excludes capacity T claims) (hsub : ∀ i, claims' i ⊆ claims i) :
    Safe Excludes capacity T claims' where
  sound := h.sound
  apart := fun i x hx => h.apart i x (hsub i hx)
  among := fun i j x hx y hy => h.among i j x (hsub i hx) y (hsub j hy)
  crowd := fun i j x hx y hy => h.crowd i j x (hsub i hx) y (hsub j hy)
  room := fun i x hx => h.room i x (hsub i hx)

theorem Safe.perm (h : Safe Excludes capacity T claims) (hperm : T'.Perm T) : Safe Excludes capacity T' claims where
  sound :=
    { apart := fun x hx y hy => h.sound.apart x (hperm.subset hx) y (hperm.subset hy)
      fits := fun p n hn t => by rw [hperm.countP_eq]; exact h.sound.fits p n hn t }
  apart := fun i x hx y hy => h.apart i x hx y (hperm.subset hy)
  among := h.among
  crowd := h.crowd
  room := fun i x hx hlive n hn => by rw [hperm.countP_eq]; exact h.room i x hx hlive n hn

/-- **A claim enters the list.** -/
theorem Safe.put (h : Safe Excludes capacity T claims) (hsymm : ∀ p q, Excludes p q → Excludes q p) {i : ι}
    {w : Slot κ ρ τ} (hw : w ∈ claims i) : Safe Excludes capacity (put T w) claims := by
  have hdisjoint : ∀ y ∈ T, w.id ≠ y.id → w.live = true → y.live = true → Excludes w.place y.place →
      Disjoint (Set.Ico w.start w.finish) (Set.Ico y.start y.finish) := fun y hy hne hlive hlive' hexcludes => by
    refine Slot.disjoint_of_not_meets ?_
    have hclash := h.apart i w hw y hy hexcludes
    simpa [Slot.clashes, hlive, hlive', hne] using hclash
  refine ⟨⟨fun x hx y hy hne hlive hlive' hexcludes => ?_, fun p n hn t => ?_⟩, fun j x hx y hy hexcludes => ?_,
    h.among, h.crowd, fun j x hx hlive n hn => ?_⟩
  · obtain ⟨hxT, -⟩ | rfl := mem_put.1 hx
    · obtain ⟨hyT, -⟩ | rfl := mem_put.1 hy
      · exact h.sound.apart x hxT y hyT hne hlive hlive' hexcludes
      · exact (hdisjoint x hxT hne.symm hlive' hlive (hsymm _ _ hexcludes)).symm
    · obtain ⟨hyT, -⟩ | rfl := mem_put.1 hy
      · exact hdisjoint y hyT hne hlive hlive' hexcludes
      · exact absurd rfl hne
  · rw [countP_put]
    by_cases hholds : w.holds p t = true
    · -- whatever else holds the place at this time is a rival
      have hplace : w.place = p ∧ w.live = true := by
        simp only [Slot.holds, Bool.and_eq_true, decide_eq_true_eq] at hholds
        exact hholds.1.1
      have hroom := h.room i w hw hplace.2 n (by rw [hplace.1]; exact hn)
      have hle : (T.countP fun y => y.holds p t && decide (y.id ≠ w.id)) ≤ T.countP w.rivals := by
        refine List.countP_mono_left fun y _ hy => ?_
        rw [Bool.and_eq_true, decide_eq_true_eq] at hy
        exact Slot.rivals_of_holds hholds hy.1 hy.2.symm
      rw [if_pos hholds]
      push_cast
      omega
    · have hle := countP_and_le T (fun y => decide (y.id ≠ w.id)) fun y => y.holds p t
      have hfits := h.sound.fits p n hn t
      rw [if_neg hholds]
      push_cast
      omega
  · obtain ⟨hy, -⟩ | rfl := mem_put.1 hy
    · exact h.apart j x hx y hy hexcludes
    · exact h.among j i x hx y hw hexcludes
  · have hrival : x.rivals w = false := h.crowd j i x hx w hw (by rw [hn]; simp)
    have hle := countP_and_le T (fun y => decide (y.id ≠ w.id)) x.rivals
    have hroom := h.room j x hx hlive n hn
    rw [countP_put, hrival]
    simp only [Bool.false_eq_true, if_false, Nat.add_zero]
    omega

/-- **A claim that was compared** with the list and with all claims. -/
theorem Safe.claim (h : Safe Excludes capacity T claims) (hsymm : ∀ p q, Excludes p q → Excludes q p) {w : Slot κ ρ τ}
    (hclaims : ∀ j, ∀ x ∈ claims' j, x ∈ claims j ∨ x = w)
    (hapart : ∀ y ∈ T, Excludes w.place y.place → w.clashes y = false)
    (hamong : ∀ j, ∀ y ∈ claims j, Excludes w.place y.place → w.clashes y = false)
    (hcrowd : capacity w.place ≠ none → ∀ j, ∀ y ∈ claims j, w.rivals y = false)
    (hroom : w.live = true → ∀ n, capacity w.place = some n → ((T.countP w.rivals : ℕ) : ℤ) < n) :
    Safe Excludes capacity T claims' := by
  have hself : w.clashes w = false := by simp [Slot.clashes]
  have hrivals : ∀ x y : Slot κ ρ τ, x.rivals y = y.rivals x := fun x y => by
    rw [Slot.rivals, Slot.rivals, Slot.clashes_comm, decide_eq_decide.2 (eq_comm (a := y.place))]
  refine ⟨h.sound, fun j x hx => ?_, fun j k x hx y hy hexcludes => ?_, fun j k x hx y hy hcap => ?_, fun j x hx => ?_⟩
  · obtain hx | rfl := hclaims j x hx
    · exact h.apart j x hx
    · exact hapart
  · obtain hx | rfl := hclaims j x hx
    · obtain hy | rfl := hclaims k y hy
      · exact h.among j k x hx y hy hexcludes
      · rw [Slot.clashes_comm]
        exact hamong j x hx (hsymm _ _ hexcludes)
    · obtain hy | rfl := hclaims k y hy
      · exact hamong k y hy hexcludes
      · exact hself
  · obtain hx | rfl := hclaims j x hx
    · obtain hy | rfl := hclaims k y hy
      · exact h.crowd j k x hx y hy hcap
      · by_cases hplace : x.place = y.place
        · rw [hrivals]
          exact hcrowd (hplace ▸ hcap) j x hx
        · simp [Slot.rivals, Ne.symm hplace]
    · obtain hy | rfl := hclaims k y hy
      · exact hcrowd hcap k y hy
      · rw [Slot.rivals, hself, Bool.and_false]
  · obtain hx | rfl := hclaims j x hx
    · exact h.room j x hx
    · exact hroom

end BookingSystem.Base.Reservations
