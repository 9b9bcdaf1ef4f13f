import Mathlib.Order.Lattice
import Mathlib.Data.List.Nodup
import Mathlib.Data.List.Perm.Subperm
import Mathlib.Data.List.TakeWhile
import Mathlib.Tactic.Common

/-!
# The first elements with a property

What a list has to be like to hold the first `n` elements of an order that have a property, in increasing order: a
description that does not say how they are found. An enumeration that comes to them in order is cut off to such a list.
-/

namespace BookingSystem.Base

theorem takeWhile_take_take {α : Type} {p : α → Bool} {n m : ℕ} {l : List α} (hn : n ≤ m) :
    ((l.take m).takeWhile p).take n = (l.takeWhile p).take n := by
  induction l generalizing n m with
  | nil => rw [List.take_nil]
  | cons x l ih =>
    cases n with
    | zero => rfl
    | succ n =>
      obtain ⟨m, rfl⟩ : ∃ k, m = k + 1 := ⟨m - 1, by omega⟩
      rw [List.take_succ_cons, List.takeWhile_cons, List.takeWhile_cons]
      split
      · rw [List.take_succ_cons, List.take_succ_cons, ih (by omega)]
      · rfl

theorem length_le_of_pairwise_lt {l : List ℤ} {a b : ℤ} (hab : a ≤ b) (hsorted : l.Pairwise (· < ·))
    (hl : ∀ t ∈ l, a ≤ t ∧ t < b) : (l.length : ℤ) ≤ b - a := by
  induction l generalizing a with
  | nil =>
    rw [List.length_nil]
    omega
  | cons x l ih =>
    rw [List.pairwise_cons] at hsorted
    have hx := hl x List.mem_cons_self
    have hle := @ih (x + 1) hx.2 hsorted.2 fun t ht => ⟨hsorted.1 t ht, (hl t (List.mem_cons_of_mem _ ht)).2⟩
    rw [List.length_cons]
    push_cast
    omega

variable {α : Type} [LinearOrder α]

/-- The list holds the first `n` elements with the property, or all of them if there are fewer. -/
structure FirstOf (P : α → Prop) (n : ℕ) (l : List α) : Prop where
  sorted : l.Pairwise (· < ·)
  holds : ∀ a ∈ l, P a
  length_le : l.length ≤ n
  rest : ∀ a, P a → a ∉ l → l.length = n ∧ ∀ b ∈ l, b < a

/-- The enumeration comes to the elements with the property in increasing order, as far as it goes. -/
structure Enumerates (P : α → Prop) (l : List α) : Prop where
  sorted : l.Pairwise (· < ·)
  holds : ∀ a ∈ l, P a
  rest : ∀ a, P a → a ∉ l → ∀ b ∈ l, b < a

theorem takeWhile_eq_filter {p : α → Bool} {l : List α} (hl : l.Pairwise (· ≤ ·))
    (hdown : ∀ a b, a ≤ b → p b = true → p a = true) : l.takeWhile p = l.filter p := by
  induction l with
  | nil => rfl
  | cons x l ih =>
    rw [List.pairwise_cons] at hl
    by_cases hx : p x = true
    · rw [List.takeWhile_cons_of_pos hx, List.filter_cons_of_pos hx, ih hl.2]
    · have hnone : l.filter p = [] := List.filter_eq_nil_iff.2 fun b hb hpb => hx (hdown x b (hl.1 b hb) hpb)
      rw [List.takeWhile_cons_of_neg hx, List.filter_cons_of_neg hx, hnone]

section Lists

variable {P : α → Prop} {p : α → Bool} {n : ℕ} {l l' : List α} {a : α}

namespace FirstOf

theorem ne_nil (h : FirstOf P n l) (hn : 0 < n) (ha : P a) : l ≠ [] := by
  rintro rfl
  have hlen := (h.rest a ha List.not_mem_nil).1
  rw [List.length_nil] at hlen
  omega

theorem mem_of_least (h : FirstOf P n l) (hn : 0 < n) (ha : P a) (hleast : ∀ b, P b → a ≤ b) : a ∈ l := by
  by_contra hnot
  obtain ⟨b, hb⟩ := List.exists_mem_of_ne_nil l (h.ne_nil hn ha)
  exact absurd ((h.rest a ha hnot).2 b hb) (not_lt.2 (hleast b (h.holds b hb)))

theorem subset (h : FirstOf P n l) (h' : FirstOf P n l') : l ⊆ l' := by
  intro a ha
  by_contra hnot
  obtain ⟨hlen, hbefore⟩ := h'.rest a (h.holds a ha) hnot
  have hsub : a :: l' ⊆ l := by
    refine List.cons_subset.2 ⟨ha, fun b hb => ?_⟩
    by_contra hb'
    exact absurd ((h.rest b (h'.holds b hb) hb').2 a ha) (not_lt.2 (hbefore b hb).le)
  have hnodup : (a :: l').Nodup := List.nodup_cons.2 ⟨hnot, h'.sorted.imp ne_of_lt⟩
  have hle := (hnodup.subperm hsub).length_le
  have hmax := h.length_le
  rw [List.length_cons] at hle
  omega

theorem unique (h : FirstOf P n l) (h' : FirstOf P n l') : l = l' := by
  have hperm : l.Perm l' :=
    (List.perm_ext_iff_of_nodup (h.sorted.imp ne_of_lt) (h'.sorted.imp ne_of_lt)).2 fun a =>
      ⟨fun ha => h.subset h' ha, fun ha => h'.subset h ha⟩
  exact hperm.eq_of_pairwise (fun a b _ _ hab hba => absurd hab (lt_asymm hba)) h.sorted h'.sorted

theorem exists_le (h : FirstOf P n l) {f : ℕ → α} (hf : StrictMono f) (hP : ∀ i, P (f i)) (ha : a ∈ l) :
    ∃ i < n, a ≤ f i := by
  by_contra hall
  simp only [not_exists, not_and, not_le] at hall
  have hmem : ∀ i < n, f i ∈ l := by
    intro i hi
    by_contra hnot
    exact absurd ((h.rest _ (hP i) hnot).2 a ha) (not_lt.2 (hall i hi).le)
  have hsub : a :: (List.range n).map f ⊆ l :=
    List.cons_subset.2 ⟨ha, fun b hb => by
      obtain ⟨i, hi, rfl⟩ := List.mem_map.1 hb
      exact hmem i (List.mem_range.1 hi)⟩
  have hnew : a ∉ (List.range n).map f := fun hmap => by
    obtain ⟨i, hi, heq⟩ := List.mem_map.1 hmap
    exact absurd (hall i (List.mem_range.1 hi)) (not_lt.2 heq.ge)
  have hnodup : (a :: (List.range n).map f).Nodup :=
    List.nodup_cons.2 ⟨hnew, List.nodup_range.map hf.injective⟩
  have hle := (hnodup.subperm hsub).length_le
  have hmax := h.length_le
  rw [List.length_cons, List.length_map, List.length_range] at hle
  omega

end FirstOf

namespace Enumerates

theorem mem_takeWhile (hsorted : l.Pairwise (· < ·)) (hdown : ∀ a b, a ≤ b → p b = true → p a = true) (ha : a ∈ l)
    (hp : p a = true) : a ∈ l.takeWhile p := by
  induction l with
  | nil => cases ha
  | cons x l ih =>
    rw [List.pairwise_cons] at hsorted
    rcases List.mem_cons.1 ha with rfl | ha
    · rw [List.takeWhile_cons_of_pos hp]
      exact List.mem_cons_self
    · rw [List.takeWhile_cons_of_pos (hdown x a (hsorted.1 a ha).le hp)]
      exact List.mem_cons_of_mem _ (ih hsorted.2 ha)

theorem rest_take (hsorted : l.Pairwise (· < ·)) (ha : a ∈ l) (hnot : a ∉ l.take n) :
    (l.take n).length = n ∧ ∀ b ∈ l.take n, b < a := by
  have hdrop : a ∈ l.drop n := by
    rw [← List.take_append_drop n l] at ha
    exact (List.mem_append.1 ha).resolve_left hnot
  rw [← List.take_append_drop n l, List.pairwise_append] at hsorted
  have hlen := List.length_pos_of_mem hdrop
  rw [List.length_drop] at hlen
  exact ⟨by rw [List.length_take]; omega, fun b hb => hsorted.2.2 b hb a hdrop⟩

theorem firstOf (h : Enumerates P l) (hdown : ∀ a b, a ≤ b → p b = true → p a = true)
    (hlong : n ≤ l.length ∨ ∃ a ∈ l, p a = false) : FirstOf (fun a => P a ∧ p a = true) n ((l.takeWhile p).take n) where
  sorted := (h.sorted.sublist (List.takeWhile_sublist p)).sublist (List.take_sublist n _)
  holds a ha := by
    have ha := List.mem_of_mem_take ha
    exact ⟨h.holds a ((List.takeWhile_sublist p).subset ha), List.mem_takeWhile_imp ha⟩
  length_le := List.length_take_le n _
  rest := by
    rintro a ⟨hP, hp⟩ hnot
    by_cases ha : a ∈ l
    · exact rest_take (h.sorted.sublist (List.takeWhile_sublist p)) (mem_takeWhile h.sorted hdown ha hp) hnot
    · have hbefore := h.rest a hP ha
      have hall : ∀ b ∈ l, p b = true := fun b hb => hdown b a (hbefore b hb).le hp
      have hlen : n ≤ l.length := hlong.resolve_right fun ⟨b, hb, hfail⟩ => by
        rw [hall b hb] at hfail
        cases hfail
      rw [List.takeWhile_eq_self_iff.2 hall]
      exact ⟨List.length_take_of_le hlen, fun b hb => hbefore b (List.mem_of_mem_take hb)⟩

theorem take_firstOf (h : Enumerates P l) (hlong : n ≤ l.length) : FirstOf P n (l.take n) where
  sorted := h.sorted.sublist (List.take_sublist n l)
  holds a ha := h.holds a (List.mem_of_mem_take ha)
  length_le := List.length_take_le n l
  rest a ha hnot := by
    by_cases hmem : a ∈ l
    · exact rest_take h.sorted hmem hnot
    · exact ⟨List.length_take_of_le hlong, fun b hb => h.rest a ha hmem b (List.mem_of_mem_take hb)⟩

end Enumerates

theorem FirstOf.enumerates (h : FirstOf P n l) : Enumerates P l :=
  ⟨h.sorted, h.holds, fun a ha hnot => (h.rest a ha hnot).2⟩

namespace FirstOf

theorem of_initial {starts : List α} (h : FirstOf P n (l.take n)) (hpre : starts ++ [a] <+: l) (hlt : starts.length < n)
    (hlong : n ≤ l.length) : FirstOf P (starts.length + 1) (starts ++ [a]) := by
  rw [List.prefix_iff_eq_take, List.length_append, List.length_singleton] at hpre
  have htake : (l.take n).take (starts.length + 1) = l.take (starts.length + 1) := by
    rw [List.take_take, min_eq_left (by omega)]
  rw [hpre, ← htake]
  refine h.enumerates.take_firstOf ?_
  rw [List.length_take_of_le hlong]
  omega

theorem of_imp {Q : α → Prop} (h : FirstOf P n l) (hQ : ∀ a, Q a → P a) (hl : ∀ a ∈ l, Q a) : FirstOf Q n l :=
  ⟨h.sorted, hl, h.length_le, fun a ha => h.rest a (hQ a ha)⟩

theorem zero : FirstOf P 0 ([] : List α) where
  sorted := .nil
  holds _ h := nomatch h
  length_le := le_rfl
  rest _ _ _ := ⟨rfl, fun _ h => nomatch h⟩

theorem take_iff : FirstOf (· ∈ l) n (l.take n) ↔
    (l.take n).Pairwise (· < ·) ∧ ∀ b ∈ l.drop n, b ∈ l.take n ∨ ∀ a ∈ l.take n, a < b := by
  constructor
  · intro h
    refine ⟨h.sorted, fun b hb => ?_⟩
    by_cases hmem : b ∈ l.take n
    · exact .inl hmem
    · exact .inr (h.rest b (List.mem_of_mem_drop hb) hmem).2
  · rintro ⟨hsorted, hrest⟩
    refine ⟨hsorted, fun a ha => List.mem_of_mem_take ha, List.length_take_le n l, fun b hb hnot => ?_⟩
    have hdrop : b ∈ l.drop n := by
      rw [← List.take_append_drop n l] at hb
      exact (List.mem_append.1 hb).resolve_left hnot
    have hlen := List.length_pos_of_mem hdrop
    rw [List.length_drop] at hlen
    exact ⟨List.length_take_of_le (by omega), (hrest b hdrop).resolve_left hnot⟩

/-- The elements of `B` all come before those of `Q`: the first of them all are the first of `B` and then, if there is
room, those of `Q`. -/
theorem append_iff {B Q : α → Prop} {x : α} {r : List α} (hP : ∀ a, P a ↔ B a ∨ Q a) (hl : ∀ a ∈ l, a < x)
    (hB : ∀ a, B a → a < x) (hr : ∀ a ∈ r, x ≤ a) (hQ : ∀ a, Q a → x ≤ a) :
    FirstOf P n ((l ++ r).take n) ↔
      FirstOf B n (l.take n) ∧ FirstOf Q (n - l.length) (r.take (n - l.length)) := by
  have hl' : ∀ a ∈ l.take n, a < x := fun a ha => hl a (List.mem_of_mem_take ha)
  have hr' : ∀ a ∈ r.take (n - l.length), x ≤ a := fun a ha => hr a (List.mem_of_mem_take ha)
  have hlen : (l.take n).length = min n l.length := List.length_take
  rw [List.take_append]
  constructor
  · intro h
    have hsorted := List.pairwise_append.1 h.sorted
    have hlength : ∀ a, P a → a ∉ l.take n ++ r.take (n - l.length) → _ := h.rest
    rw [List.length_append] at hlength
    refine ⟨⟨hsorted.1, fun a ha => ?_, List.length_take_le n l, fun b hb hnot => ?_⟩,
      ⟨hsorted.2.1, fun a ha => ?_, List.length_take_le _ r, fun q hq hnot => ?_⟩⟩
    · have hPa := h.holds a (List.mem_append_left _ ha)
      exact ((hP a).1 hPa).resolve_right fun hq => absurd (hl' a ha) (not_lt.2 (hQ a hq))
    · have hr'' : b ∉ r.take (n - l.length) := fun hb' => absurd (hB b hb) (not_lt.2 (hr' b hb'))
      obtain ⟨hn, hall⟩ := hlength b ((hP b).2 (.inl hb)) (by simp [hnot, hr''])
      -- nothing of `Q` fits any more, for it would have to be before `b`
      have hnone : r.take (n - l.length) = [] := List.eq_nil_iff_forall_not_mem.2 fun q hq =>
        absurd (lt_trans (hall q (List.mem_append_right _ hq)) (hB b hb)) (not_lt.2 (hr' q hq))
      rw [hnone, List.length_nil, Nat.add_zero] at hn
      exact ⟨hn, fun a ha => hall a (List.mem_append_left _ ha)⟩
    · have hPa := h.holds a (List.mem_append_right _ ha)
      exact ((hP a).1 hPa).resolve_left fun hb => absurd (hB a hb) (not_lt.2 (hr' a ha))
    · have hl'' : q ∉ l.take n := fun hq' => absurd (hl' q hq') (not_lt.2 (hQ q hq))
      obtain ⟨hn, hall⟩ := hlength q ((hP q).2 (.inr hq)) (by simp [hnot, hl''])
      have hle := List.length_take_le (n - l.length) r
      exact ⟨by omega, fun a ha => hall a (List.mem_append_right _ ha)⟩
  · rintro ⟨hb, hq⟩
    refine ⟨List.pairwise_append.2 ⟨hb.sorted, hq.sorted, fun a ha c hc => lt_of_lt_of_le (hl' a ha) (hr' c hc)⟩,
      fun a ha => ?_, ?_, fun a ha hnot => ?_⟩
    · rcases List.mem_append.1 ha with ha | ha
      · exact (hP a).2 (.inl (hb.holds a ha))
      · exact (hP a).2 (.inr (hq.holds a ha))
    · have hle := hq.length_le
      rw [List.length_append]
      omega
    · rw [List.mem_append, not_or] at hnot
      rw [List.length_append]
      rcases (hP a).1 ha with ha | ha
      · obtain ⟨hn, hall⟩ := hb.rest a ha hnot.1
        have hzero : n - l.length = 0 := by omega
        rw [hzero, List.take_zero, List.length_nil, List.append_nil]
        exact ⟨hn, hall⟩
      · obtain ⟨hn, hall⟩ := hq.rest a ha hnot.2
        refine ⟨by omega, fun c hc => ?_⟩
        rcases List.mem_append.1 hc with hc | hc
        · exact lt_of_lt_of_le (hl' c hc) (hQ a ha)
        · exact hall c hc

/-- Of blocks that come one after another, each has to begin with the first elements of its part, as many as the blocks
before it leave room for. -/
theorem blocks_iff {N : ℕ} {B : ℕ → α → Prop} {block : ℕ → List α} {x : ℕ → α} (hx : ∀ k, x k ≤ x (k + 1))
    (hblock : ∀ k, ∀ a ∈ block k, x k ≤ a ∧ a < x (k + 1)) (hB : ∀ k a, B k a → x k ≤ a ∧ a < x (k + 1))
    (hlong : n ≤ ((List.range N).flatMap block).length) :
    FirstOf (fun a => ∃ k, B k a) n (((List.range N).flatMap block).take n) ↔
      ∀ k < N, FirstOf (B k) (n - ((List.range k).flatMap block).length)
        ((block k).take (n - ((List.range k).flatMap block).length)) := by
  induction N generalizing n B block x with
  | zero =>
    obtain rfl : n = 0 := Nat.le_zero.1 hlong
    exact iff_of_true zero fun k hk => absurd hk (Nat.not_lt_zero k)
  | succ N ih =>
    have hrange : ∀ k, (List.range (k + 1)).flatMap block =
        block 0 ++ (List.range k).flatMap fun j => block (j + 1) := fun k => by
      rw [List.range_succ_eq_map, List.flatMap_cons, List.flatMap_map]
    have hmono : ∀ k, x 1 ≤ x (k + 1) := fun k => by
      induction k with
      | zero => exact le_rfl
      | succ k ihk => exact ihk.trans (hx (k + 1))
    rw [hrange, List.length_append] at hlong
    rw [hrange, @append_iff _ _ _ n (block 0) (B 0) (fun a => ∃ k, B (k + 1) a) (x 1), ih (fun k => hx (k + 1))
      (fun k => hblock (k + 1)) (fun k => hB (k + 1)) (by omega), Nat.forall_lt_succ_left]
    · refine and_congr (by simp) (forall₂_congr fun k _ => ?_)
      rw [hrange, List.length_append, Nat.sub_add_eq]
    · exact fun a => Nat.or_exists_add_one.symm
    · exact fun a ha => (hblock 0 a ha).2
    · exact fun a ha => (hB 0 a ha).2
    · intro a ha
      obtain ⟨k, -, ha⟩ := List.mem_flatMap.1 ha
      exact (hmono k).trans (hblock (k + 1) a ha).1
    · rintro a ⟨k, ha⟩
      exact (hmono k).trans (hB (k + 1) a ha).1

/-- A map that keeps the order keeps the first elements. -/
theorem map_iff {β : Type} [LinearOrder β] {f : α → β} (hf : StrictMono f) :
    FirstOf (fun b => ∃ a, P a ∧ f a = b) n (l.map f) ↔ FirstOf P n l := by
  have hmem : ∀ a, f a ∈ l.map f ↔ a ∈ l := fun a => by
    rw [List.mem_map]
    exact ⟨fun ⟨b, hb, heq⟩ => hf.injective heq ▸ hb, fun ha => ⟨a, ha, rfl⟩⟩
  constructor
  · intro h
    refine ⟨(List.pairwise_map.1 h.sorted).imp hf.lt_iff_lt.1, fun a ha => ?_, ?_, fun a ha hnot => ?_⟩
    · obtain ⟨a', ha', heq⟩ := h.holds (f a) (List.mem_map_of_mem ha)
      rwa [← hf.injective heq]
    · have hle := h.length_le
      rwa [List.length_map] at hle
    · obtain ⟨hn, hall⟩ := h.rest (f a) ⟨a, ha, rfl⟩ (mt (hmem a).1 hnot)
      rw [List.length_map] at hn
      exact ⟨hn, fun b hb => hf.lt_iff_lt.1 (hall (f b) (List.mem_map_of_mem hb))⟩
  · intro h
    refine ⟨List.pairwise_map.2 (h.sorted.imp fun hlt => hf hlt), fun b hb => ?_, ?_, ?_⟩
    · obtain ⟨a, ha, rfl⟩ := List.mem_map.1 hb
      exact ⟨a, h.holds a ha, rfl⟩
    · rw [List.length_map]
      exact h.length_le
    · rintro _ ⟨a, ha, rfl⟩ hnot
      obtain ⟨hn, hall⟩ := h.rest a ha (mt (hmem a).2 hnot)
      refine ⟨by rwa [List.length_map], fun b hb => ?_⟩
      obtain ⟨a', ha', rfl⟩ := List.mem_map.1 hb
      exact hf (hall a' ha')

end FirstOf

end Lists

/-! ### What a query with an order returns

A query sorts its rows by some key and says nothing about rows that the key does not tell apart, so it may return any
list of them that is sorted. The first row with a property is then any least one among those that have it
(`Answer.find?_least`, `exists_answer`). -/

section Answers

variable {α : Type} {le : α → α → Bool} {rows l : List α} {p : α → Bool} {a : α}

/-- The list holds the rows, in an order that fits. -/
structure Answer (le : α → α → Bool) (rows l : List α) : Prop where
  perm : l.Perm rows
  sorted : l.Pairwise fun a b => le a b = true

theorem answer_mergeSort (htrans : ∀ a b c, le a b = true → le b c = true → le a c = true)
    (htotal : ∀ a b, (le a b || le b a) = true) (rows : List α) : Answer le rows (rows.mergeSort le) :=
  ⟨List.mergeSort_perm rows le, List.pairwise_mergeSort htrans htotal rows⟩

theorem Answer.find?_eq_none (h : Answer le rows l) : l.find? p = none ↔ ∀ b ∈ rows, ¬ p b = true := by
  rw [List.find?_eq_none]
  exact forall_congr' fun b => by rw [h.perm.mem_iff]

theorem Answer.find?_least (h : Answer le rows l) (htotal : ∀ a b, (le a b || le b a) = true)
    (hfind : l.find? p = some a) : a ∈ rows ∧ p a = true ∧ ∀ b ∈ rows, p b = true → le a b = true := by
  obtain ⟨hp, s, t, hl, hs⟩ := List.find?_eq_some_iff_append.1 hfind
  have hsorted := h.sorted
  rw [hl, List.pairwise_append, List.pairwise_cons] at hsorted
  refine ⟨h.perm.mem_iff.1 (List.mem_of_find?_eq_some hfind), hp, fun b hb hpb => ?_⟩
  rw [← h.perm.mem_iff, hl, List.mem_append, List.mem_cons] at hb
  rcases hb with hb | rfl | hb
  · have hnot := hs b hb
    rw [hpb] at hnot
    cases hnot
  · have hself := htotal b b
    rwa [Bool.or_self] at hself
  · exact hsorted.2.1.1 b hb

/-- Every least row with the property is the first one in some order that fits. -/
theorem exists_answer (htrans : ∀ a b c, le a b = true → le b c = true → le a c = true)
    (htotal : ∀ a b, (le a b || le b a) = true) (ha : a ∈ rows) (hp : p a = true)
    (hleast : ∀ b ∈ rows, p b = true → le a b = true) : ∃ l, Answer le rows l ∧ l.find? p = some a := by
  obtain ⟨s, t, rfl⟩ := List.append_of_mem ha
  -- first the rows that come strictly before it, and then those that need not
  have hbefore := answer_mergeSort htrans htotal ((s ++ t).filter fun b => !le a b)
  have hafter := answer_mergeSort htrans htotal ((s ++ t).filter fun b => le a b)
  refine ⟨((s ++ t).filter fun b => !le a b).mergeSort le ++ a :: ((s ++ t).filter fun b => le a b).mergeSort le,
    ⟨?_, ?_⟩, ?_⟩
  · refine List.perm_middle.trans (.trans (.cons a ?_) List.perm_middle.symm)
    refine (hbefore.perm.append hafter.perm).trans (List.perm_append_comm.trans ?_)
    exact List.filter_append_perm (fun b => le a b) (s ++ t)
  · have hle : ∀ b ∈ ((s ++ t).filter fun b => !le a b).mergeSort le, le b a = true := by
      intro b hb
      have hnot := (List.mem_filter.1 (hbefore.perm.mem_iff.1 hb)).2
      have htot := htotal a b
      rw [Bool.not_eq_true'] at hnot
      rwa [hnot, Bool.false_or] at htot
    have hge : ∀ b ∈ ((s ++ t).filter fun b => le a b).mergeSort le, le a b = true := fun b hb =>
      (List.mem_filter.1 (hafter.perm.mem_iff.1 hb)).2
    rw [List.pairwise_append, List.pairwise_cons]
    refine ⟨hbefore.sorted, ⟨hge, hafter.sorted⟩, fun b hb c hc => ?_⟩
    rcases List.mem_cons.1 hc with rfl | hc
    · exact hle b hb
    · exact htrans b a c (hle b hb) (hge c hc)
  · rw [List.find?_append, List.find?_eq_none.2, Option.none_or, List.find?_cons, hp]
    intro b hb hpb
    obtain ⟨hmem, hnot⟩ := List.mem_filter.1 (hbefore.perm.mem_iff.1 hb)
    have hmem' : b ∈ s ++ a :: t := by
      rcases List.mem_append.1 hmem with hmem | hmem
      · exact List.mem_append_left _ hmem
      · exact List.mem_append_right _ (List.mem_cons_of_mem _ hmem)
    rw [hleast b hmem' hpb] at hnot
    cases hnot

end Answers

end BookingSystem.Base
