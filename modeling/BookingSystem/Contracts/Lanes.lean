import Mathlib.Data.List.Nodup
import Mathlib.Data.List.Perm.Basic
import Mathlib.Data.List.Sort
import Mathlib.Tactic.Common

/-!
# The lanes of a day

The approval page draws the bookings of a room and a day side by side where they overlap. `lanes` sorts them, cuts the
day where a booking starts after all before it have ended, and puts each booking of such a cluster into the first column
whose last booking has ended. Bookings that overlap are in one cluster and in different columns of it
(`overlapping_apart`).
-/

namespace BookingSystem.Contracts.Lanes

/-- A block of the page. -/
structure Block where
  id : String
  start : ℤ
  finish : ℤ

structure Lane where
  col : ℕ
  cols : ℕ

/-- The order of the page: by the start, and then by the end. -/
def before (a b : Block) : Prop := a.start < b.start ∨ (a.start = b.start ∧ a.finish ≤ b.finish)

instance (a b : Block) : Decidable (before a b) := by unfold before; infer_instance

/-- The loop of `flush` over a cluster, with the last end of each column. -/
def columns : List ℤ → List Block → List (Block × ℕ) × List ℤ
  | colEnds, [] => ([], colEnds)
  | colEnds, b :: rest =>
    match colEnds.findIdx? fun e => decide (e ≤ b.start) with
    | some col =>
      let r := columns (colEnds.set col b.finish) rest
      ((b, col) :: r.1, r.2)
    | none =>
      let r := columns (colEnds ++ [b.finish]) rest
      ((b, colEnds.length) :: r.1, r.2)

def flush (cluster : List Block) : List (Block × Lane) :=
  (columns [] cluster).1.map fun p => (p.1, ⟨p.2, (columns [] cluster).2.length⟩)

def clusters (cluster : List Block) (clusterEnd : ℤ) : List Block → List (List Block)
  | [] => if cluster.isEmpty then [] else [cluster]
  | b :: rest =>
    if cluster.isEmpty then clusters [b] b.finish rest
    else if clusterEnd ≤ b.start then cluster :: clusters [b] b.finish rest
    else clusters (cluster ++ [b]) (max clusterEnd b.finish) rest

def lanes (blocks : List Block) : List (Block × Lane) :=
  (clusters [] 0 (blocks.insertionSort before)).flatMap flush

def Overlap (a b : Block) : Prop := a.start < b.finish ∧ b.start < a.finish

/-! ### One cluster -/

section Columns

variable {colEnds : List ℤ} {cluster : List Block}

theorem columns_spec (hsorted : cluster.Pairwise fun a b => a.start ≤ b.start) (colEnds : List ℤ) :
    (columns colEnds cluster).1.map Prod.fst = cluster ∧
      colEnds.length ≤ (columns colEnds cluster).2.length ∧
      (∀ p ∈ (columns colEnds cluster).1, p.2 < (columns colEnds cluster).2.length ∧
        ∀ e, colEnds[p.2]? = some e → e ≤ p.1.start) ∧
      (columns colEnds cluster).1.Pairwise fun p q => p.2 = q.2 → p.1.finish ≤ q.1.start := by
  induction cluster generalizing colEnds with
  | nil => exact ⟨rfl, le_rfl, fun p hp => absurd hp List.not_mem_nil, .nil⟩
  | cons b rest ih =>
    obtain ⟨hb, hrest⟩ := List.pairwise_cons.1 hsorted
    unfold columns
    split
    · rename_i col hcol
      obtain ⟨hlt, hend, -⟩ := List.findIdx?_eq_some_iff_getElem.1 hcol
      have hended := of_decide_eq_true hend
      obtain ⟨hmap, hlength, hall, hpair⟩ := ih hrest (colEnds.set col b.finish)
      rw [List.length_set] at hlength
      have hmem : ∀ p ∈ (columns (colEnds.set col b.finish) rest).1, b.start ≤ p.1.start := fun p hp =>
        hb p.1 (hmap ▸ List.mem_map_of_mem hp)
      have hafter : ∀ p ∈ (columns (colEnds.set col b.finish) rest).1, col = p.2 → b.finish ≤ p.1.start :=
        fun p hp heq => (hall p hp).2 b.finish (by rw [← heq, List.getElem?_set_self hlt])
      refine ⟨congrArg (b :: ·) hmap, hlength, List.forall_mem_cons.2 ⟨⟨hlt.trans_le hlength, fun e he => ?_⟩,
        fun p hp => ⟨(hall p hp).1, fun e he => ?_⟩⟩, List.pairwise_cons.2 ⟨hafter, hpair⟩⟩
      · rw [List.getElem?_eq_getElem hlt] at he
        exact Option.some.inj he ▸ hended
      · by_cases hcol' : col = p.2
        · rw [← hcol', List.getElem?_eq_getElem hlt] at he
          exact (Option.some.inj he ▸ hended).trans (hmem p hp)
        · exact (hall p hp).2 e (by rw [List.getElem?_set_ne hcol', he])
    · obtain ⟨hmap, hlength, hall, hpair⟩ := ih hrest (colEnds ++ [b.finish])
      rw [List.length_append, List.length_singleton] at hlength
      refine ⟨congrArg (b :: ·) hmap, (Nat.le_succ _).trans hlength, List.forall_mem_cons.2 ⟨⟨hlength, fun e he => ?_⟩,
        fun p hp => ⟨(hall p hp).1, fun e he => ?_⟩⟩, List.pairwise_cons.2 ⟨fun p hp heq => ?_, hpair⟩⟩
      · rw [List.getElem?_eq_none le_rfl] at he
        cases he
      · have hlt : p.2 < colEnds.length := (List.getElem?_eq_some_iff.1 he).1
        exact (hall p hp).2 e (by rw [List.getElem?_append_left hlt, he])
      · exact (hall p hp).2 b.finish (by rw [← heq, List.getElem?_concat_length])

def inProgress (t : ℤ) (blocks : List Block) : List Block :=
  blocks.filter fun b => decide (b.start ≤ t ∧ t < b.finish)

/-- A column is opened when a booking is in progress in each of the others. -/
theorem columns_depth {placed : List Block} (hfinish : colEnds.Subperm (placed.map Block.finish))
    (hstart : ∀ x ∈ placed, ∀ y ∈ cluster, x.start ≤ y.start) (hsorted : cluster.Pairwise fun a b => a.start ≤ b.start)
    (hproper : ∀ b ∈ cluster, b.start < b.finish) :
    (columns colEnds cluster).2.length = colEnds.length ∨
      ∃ t, (columns colEnds cluster).2.length ≤ (inProgress t (placed ++ cluster)).length := by
  induction cluster generalizing colEnds placed with
  | nil => exact .inl rfl
  | cons b rest ih =>
    obtain ⟨hb, hrest⟩ := List.pairwise_cons.1 hsorted
    have hstart' : ∀ x ∈ placed ++ [b], ∀ y ∈ rest, x.start ≤ y.start := by
      intro x hx y hy
      obtain hx | hx := List.mem_append.1 hx
      · exact hstart x hx y (.tail _ hy)
      · rw [List.mem_singleton.1 hx]
        exact hb y hy
    have hproper' : ∀ b ∈ rest, b.start < b.finish := fun y hy => hproper y (.tail _ hy)
    unfold columns
    split
    · rename_i col hcol
      obtain ⟨hlt, -, -⟩ := List.findIdx?_eq_some_iff_getElem.1 hcol
      have hsub : (colEnds.set col b.finish).Subperm ((placed ++ [b]).map Block.finish) := by
        have hperm : (colEnds.set col b.finish).Perm (colEnds.eraseIdx col ++ [b.finish]) :=
          (List.set_perm_cons_eraseIdx hlt _).trans (List.perm_append_singleton _ _).symm
        rw [List.map_append]
        exact hperm.subperm.trans
          ((List.subperm_append_right _).2 ((List.eraseIdx_sublist ..).subperm.trans hfinish))
      obtain hsame | ⟨t, ht⟩ := ih hsub hstart' hrest hproper'
      · exact .inl (hsame.trans List.length_set)
      · exact .inr ⟨t, by simpa using ht⟩
    · rename_i hnone
      have hopen : ∀ e ∈ colEnds, b.start < e := by
        simpa using hnone
      have hsub : (colEnds ++ [b.finish]).Subperm ((placed ++ [b]).map Block.finish) := by
        rw [List.map_append]
        exact (List.subperm_append_right _).2 hfinish
      have hdepth : colEnds.length + 1 ≤ (inProgress b.start (placed ++ b :: rest)).length := by
        have hall : colEnds.countP (fun e => decide (b.start < e)) = colEnds.length :=
          List.countP_eq_length.2 fun e he => decide_eq_true (hopen e he)
        have hplaced : colEnds.length ≤ (inProgress b.start placed).length := by
          rw [← hall, inProgress, ← List.countP_eq_length_filter]
          refine (hfinish.countP_le _).trans (le_of_eq ?_)
          rw [List.countP_map]
          refine List.countP_congr fun x hx => ?_
          simp [hstart x hx b List.mem_cons_self]
        have hnow : decide (b.start ≤ b.start ∧ b.start < b.finish) = true :=
          decide_eq_true ⟨le_rfl, hproper b List.mem_cons_self⟩
        rw [inProgress, List.filter_append, List.length_append, List.filter_cons, if_pos hnow, List.length_cons]
        unfold inProgress at hplaced
        omega
      obtain hsame | ⟨t, ht⟩ := ih hsub hstart' hrest hproper'
      · refine .inr ⟨b.start, ?_⟩
        rw [hsame, List.length_append, List.length_singleton]
        exact hdepth
      · exact .inr ⟨t, by simpa using ht⟩

end Columns

/-! ### The clusters -/

section Clusters

/-- Every booking but the first overlaps one before it. -/
def Linked (cluster : List Block) : Prop := ∀ p y q, cluster = p ++ y :: q → p ≠ [] → ∃ x ∈ p, Overlap x y

theorem linked_singleton (b : Block) : Linked [b] := by
  intro p y q heq hp
  cases p with
  | nil => exact absurd rfl hp
  | cons x p => cases p <;> cases heq

theorem Linked.append {cluster : List Block} {b x : Block} (h : Linked cluster) (hx : x ∈ cluster)
    (hover : Overlap x b) : Linked (cluster ++ [b]) := by
  intro p y q heq hp
  rcases List.eq_nil_or_concat q with rfl | ⟨q, z, rfl⟩
  · obtain ⟨rfl, hlast⟩ := List.append_inj' heq rfl
    obtain rfl := List.head_eq_of_cons_eq hlast
    exact ⟨x, hx, hover⟩
  · have hcut : cluster ++ [b] = (p ++ y :: q) ++ [z] := by rw [heq]; simp
    exact h p y q (List.append_inj' hcut rfl).1 hp

/-- What holds of the cluster so far. -/
structure Running (cluster : List Block) (clusterEnd : ℤ) : Prop where
  linked : Linked cluster
  ended : ∀ x ∈ cluster, x.finish ≤ clusterEnd
  reached : cluster ≠ [] → ∃ x ∈ cluster, x.finish = clusterEnd

theorem running_nil (clusterEnd : ℤ) : Running [] clusterEnd where
  linked p y q heq := by cases p with
    | nil => cases heq
    | cons x p => cases heq
  ended x hx := absurd hx List.not_mem_nil
  reached hne := absurd rfl hne

theorem running_singleton (b : Block) : Running [b] b.finish where
  linked := linked_singleton b
  ended x hx := by rw [List.mem_singleton.1 hx]
  reached _ := ⟨b, List.mem_singleton_self b, rfl⟩

theorem Running.append {cluster : List Block} {clusterEnd : ℤ} {b : Block} (h : Running cluster clusterEnd)
    (hne : cluster ≠ []) (hsorted : ∀ x ∈ cluster, x.start ≤ b.start) (hproper : b.start < b.finish)
    (hlate : b.start < clusterEnd) : Running (cluster ++ [b]) (max clusterEnd b.finish) := by
  obtain ⟨x, hx, hend⟩ := h.reached hne
  refine ⟨h.linked.append hx ⟨(hsorted x hx).trans_lt hproper, hend ▸ hlate⟩, fun y hy => ?_, fun _ => ?_⟩
  · obtain hy | hy := List.mem_append.1 hy
    · exact (h.ended y hy).trans (le_max_left ..)
    · rw [List.mem_singleton.1 hy]
      exact le_max_right ..
  · rcases le_total clusterEnd b.finish with hle | hle
    · exact ⟨b, by simp, (max_eq_right hle).symm⟩
    · exact ⟨x, List.mem_append_left _ hx, by rw [hend, max_eq_left hle]⟩

theorem clusters_spec {rest cluster : List Block} {clusterEnd : ℤ} (h : Running cluster clusterEnd)
    (hsorted : (cluster ++ rest).Pairwise fun a b => a.start ≤ b.start) (hproper : ∀ b ∈ rest, b.start < b.finish) :
    (clusters cluster clusterEnd rest).flatten = cluster ++ rest ∧
      (∀ C ∈ clusters cluster clusterEnd rest, Linked C) ∧
      (clusters cluster clusterEnd rest).Pairwise fun C D => ∀ x ∈ C, ∀ y ∈ D, x.finish ≤ y.start := by
  induction rest generalizing cluster clusterEnd with
  | nil =>
    unfold clusters
    cases cluster with
    | nil => exact ⟨rfl, fun C hC => absurd hC List.not_mem_nil, .nil⟩
    | cons x cluster =>
      refine ⟨by simp, fun C hC => ?_, List.pairwise_singleton ..⟩
      rw [List.mem_singleton.1 hC]
      exact h.linked
  | cons b rest ih =>
    obtain ⟨hcluster, hrest, hcross⟩ := List.pairwise_append.1 hsorted
    have hproper' : ∀ b ∈ rest, b.start < b.finish := fun y hy => hproper y (.tail _ hy)
    have hnext := ih (running_singleton b) hrest hproper'
    unfold clusters
    split
    · rename_i hempty
      rw [List.isEmpty_iff.1 hempty]
      exact hnext
    · rename_i hne
      rw [List.isEmpty_iff] at hne
      split
      · rename_i hgap
        obtain ⟨hflat, hlinked, hpair⟩ := hnext
        refine ⟨by rw [List.flatten_cons, hflat]; rfl, List.forall_mem_cons.2 ⟨h.linked, hlinked⟩,
          List.pairwise_cons.2 ⟨fun D hD x hx y hy => ?_, hpair⟩⟩
        have hmem : y ∈ [b] ++ rest := hflat ▸ List.mem_flatten_of_mem hD hy
        have hlater : b.start ≤ y.start := by
          obtain rfl | hy := List.mem_cons.1 hmem
          · exact le_rfl
          · exact (List.pairwise_cons.1 hrest).1 y hy
        exact ((h.ended x hx).trans hgap).trans hlater
      · rename_i hlate
        have hrun := h.append hne (fun x hx => hcross x hx b List.mem_cons_self) (hproper b List.mem_cons_self)
          (not_le.1 hlate)
        have happend : cluster ++ [b] ++ rest = cluster ++ b :: rest := by simp
        rw [← happend]
        exact ih hrun (by rw [happend]; exact hsorted) hproper'

end Clusters

/-! ### The page -/

instance before_total : Std.Total before where
  total a b := by
    unfold before
    omega

instance before_trans : IsTrans Block before where
  trans a b c hab hbc := by
    unfold before at *
    omega

section Page

variable {blocks C : List Block}

/-- What is said of two blocks that are drawn. -/
def Beside (p q : Block × Lane) : Prop := Overlap p.1 q.1 → p.2.cols = q.2.cols ∧ p.2.col ≠ q.2.col

theorem flush_spec (hsorted : C.Pairwise fun a b => a.start ≤ b.start) (hproper : ∀ b ∈ C, b.start < b.finish) :
    (flush C).map Prod.fst = C ∧ (flush C).Pairwise Beside ∧
      ∀ p ∈ flush C, p.2.col < p.2.cols ∧ ∃ t, p.2.cols ≤ (inProgress t C).length := by
  obtain ⟨hmap, -, hcols, hpair⟩ := columns_spec hsorted []
  refine ⟨?_, ?_, fun p hp => ?_⟩
  · rw [flush, List.map_map]
    exact hmap
  · rw [flush, List.pairwise_map]
    refine hpair.imp fun {p q} happart hover => ⟨rfl, fun hcol => ?_⟩
    exact absurd hover.2 (not_lt.2 (happart hcol))
  · obtain ⟨p', hp', rfl⟩ := List.mem_map.1 hp
    have hlt := (hcols p' hp').1
    refine ⟨hlt, ?_⟩
    have hnone : ∀ x ∈ ([] : List Block), ∀ y ∈ C, x.start ≤ y.start := fun x hx => absurd hx List.not_mem_nil
    have hempty : ([] : List ℤ).Subperm (([] : List Block).map Block.finish) := List.Subperm.refl []
    obtain hzero | ⟨t, ht⟩ := columns_depth hempty hnone hsorted hproper
    · rw [List.length_nil] at hzero
      omega
    · exact ⟨t, ht⟩

theorem Linked.eq_singleton {b : Block} (h : Linked C) (hids : (C.map Block.id).Nodup) (hb : b ∈ C)
    (halone : ∀ x ∈ C, x.id ≠ b.id → ¬ Overlap x b) : C = [b] := by
  obtain ⟨p, q, rfl⟩ := List.append_of_mem hb
  rw [List.map_append, List.map_cons, List.nodup_append, List.nodup_cons] at hids
  obtain ⟨-, ⟨hafter, -⟩, hbefore⟩ := hids
  have hp : p = [] := by
    by_contra hne
    obtain ⟨x, hx, hover⟩ := h p b q rfl hne
    exact halone x (by simp [hx]) (hbefore _ (List.mem_map_of_mem hx) _ List.mem_cons_self) hover
  subst hp
  cases q with
  | nil => rfl
  | cons y q =>
    obtain ⟨x, hx, hover⟩ := h [b] y q rfl (by simp)
    obtain rfl := List.mem_singleton.1 hx
    have hne : y.id ≠ x.id := fun heq => hafter (by simp [heq])
    exact absurd ⟨hover.2, hover.1⟩ (halone y (by simp) hne)

end Page

/-- **The lanes.** Every booking of the day is drawn once, in one of the columns of its cluster; two that overlap have
the same number of columns and are in different ones; there are never more columns than bookings that are in progress at
one time; and a booking that overlaps no other has the whole width. -/
theorem overlapping_apart {blocks : List Block} (hids : (blocks.map Block.id).Nodup)
    (hproper : ∀ b ∈ blocks, b.start < b.finish) :
    ((lanes blocks).map Prod.fst).Perm blocks ∧ (lanes blocks).Pairwise Beside ∧
      ∀ p ∈ lanes blocks, p.2.col < p.2.cols ∧ (∃ t, p.2.cols ≤ (inProgress t blocks).length) ∧
        ((∀ b ∈ blocks, b.id ≠ p.1.id → ¬ Overlap b p.1) → p.2.cols = 1) := by
  have hperm := List.perm_insertionSort before blocks
  have hsorted : (blocks.insertionSort before).Pairwise fun a b => a.start ≤ b.start :=
    (List.pairwise_insertionSort before blocks).imp fun {a b} hab => hab.elim le_of_lt fun h => h.1.le
  have hproper' : ∀ b ∈ blocks.insertionSort before, b.start < b.finish := fun b hb => hproper b (hperm.mem_iff.1 hb)
  have hnil : ([] ++ blocks.insertionSort before).Pairwise fun a b : Block => a.start ≤ b.start := hsorted
  obtain ⟨hflat, hlinked, hcross⟩ := clusters_spec (running_nil 0) hnil hproper'
  rw [List.nil_append] at hflat
  have hsub : ∀ C ∈ clusters [] 0 (blocks.insertionSort before), C.Sublist (blocks.insertionSort before) :=
    fun C hC => hflat ▸ List.sublist_flatten_of_mem hC
  have hflush : ∀ C ∈ clusters [] 0 (blocks.insertionSort before), (flush C).map Prod.fst = C ∧
      (flush C).Pairwise Beside ∧ ∀ p ∈ flush C, p.2.col < p.2.cols ∧ ∃ t, p.2.cols ≤ (inProgress t C).length :=
    fun C hC => flush_spec (hsorted.sublist (hsub C hC)) fun b hb => hproper' b ((hsub C hC).subset hb)
  refine ⟨?_, ?_, fun p hp => ?_⟩
  · have hmap : (lanes blocks).map Prod.fst = (clusters [] 0 (blocks.insertionSort before)).flatten := by
      rw [lanes, List.map_flatMap, List.flatMap_congr fun C hC => (hflush C hC).1, List.flatMap_id']
    rw [hmap, hflat]
    exact hperm
  · refine List.pairwise_flatMap.2 ⟨fun C hC => (hflush C hC).2.1, hcross.imp_of_mem fun {C D} hC hD hend => ?_⟩
    intro p hp q hq hover
    have hpC : p.1 ∈ C := (hflush C hC).1 ▸ List.mem_map_of_mem hp
    have hqD : q.1 ∈ D := (hflush D hD).1 ▸ List.mem_map_of_mem hq
    exact absurd hover.2 (not_lt.2 (hend _ hpC _ hqD))
  · obtain ⟨C, hC, hpC⟩ := List.mem_flatMap.1 hp
    obtain ⟨hmap, -, hall⟩ := hflush C hC
    obtain ⟨hcol, t, ht⟩ := hall p hpC
    refine ⟨hcol, ⟨t, ht.trans ?_⟩, fun halone => ?_⟩
    · exact (((hsub C hC).filter _).length_le).trans_eq (hperm.filter _).length_eq
    · have hidsC : (C.map Block.id).Nodup :=
        ((hsub C hC).map Block.id).nodup ((hperm.map Block.id).nodup_iff.2 hids)
      have hmem : p.1 ∈ C := hmap ▸ List.mem_map_of_mem hpC
      have hone := (hlinked C hC).eq_singleton hidsC hmem fun x hx =>
        halone x (hperm.mem_iff.1 ((hsub C hC).subset hx))
      rw [hone] at hpC
      obtain ⟨p', -, heq⟩ := List.mem_map.1 hpC
      rw [← heq]
      rfl

def threeBlocks : List Block := [⟨"a", 9, 11⟩, ⟨"b", 10, 12⟩, ⟨"c", 12, 13⟩]

theorem threeBlocks_apart : (lanes threeBlocks).map (fun p => (p.1.id, p.2.col, p.2.cols)) =
      [("a", 0, 2), ("b", 1, 2), ("c", 0, 1)] ∧ (lanes threeBlocks).Pairwise Beside := by
  have hids : (threeBlocks.map Block.id).Nodup := by decide
  exact ⟨by decide, (overlapping_apart hids (by decide)).2.1⟩

end BookingSystem.Contracts.Lanes
