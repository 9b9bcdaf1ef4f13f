import Mathlib.Data.List.Basic
import Mathlib.Data.List.Induction
import Mathlib.Data.List.Nodup
import Mathlib.Data.List.Perm.Basic

/-!
# Rows in groups

Rows are put into groups by a key, the groups in the order in which their keys come up (`grouped`); of several rows with
one identifier the first can be kept (`unseen`). The group of a key has all rows of the key (`mem_grouped`), so another
order of the rows gives the same groups up to order (`exists_group_of_perm`). Which row is the first of an identifier
depends on the order, if there are several.
-/

namespace BookingSystem.Base

variable {κ ι ρ : Type} [DecidableEq κ] [DecidableEq ι]

/-! ### Groups -/

/-- A row goes to the end of the group of its key, or begins a group. -/
def pushRow (groups : List (κ × List ρ)) (k : κ) (r : ρ) : List (κ × List ρ) :=
  if groups.any fun g => decide (g.1 = k) then groups.map fun g => if g.1 = k then (g.1, g.2 ++ [r]) else g
  else groups ++ [(k, [r])]

def grouped (key : ρ → κ) (rows : List ρ) : List (κ × List ρ) := rows.foldl (fun gs r => pushRow gs (key r) r) []

/-- There is one group for each key, with all rows of the key. -/
structure Groups (key : ρ → κ) (rows : List ρ) (groups : List (κ × List ρ)) : Prop where
  nodup : (groups.map Prod.fst).Nodup
  mem : ∀ k rs, (k, rs) ∈ groups ↔ rs = (rows.filter fun r => decide (key r = k)) ∧ rs ≠ []

theorem Groups.push {key : ρ → κ} {rows : List ρ} {groups : List (κ × List ρ)} (h : Groups key rows groups) (r : ρ) :
    Groups key (rows ++ [r]) (pushRow groups (key r) r) := by
  have hfilter : ∀ k, (rows ++ [r]).filter (fun r' => decide (key r' = k)) =
      (rows.filter fun r' => decide (key r' = k)) ++ if key r = k then [r] else [] := by
    intro k
    rw [List.filter_append, List.filter_singleton]
    simp
  unfold pushRow
  split
  · rename_i hany
    obtain ⟨⟨k₀, rs₀⟩, hg₀, hk₀⟩ := List.any_eq_true.1 hany
    obtain rfl : k₀ = key r := of_decide_eq_true hk₀
    refine ⟨?_, fun k rs => ?_⟩
    · rw [List.map_map]
      convert h.nodup using 2
      funext g
      simp only [Function.comp_apply]
      split <;> rfl
    · rw [hfilter, List.mem_map]
      by_cases hk : key r = k
      · subst hk
        rw [if_pos rfl]
        constructor
        · rintro ⟨⟨k, rs'⟩, hg, heq⟩
          split at heq
          · rename_i hk
            obtain rfl : k = key r := hk
            obtain ⟨-, rfl⟩ := Prod.mk.inj heq
            exact ⟨by rw [((h.mem _ _).1 hg).1], by simp⟩
          · rename_i hk
            exact absurd (congrArg Prod.fst heq) hk
        · rintro ⟨rfl, -⟩
          exact ⟨_, hg₀, by rw [if_pos rfl, ((h.mem _ _).1 hg₀).1]⟩
      · rw [if_neg hk, List.append_nil, ← h.mem]
        constructor
        · rintro ⟨g, hg, heq⟩
          split at heq
          · rename_i hk'
            exact absurd (hk'.symm.trans (Prod.mk.inj heq).1) hk
          · rwa [heq] at hg
        · exact fun hg => ⟨(k, rs), hg, if_neg (Ne.symm hk)⟩
  · rename_i hany
    -- no row of the key came before
    have hnone : ∀ rs, (key r, rs) ∉ groups := fun rs hg => hany (List.any_eq_true.2 ⟨_, hg, by simp⟩)
    have hempty : (rows.filter fun r' => decide (key r' = key r)) = [] := by
      by_contra hne
      exact hnone _ ((h.mem _ _).2 ⟨rfl, hne⟩)
    refine ⟨?_, fun k rs => ?_⟩
    · rw [List.map_append, List.map_singleton]
      refine List.nodup_append.2 ⟨h.nodup, List.nodup_singleton _, ?_⟩
      rintro a ha b hb rfl
      obtain ⟨⟨k, rs⟩, hg, rfl⟩ := List.mem_map.1 ha
      obtain rfl : k = key r := by simpa using hb
      exact hnone rs hg
    · rw [hfilter, List.mem_append, List.mem_singleton, Prod.mk.injEq]
      by_cases hk : key r = k
      · subst hk
        rw [hempty, if_pos rfl, List.nil_append]
        constructor
        · rintro (hg | ⟨-, rfl⟩)
          · exact absurd hg (hnone rs)
          · exact ⟨rfl, by simp⟩
        · exact fun h => .inr ⟨rfl, h.1⟩
      · rw [if_neg hk, List.append_nil, ← h.mem]
        exact or_iff_left fun h => hk h.1.symm

/-- No row is lost. -/
theorem flatMap_pushRow {groups : List (κ × List ρ)} (hnodup : (groups.map Prod.fst).Nodup) (k : κ) (r : ρ) :
    ((pushRow groups k r).flatMap Prod.snd).Perm (r :: groups.flatMap Prod.snd) := by
  unfold pushRow
  split
  · rename_i hany
    have hk : k ∈ groups.map Prod.fst := by
      obtain ⟨g, hg, hk⟩ := List.any_eq_true.1 hany
      exact List.mem_map.2 ⟨g, hg, of_decide_eq_true hk⟩
    clear hany
    induction groups with
    | nil => cases hk
    | cons g groups ih =>
      rw [List.map_cons, List.nodup_cons] at hnodup
      by_cases hg : g.1 = k
      · have hrest : (groups.map fun g => if g.1 = k then (g.1, g.2 ++ [r]) else g) = groups := by
          refine (List.map_congr_left fun g' hg' => ?_).trans (List.map_id _)
          rw [if_neg fun heq => hnodup.1 (List.mem_map.2 ⟨g', hg', heq.trans hg.symm⟩)]
          rfl
        rw [List.map_cons, if_pos hg, hrest]
        simp only [List.flatMap_cons, List.append_assoc]
        exact List.perm_middle
      · have hmem : k ∈ groups.map Prod.fst := (List.mem_cons.1 hk).resolve_left (Ne.symm hg)
        rw [List.map_cons, if_neg hg]
        simp only [List.flatMap_cons]
        exact ((ih hnodup.2 hmem).append_left _).trans List.perm_middle
  · rw [List.flatMap_append, List.flatMap_singleton]
    exact List.perm_append_singleton _ _

theorem groups_grouped (key : ρ → κ) (rows : List ρ) : Groups key rows (grouped key rows) := by
  induction rows using List.reverseRecOn with
  | nil => exact ⟨List.nodup_nil, fun k rs => by simp [grouped]⟩
  | append_singleton rows r ih =>
    rw [grouped, List.foldl_append]
    exact ih.push r

variable {key : ρ → κ} {rows : List ρ}

theorem nodup_grouped : ((grouped key rows).map Prod.fst).Nodup := (groups_grouped key rows).nodup

theorem mem_grouped {k : κ} {rs : List ρ} :
    (k, rs) ∈ grouped key rows ↔ rs = (rows.filter fun r => decide (key r = k)) ∧ rs ≠ [] :=
  (groups_grouped key rows).mem k rs

theorem mem_rows_of_grouped {k : κ} {rs : List ρ} {r : ρ} (hg : (k, rs) ∈ grouped key rows) (hr : r ∈ rs) :
    r ∈ rows ∧ key r = k := by
  rw [(mem_grouped.1 hg).1, List.mem_filter, decide_eq_true_eq] at hr
  exact hr

theorem exists_group {r : ρ} (hr : r ∈ rows) : ∃ rs, (key r, rs) ∈ grouped key rows ∧ r ∈ rs := by
  have hmem : r ∈ rows.filter fun r' => decide (key r' = key r) := List.mem_filter.2 ⟨hr, by simp⟩
  exact ⟨_, mem_grouped.2 ⟨rfl, List.ne_nil_of_mem hmem⟩, hmem⟩

theorem exists_group_of_perm {rows' : List ρ} (hperm : rows.Perm rows') {k : κ} {rs : List ρ}
    (hg : (k, rs) ∈ grouped key rows) : ∃ rs', (k, rs') ∈ grouped key rows' ∧ rs.Perm rs' := by
  obtain ⟨rfl, hne⟩ := mem_grouped.1 hg
  have hrs := hperm.filter fun r => decide (key r = k)
  exact ⟨_, mem_grouped.2 ⟨rfl, fun hnil => hne (hnil ▸ hrs).eq_nil⟩, hrs⟩

theorem flatMap_grouped (key : ρ → κ) (rows : List ρ) : ((grouped key rows).flatMap Prod.snd).Perm rows := by
  induction rows using List.reverseRecOn with
  | nil => exact .nil
  | append_singleton rows r ih =>
    rw [grouped, List.foldl_append]
    exact ((flatMap_pushRow nodup_grouped _ r).trans (ih.cons r)).trans (List.perm_append_singleton r rows).symm

/-! ### The first row of each identifier -/

def unseen (id : ρ → ι) : List ι → List ρ → List ρ
  | _, [] => []
  | seen, r :: rows => if id r ∈ seen then unseen id seen rows else r :: unseen id (id r :: seen) rows

variable {id : ρ → ι} {seen : List ι}

theorem mem_of_unseen {r : ρ} (h : r ∈ unseen id seen rows) : r ∈ rows ∧ id r ∉ seen := by
  induction rows generalizing seen with
  | nil => cases h
  | cons x rows ih =>
    unfold unseen at h
    split at h
    · obtain ⟨hr, hs⟩ := ih h
      exact ⟨List.mem_cons_of_mem _ hr, hs⟩
    · rename_i hx
      rcases List.mem_cons.1 h with rfl | h
      · exact ⟨List.mem_cons_self, hx⟩
      · obtain ⟨hr, hs⟩ := ih h
        exact ⟨List.mem_cons_of_mem _ hr, fun hseen => hs (List.mem_cons_of_mem _ hseen)⟩

theorem nodup_unseen (id : ρ → ι) (seen : List ι) (rows : List ρ) : ((unseen id seen rows).map id).Nodup := by
  induction rows generalizing seen with
  | nil => exact List.nodup_nil
  | cons x rows ih =>
    unfold unseen
    split
    · exact ih seen
    · rw [List.map_cons, List.nodup_cons]
      refine ⟨fun hx => ?_, ih _⟩
      obtain ⟨r, hr, heq⟩ := List.mem_map.1 hx
      exact (mem_of_unseen hr).2 (heq ▸ List.mem_cons_self)

/-- No identifier is lost. -/
theorem exists_unseen {r : ρ} (hr : r ∈ rows) (hs : id r ∉ seen) : ∃ r' ∈ unseen id seen rows, id r' = id r := by
  induction rows generalizing seen with
  | nil => cases hr
  | cons x rows ih =>
    unfold unseen
    split
    · rename_i hx
      rcases List.mem_cons.1 hr with rfl | hr
      · exact absurd hx hs
      · exact ih hr hs
    · by_cases hxr : id x = id r
      · exact ⟨x, List.mem_cons_self, hxr⟩
      · have hr' : r ∈ rows := (List.mem_cons.1 hr).resolve_left (by rintro rfl; exact hxr rfl)
        have hs' : id r ∉ id x :: seen := by simp [hs, Ne.symm hxr]
        obtain ⟨r', hr', heq⟩ := ih hr' hs'
        exact ⟨r', List.mem_cons_of_mem _ hr', heq⟩

theorem unseen_perm {rows' : List ρ} (hperm : rows.Perm rows')
    (hid : ∀ r ∈ rows, ∀ r' ∈ rows, id r = id r' → r = r') : (unseen id [] rows).Perm (unseen id [] rows') := by
  have hmem : ∀ xs : List ρ, (∀ r, r ∈ xs ↔ r ∈ rows) → ∀ r, r ∈ unseen id [] xs ↔ r ∈ rows := by
    intro xs hxs r
    refine ⟨fun hr => (hxs r).1 (mem_of_unseen hr).1, fun hr => ?_⟩
    obtain ⟨r', hr', heq⟩ : ∃ r' ∈ unseen id [] xs, id r' = id r := exists_unseen ((hxs r).2 hr) List.not_mem_nil
    rwa [hid r hr r' ((hxs r').1 (mem_of_unseen hr').1) heq.symm]
  have hnodup : ∀ xs, (unseen id [] xs).Nodup := fun xs => .of_map id (nodup_unseen id [] xs)
  refine (List.perm_ext_iff_of_nodup (hnodup rows) (hnodup rows')).2 fun r => ?_
  rw [hmem rows (fun _ => Iff.rfl), hmem rows' fun _ => hperm.mem_iff.symm]

end BookingSystem.Base
