import Mathlib.Data.List.Nodup
import Mathlib.Data.List.Basic

/-!
# Versions of a record

A record is written again and again. It has a version after each write, and a writer names the version that it has read.
`NoSilentOverwrite` says of the writes that succeeded that each one was made over the version that its writer had read,
and that no two named the same version. The record is `Sound`, and so nothing is overwritten silently
(`Sound.noSilentOverwrite`), if every write names the current version and brings one that the record never had
(`Sound.write`).
-/

namespace BookingSystem.Base

/-- A write that succeeded: the version its writer has named, the place of the version that its writer has read, and the
place of the version that it was made over. -/
structure Write (ι τ : Type) where
  writer : ι
  named : τ
  seen : ℕ
  before : ℕ

/-- **No silent overwrite.** Every write was made over the version that its writer has read, and no two of them named
the same version. -/
structure NoSilentOverwrite {ι τ : Type} (log : List (Write ι τ)) : Prop where
  seen : ∀ w ∈ log, w.seen = w.before
  once : log.Pairwise fun v w => v.named ≠ w.named

/-- The versions of a record so far, the current one last, and the writes that brought them. -/
structure Record (ι τ : Type) where
  versions : List τ
  log : List (Write ι τ) := []

namespace Record

variable {ι τ : Type} {r : Record ι τ} {v : τ}

def place (r : Record ι τ) : ℕ := r.versions.length - 1

def renew (r : Record ι τ) (v : τ) : Record ι τ := { r with versions := r.versions ++ [v] }

def write (r : Record ι τ) (i : ι) (named : τ) (seen : ℕ) (v : τ) : Record ι τ :=
  ⟨r.versions ++ [v], r.log ++ [⟨i, named, seen, r.place⟩]⟩

/-- The version at the place is `v`. -/
def Saw (r : Record ι τ) (seen : ℕ) (v : τ) : Prop := r.versions[seen]? = some v

/-- The current version is `v`. -/
def Current (r : Record ι τ) (v : τ) : Prop := r.versions.getLast? = some v

theorem Saw.append {seen : ℕ} (h : r.Saw seen v) (vs : List τ) (log : List (Write ι τ)) :
    Record.Saw ⟨r.versions ++ vs, log⟩ seen v := by
  obtain ⟨hlt, -⟩ := List.getElem?_eq_some_iff.1 h
  exact (List.getElem?_append_left hlt).trans h

theorem Saw.mem {seen : ℕ} (h : r.Saw seen v) : v ∈ r.versions := List.mem_of_getElem? h

theorem Current.saw (h : r.Current v) : r.Saw r.place v := by
  rw [Saw, place, ← List.getLast?_eq_getElem?]
  exact h

theorem Current.pos (h : r.Current v) : 0 < r.versions.length := by
  have hne : r.versions ≠ [] := by
    intro hnil
    rw [Current, hnil] at h
    cases h
  exact List.length_pos_iff.2 hne

theorem Current.append (vs : List τ) (v : τ) (log : List (Write ι τ)) : Record.Current ⟨vs ++ [v], log⟩ v := by
  rw [Current, List.getLast?_append, List.getLast?_singleton, Option.some_or]

/-- The versions differ, and every write has named the one that it was made over. -/
structure Sound (r : Record ι τ) : Prop where
  nodup : r.versions.Nodup
  seen : ∀ w ∈ r.log, w.seen = w.before
  named : ∀ w ∈ r.log, r.Saw w.seen w.named
  earlier : ∀ w ∈ r.log, w.before < r.place
  ordered : r.log.Pairwise fun w w' => w.before < w'.before

theorem sound_singleton (v : τ) : Sound (⟨[v], []⟩ : Record ι τ) where
  nodup := List.nodup_singleton v
  seen _ hw := nomatch hw
  named _ hw := nomatch hw
  earlier _ hw := nomatch hw
  ordered := .nil

/-- Versions that differ are at one place. -/
theorem Sound.place_eq (h : r.Sound) {seen : ℕ} (hsaw : r.Saw seen v) (hcur : r.Current v) : seen = r.place := by
  obtain ⟨hlt, hseen⟩ := List.getElem?_eq_some_iff.1 hsaw
  obtain ⟨hlt', hplace⟩ := List.getElem?_eq_some_iff.1 hcur.saw
  exact (h.nodup.getElem_inj_iff).1 (hseen.trans hplace.symm)

theorem Sound.noSilentOverwrite (h : r.Sound) : NoSilentOverwrite r.log where
  seen := h.seen
  once := by
    refine h.ordered.imp_of_mem fun {w w'} hw hw' hlt hsame => ?_
    obtain ⟨_, hv⟩ := List.getElem?_eq_some_iff.1 (h.named w hw)
    obtain ⟨_, hv'⟩ := List.getElem?_eq_some_iff.1 (h.named w' hw')
    have hseen : w.seen = w'.seen := h.nodup.getElem_inj_iff.1 (by rw [hv, hv', hsame])
    rw [h.seen w hw, h.seen w' hw'] at hseen
    exact absurd hseen (Nat.ne_of_lt hlt)

theorem place_append (hpos : 0 < r.versions.length) (log : List (Write ι τ)) :
    Record.place ⟨r.versions ++ [v], log⟩ = r.place + 1 := by
  simp only [place, List.length_append, List.length_singleton]
  omega

theorem nodup_append (h : r.Sound) (hfresh : v ∉ r.versions) : (r.versions ++ [v]).Nodup := by
  rw [← List.concat_eq_append]
  exact h.nodup.concat hfresh

theorem Sound.renew (h : r.Sound) (hpos : 0 < r.versions.length) (hfresh : v ∉ r.versions) : (r.renew v).Sound where
  nodup := nodup_append h hfresh
  seen := h.seen
  named w hw := (h.named w hw).append [v] r.log
  earlier w hw := by
    rw [Record.renew, place_append hpos]
    exact Nat.lt_succ_of_lt (h.earlier w hw)
  ordered := h.ordered

/-- **A write that names the current version** and brings one that the record never had. -/
theorem Sound.write (h : r.Sound) {i : ι} {named : τ} {seen : ℕ} (hcur : r.Current named) (hsaw : r.Saw seen named)
    (hfresh : v ∉ r.versions) : (r.write i named seen v).Sound := by
  have hplace : (r.write i named seen v).place = r.place + 1 := place_append hcur.pos _
  refine ⟨nodup_append h hfresh, ?_, ?_, ?_, ?_⟩
  · intro w hw
    rcases List.mem_append.1 hw with hw | hw
    · exact h.seen w hw
    · rw [List.mem_singleton.1 hw]
      exact h.place_eq hsaw hcur
  · intro w hw
    rcases List.mem_append.1 hw with hw | hw
    · exact (h.named w hw).append ..
    · rw [List.mem_singleton.1 hw]
      exact hsaw.append ..
  · intro w hw
    rw [hplace]
    rcases List.mem_append.1 hw with hw | hw
    · exact Nat.lt_succ_of_lt (h.earlier w hw)
    · rw [List.mem_singleton.1 hw]
      exact Nat.lt_succ_self _
  · refine List.pairwise_append.2 ⟨h.ordered, List.pairwise_singleton _ _, fun w hw w' hw' => ?_⟩
    rw [List.mem_singleton.1 hw']
    exact h.earlier w hw

end Record

end BookingSystem.Base
