import Mathlib.Data.List.Nodup

/-!
# Tables

A `Table` is a list of rows no two of which have the same key, in insertion order. The statements that act on
it are the ones a relational store offers: look a row up by its key, insert new rows, rewrite the rows a test
selects, and save one row over the stored row of its key. Every lookup after a statement is reduced to a lookup
before it (`find?_update`, `find?_save`, `find?_insert?`).

Next to the primary key, no two rows of an `Indexed` table have the same value of the index `ix`. A row is looked up by
either; `put?` writes a whole row, over the stored row of its key or as a new one, and is refused when another row has
its index value; `modify` rewrites the row of a key and leaves the index alone.
-/

namespace BookingSystem.Base

/-- Rows of type `α` carry a key of type `κ`. -/
class Keyed (α : Type) (κ : outParam Type) where
  key : α → κ

export Keyed (key)

/-- Rows in insertion order, at most one for each key. -/
@[ext]
structure Table (α : Type) {κ : Type} [Keyed α κ] where
  rows : List α
  nodup : (rows.map key).Nodup

namespace Table

variable {α κ : Type} [Keyed α κ] [DecidableEq κ]

def empty : Table α := ⟨[], by simp⟩

omit [DecidableEq κ] in
@[simp] theorem rows_empty : (empty : Table α).rows = [] := rfl

def single (a : α) : Table α := ⟨[a], List.nodup_singleton _⟩

def find? (t : Table α) (k : κ) : Option α := t.rows.find? fun a => decide (key a = k)

theorem find?_eq_some_iff {t : Table α} {k : κ} {a : α} :
    t.find? k = some a ↔ a ∈ t.rows ∧ key a = k := by
  constructor
  · intro h
    exact ⟨List.mem_of_find?_eq_some h, by simpa using List.find?_some h⟩
  · rintro ⟨ha, rfl⟩
    obtain ⟨b, hb⟩ : ∃ b, t.find? (key a) = some b := by
      rw [← Option.isSome_iff_exists]
      exact List.find?_isSome.2 ⟨a, ha, by simp⟩
    have hbk : key b = key a := by simpa using List.find?_some hb
    rw [hb, List.inj_on_of_nodup_map t.nodup (List.mem_of_find?_eq_some hb) ha hbk]

theorem find?_eq_none_iff {t : Table α} {k : κ} : t.find? k = none ↔ ∀ a ∈ t.rows, key a ≠ k := by
  simp [find?]

theorem key_of_find? {t : Table α} {k : κ} {a : α} (h : t.find? k = some a) : key a = k :=
  (find?_eq_some_iff.1 h).2

theorem mem_of_find? {t : Table α} {k : κ} {a : α} (h : t.find? k = some a) : a ∈ t.rows :=
  (find?_eq_some_iff.1 h).1

theorem find?_of_mem {t : Table α} {a : α} (h : a ∈ t.rows) : t.find? (key a) = some a :=
  find?_eq_some_iff.2 ⟨h, rfl⟩

omit [DecidableEq κ] in
theorem eq_of_key {t : Table α} {a b : α} (ha : a ∈ t.rows) (hb : b ∈ t.rows) (h : key a = key b) : a = b :=
  List.inj_on_of_nodup_map t.nodup ha hb h

/-! ### Rewriting rows in place -/

/-- `UPDATE … SET f WHERE p`: the rows that pass the test are rewritten, none changes its key. -/
def update (t : Table α) (p : α → Bool) (f : α → α) (hf : ∀ a, key (f a) = key a := by intro _; rfl) :
    Table α where
  rows := t.rows.map fun a => if p a then f a else a
  nodup := by
    have : (key ∘ fun a => if p a then f a else a) = (key : α → κ) := by
      funext a
      simp only [Function.comp]
      split
      · exact hf a
      · rfl
    rw [List.map_map, this]
    exact t.nodup

section update
variable (t : Table α) (p : α → Bool) (f : α → α) (hf : ∀ a, key (f a) = key a)

omit [DecidableEq κ] in
@[simp] theorem rows_update : (t.update p f hf).rows = t.rows.map fun a => if p a then f a else a := rfl

theorem find?_update (k : κ) :
    (t.update p f hf).find? k = (t.find? k).map fun a => if p a then f a else a := by
  have : (fun a => decide (key (if p a then f a else a) = k)) = fun a => decide (key a = k) := by
    funext a
    split
    · rw [hf a]
    · rfl
  simp only [find?, rows_update, List.find?_map, Function.comp_def, this]

end update

/-- Writes `a` over the stored row of its key. -/
def save (t : Table α) (a : α) : Table α :=
  t.update (fun r => decide (key r = key a)) (fun r => if key r = key a then a else r) (by
    intro r
    split
    · rename_i h; exact h.symm
    · rfl)

theorem mem_save {t : Table α} {a b : α} :
    b ∈ (t.save a).rows ↔ (b = a ∧ ∃ r ∈ t.rows, key r = key a) ∨ (b ∈ t.rows ∧ key b ≠ key a) := by
  simp only [save, rows_update, List.mem_map]
  constructor
  · rintro ⟨r, hr, rfl⟩
    by_cases h : key r = key a
    · exact .inl ⟨by simp [h], r, hr, h⟩
    · exact .inr ⟨by simpa [h] using hr, by simp [h]⟩
  · rintro (⟨rfl, r, hr, h⟩ | ⟨hb, h⟩)
    · exact ⟨r, hr, by simp [h]⟩
    · exact ⟨b, hb, by simp [h]⟩

theorem find?_save (t : Table α) (a : α) (k : κ) :
    (t.save a).find? k = if key a = k then (t.find? k).map fun _ => a else t.find? k := by
  rw [save, find?_update]
  split
  · rename_i h
    cases hk : t.find? k with
    | none => rfl
    | some r => simp [key_of_find? hk, h]
  · rename_i h
    cases hk : t.find? k with
    | none => rfl
    | some r => simp [key_of_find? hk, Ne.symm h]

theorem find?_save_self {t : Table α} {a r : α} (h : t.find? (key a) = some r) :
    (t.save a).find? (key a) = some a := by
  simp [find?_save, h]

theorem find?_save_of_key {t : Table α} {a r : α} {k : κ} (hk : key a = k) (h : t.find? k = some r) :
    (t.save a).find? k = some a := by
  subst hk
  exact find?_save_self h

theorem find?_save_of_ne {t : Table α} {a : α} {k : κ} (h : key a ≠ k) :
    (t.save a).find? k = t.find? k := by
  simp [find?_save, h]

theorem rows_save (t : Table α) (a : α) :
    (t.save a).rows = t.rows.map fun r => if key r = key a then a else r := by
  rw [save, rows_update]
  refine List.map_congr_left fun r _ => ?_
  by_cases h : key r = key a <;> simp [h]

theorem find?_save_map (t : Table α) (a : α) (k : κ) :
    (t.save a).find? k = (t.find? k).map fun r => if key r = key a then a else r := by
  rw [save, find?_update]
  congr 1
  funext r
  by_cases h : key r = key a <;> simp [h]

/-- Writing a new version of the row `a₀`. -/
theorem rows_save_of_mem [DecidableEq α] {t : Table α} {a₀ a : α} (h₀ : a₀ ∈ t.rows) (hk : key a₀ = key a) :
    (t.save a).rows = t.rows.map fun r => if r = a₀ then a else r := by
  rw [rows_save]
  refine List.map_congr_left fun r hr => ?_
  by_cases h : r = a₀
  · rw [if_pos h, if_pos (by rw [h, hk])]
  · rw [if_neg h, if_neg fun hr' => h (eq_of_key hr h₀ (hr'.trans hk.symm))]

theorem replace_same {β : Type} [DecidableEq α] {f : α → β} {a v : α} (h : f v = f a) (x : α) :
    f (if x = a then v else x) = f x := by
  split
  · rename_i hx
    rw [h, hx]
  · rfl

/-- A count over the table does not go up when the row that is written counts only if the stored one did. -/
theorem countP_save_le {t : Table α} {a : α} {q : α → Bool}
    (h : ∀ r ∈ t.rows, key r = key a → q a = true → q r = true) :
    (t.save a).rows.countP q ≤ t.rows.countP q := by
  rw [rows_save, List.countP_map]
  refine List.countP_mono_left fun r hr hq => ?_
  by_cases hk : key r = key a
  · exact h r hr hk (by simpa [hk] using hq)
  · simpa [hk] using hq

/-- A count after a row was written: the other rows that count, and at most the row itself. -/
theorem countP_save_le_succ (t : Table α) (a : α) (q : α → Bool) :
    (t.save a).rows.countP q ≤ t.rows.countP (fun r => q r && decide (key r ≠ key a)) + 1 := by
  have hnodup := t.nodup
  rw [rows_save]
  generalize t.rows = rows at hnodup ⊢
  induction rows with
  | nil => simp
  | cons r l ih =>
    rw [List.map_cons, List.nodup_cons] at hnodup
    rw [List.map_cons, List.countP_cons, List.countP_cons]
    by_cases hk : key r = key a
    · -- no other row has the key, so the rest of the rows stays as it is
      have hne : ∀ x ∈ l, key x ≠ key a := fun x hx e =>
        hnodup.1 (List.mem_map.2 ⟨x, hx, e.trans hk.symm⟩)
      have hmap : l.map (fun x => if key x = key a then a else x) = l := by
        conv_rhs => rw [← List.map_id l]
        exact List.map_congr_left fun x hx => by simp [hne x hx]
      have hcount : l.countP q = l.countP (fun x => q x && decide (key x ≠ key a)) :=
        List.countP_congr fun x hx => by simp [hne x hx]
      rw [hmap, hcount, if_pos hk]
      have : (if q a = true then 1 else 0) ≤ 1 := by split <;> omega
      omega
    · have hr : (if key r = key a then a else r) = r := if_neg hk
      have := ih hnodup.2
      rw [hr]
      simp only [hk, ne_eq, not_false_eq_true, decide_true, Bool.and_true] at this ⊢
      omega

/-! ### Inserting rows -/

/-- `INSERT`: the row goes in at the end; refused when its key is taken. -/
def insert? (t : Table α) (a : α) : Option (Table α) :=
  if h : key a ∈ t.rows.map key then none
  else some ⟨t.rows ++ [a], by
    rw [List.map_append, List.map_cons, List.map_nil, List.nodup_append]
    refine ⟨t.nodup, by simp, ?_⟩
    rintro x hx y hy rfl
    rw [List.mem_singleton] at hy
    exact h (hy ▸ hx)⟩

theorem insert?_eq_some_iff {t t' : Table α} {a : α} :
    t.insert? a = some t' ↔ t.find? (key a) = none ∧ t'.rows = t.rows ++ [a] := by
  unfold insert?
  have hnone : t.find? (key a) = none ↔ key a ∉ t.rows.map key := by
    rw [find?_eq_none_iff]
    simp
  split
  · rename_i h
    simp [hnone, h]
  · rename_i h
    rw [hnone, Option.some.injEq, Table.ext_iff]
    exact ⟨fun e => ⟨h, e.symm⟩, fun e => e.2.symm⟩

theorem insert?_of_find? {t : Table α} {a : α} (h : t.find? (key a) = none) : ∃ t', t.insert? a = some t' := by
  rw [find?_eq_none_iff] at h
  unfold insert?
  rw [dif_neg (by simpa using h)]
  exact ⟨_, rfl⟩

theorem find?_insert? {t t' : Table α} {a : α} (h : t.insert? a = some t') (k : κ) :
    t'.find? k = if key a = k then some a else t.find? k := by
  obtain ⟨hnew, hrows⟩ := insert?_eq_some_iff.1 h
  by_cases hk : key a = k
  · subst hk
    rw [if_pos rfl, find?_eq_some_iff, hrows]
    exact ⟨by simp, rfl⟩
  · rw [if_neg hk]
    simp [find?, hrows, List.find?_append, hk]

/-! ### Deleting rows -/

/-- The table with `a` in the place of the row of its key, if there is one. -/
def put (t : Table α) (a : α) : Table α :=
  ⟨t.rows.filter (fun r => decide (key r ≠ key a)) ++ [a], by
    rw [List.map_append, List.nodup_append]
    refine ⟨t.nodup.sublist (List.filter_sublist.map key), by simp, fun k hk k' hk' => ?_⟩
    obtain ⟨r, hr, rfl⟩ := List.mem_map.1 hk
    rw [List.map_singleton, List.mem_singleton] at hk'
    rw [hk']
    simpa using (List.mem_filter.1 hr).2⟩

theorem mem_put {t : Table α} {a b : α} : b ∈ (t.put a).rows ↔ b ∈ t.rows ∧ key b ≠ key a ∨ b = a := by
  simp [put]

theorem exists_put {t : Table α} {a b : α} (hb : b ∈ t.rows) :
    ∃ c ∈ (t.put a).rows, key c = key b ∧ (c = b ∨ c = a) := by
  by_cases hk : key b = key a
  · exact ⟨a, mem_put.2 (.inr rfl), hk.symm, .inr rfl⟩
  · exact ⟨b, mem_put.2 (.inl ⟨hb, hk⟩), rfl, .inl rfl⟩

def delete (t : Table α) (k : κ) : Table α where
  rows := t.rows.filter fun a => decide (key a ≠ k)
  nodup := t.nodup.sublist (List.filter_sublist.map key)

def deleteWhere (t : Table α) (p : α → Bool) : Table α where
  rows := t.rows.filter fun a => !p a
  nodup := t.nodup.sublist (List.filter_sublist.map key)

theorem find?_delete (t : Table α) (k k' : κ) : (t.delete k).find? k' = if k = k' then none else t.find? k' := by
  split
  · rename_i h
    subst h
    rw [find?_eq_none_iff]
    intro a ha
    simpa using (List.mem_filter.1 ha).2
  · rename_i h
    rw [Option.ext_iff]
    intro a
    rw [find?_eq_some_iff, find?_eq_some_iff, delete, List.mem_filter]
    constructor
    · rintro ⟨⟨ha, -⟩, hk⟩
      exact ⟨ha, hk⟩
    · rintro ⟨ha, hk⟩
      exact ⟨⟨ha, by simpa [hk] using Ne.symm h⟩, hk⟩

/-! ### How rows evolve -/

/-- Every row of `t` is still a row of `t'`, up to a change that `R` allows. -/
def Evolves (R : α → α → Prop) (t t' : Table α) : Prop :=
  ∀ k a, t.find? k = some a → ∃ a', t'.find? k = some a' ∧ R a a'

section evolves

variable {R : α → α → Prop}

theorem Evolves.refl (hR : ∀ a, R a a) (t : Table α) : Evolves R t t := fun _ a h => ⟨a, h, hR a⟩

theorem Evolves.trans (hR : ∀ a b c, R a b → R b c → R a c) {t t' t'' : Table α} (h : Evolves R t t')
    (h' : Evolves R t' t'') : Evolves R t t'' := by
  intro k a ha
  obtain ⟨b, hb, hab⟩ := h k a ha
  obtain ⟨c, hc, hbc⟩ := h' k b hb
  exact ⟨c, hc, hR a b c hab hbc⟩

theorem evolves_save (hR : ∀ a, R a a) {t : Table α} {v a : α} (ha : t.find? (key v) = some a) (h : R a v) :
    Evolves R t (t.save v) := by
  intro k b hb
  by_cases hk : key v = k
  · subst hk
    rw [ha, Option.some.injEq] at hb
    subst hb
    exact ⟨v, find?_save_self ha, h⟩
  · exact ⟨b, by rw [find?_save_of_ne hk, hb], hR b⟩

theorem evolves_save_iff (hR : ∀ a, R a a) {t : Table α} {v a : α} (ha : t.find? (key v) = some a) :
    Evolves R t (t.save v) ↔ R a v := by
  refine ⟨fun h => ?_, evolves_save hR ha⟩
  obtain ⟨a', ha', hRa⟩ := h (key v) a ha
  rw [find?_save_self ha, Option.some.injEq] at ha'
  exact ha' ▸ hRa

theorem evolves_insert? (hR : ∀ a, R a a) {t t' : Table α} {v : α} (h : t.insert? v = some t') :
    Evolves R t t' := by
  intro k a ha
  refine ⟨a, ?_, hR a⟩
  rw [find?_insert? h, if_neg, ha]
  rintro rfl
  rw [(insert?_eq_some_iff.1 h).1] at ha
  cases ha

theorem evolves_update (hR : ∀ a, R a a) {t : Table α} {p : α → Bool} {f : α → α}
    (hf : ∀ a, key (f a) = key a) (h : ∀ a ∈ t.rows, p a = true → R a (f a)) :
    Evolves R t (t.update p f hf) := by
  intro k a ha
  refine ⟨if p a then f a else a, by rw [find?_update, ha]; rfl, ?_⟩
  split
  · rename_i hp
    exact h a (mem_of_find? ha) hp
  · exact hR a

/-- The rows of `t'` are those of `t`, each up to a change that `R` allows. -/
structure Rewrites (R : α → α → Prop) (t t' : Table α) : Prop where
  evolves : Evolves R t t'
  closed : ∀ k, t.find? k = none → t'.find? k = none

theorem Rewrites.refl (hR : ∀ a, R a a) (t : Table α) : Rewrites R t t := ⟨.refl hR t, fun _ h => h⟩

/-- The row a row of `t'` comes from. -/
theorem Rewrites.back {t t' : Table α} (h : Rewrites R t t') {k : κ} {a' : α} (ha' : t'.find? k = some a') :
    ∃ a, t.find? k = some a ∧ R a a' := by
  cases ha : t.find? k with
  | none =>
    rw [h.closed k ha] at ha'
    cases ha'
  | some a =>
    obtain ⟨a'', ha'', hR⟩ := h.evolves k a ha
    obtain rfl := Option.some.inj (ha'.symm.trans ha'')
    exact ⟨a, rfl, hR⟩

/-- One more row is written: the row `a` of `t`, which is the row `b` by now. -/
theorem Rewrites.save {t t' : Table α} {k : κ} {a b v : α} (h : Rewrites R t t') (ha : t.find? k = some a)
    (hb : t'.find? k = some b) (hk : key v = k) (hR : R a b → R a v) : Rewrites R t (t'.save v) := by
  refine ⟨fun k' x hx => ?_, fun k' hk' => ?_⟩
  · by_cases hkk : k = k'
    · subst hkk
      obtain rfl := Option.some.inj (ha.symm.trans hx)
      obtain ⟨b', hb', hab⟩ := h.evolves k a ha
      obtain rfl := Option.some.inj (hb.symm.trans hb')
      exact ⟨v, find?_save_of_key hk hb, hR hab⟩
    · rw [find?_save_of_ne fun hv => hkk (hk.symm.trans hv)]
      exact h.evolves k' x hx
  · rw [find?_save_map, h.closed k' hk']
    rfl

end evolves

def insertAll? (t : Table α) : List α → Option (Table α)
  | [] => some t
  | a :: as => (t.insert? a).bind fun t' => t'.insertAll? as

theorem insertAll?_eq_some {t t' : Table α} {as : List α} (h : t.insertAll? as = some t') :
    t'.rows = t.rows ++ as := by
  induction as generalizing t with
  | nil =>
    simp only [insertAll?, Option.some.injEq] at h
    simp [h]
  | cons a as ih =>
    simp only [insertAll?, Option.bind_eq_some_iff] at h
    obtain ⟨t₁, h₁, h₂⟩ := h
    rw [ih h₂, (insert?_eq_some_iff.1 h₁).2, List.append_assoc, List.singleton_append]

/-- All rows can be inserted when no key is there twice. -/
theorem isSome_insertAll?_iff {t : Table α} {as : List α} :
    (t.insertAll? as).isSome = true ↔ ((t.rows ++ as).map key).Nodup := by
  induction as generalizing t with
  | nil => simpa [insertAll?] using t.nodup
  | cons a as ih =>
    cases h : t.insert? a with
    | none =>
      simp only [insertAll?, h, Option.bind_none, Option.isSome_none, Bool.false_eq_true, false_iff]
      intro hnodup
      rw [List.map_append, List.nodup_append] at hnodup
      have hnew : t.find? (key a) = none := by
        refine find?_eq_none_iff.2 fun b hb => ?_
        exact hnodup.2.2 _ (List.mem_map_of_mem hb) _ (List.mem_map_of_mem List.mem_cons_self)
      obtain ⟨t', ht'⟩ := insert?_of_find? hnew
      rw [h] at ht'
      cases ht'
    | some t' =>
      simp only [insertAll?, h, Option.bind_some]
      rw [ih, (insert?_eq_some_iff.1 h).2, List.append_assoc, List.singleton_append]

theorem find?_insertAll? {t t' : Table α} {as : List α} (h : t.insertAll? as = some t') (k : κ) :
    t'.find? k = (t.find? k).or (as.find? fun a => decide (key a = k)) := by
  rw [find?, insertAll?_eq_some h, List.find?_append]
  rfl

/-- Rows that are inserted are new. -/
theorem find?_of_insertAll? {t t' : Table α} {as : List α} (h : t.insertAll? as = some t') {a : α} (ha : a ∈ as) :
    t.find? (key a) = none := by
  have hnodup := t'.nodup
  rw [insertAll?_eq_some h, List.map_append, List.nodup_append] at hnodup
  rw [find?_eq_none_iff]
  intro b hb
  exact hnodup.2.2 _ (List.mem_map_of_mem hb) _ (List.mem_map_of_mem ha)

end Table

/-! ### A unique index -/

/-- A table no two rows of which have the same index value. -/
structure Indexed (α : Type) {κ ι : Type} [Keyed α κ] (ix : α → ι) extends Table α where
  unique : (rows.map ix).Nodup

namespace Indexed

variable {α κ ι : Type} [Keyed α κ] [DecidableEq κ] [DecidableEq ι] {ix : α → ι}

def empty : Indexed α ix := ⟨.empty, by simp⟩

def find? (t : Indexed α ix) (k : κ) : Option α := t.toTable.find? k

def lookup (t : Indexed α ix) (i : ι) : Option α := t.rows.find? fun a => decide (ix a = i)

theorem lookup_eq_some {t : Indexed α ix} {i : ι} {a : α} (h : t.lookup i = some a) :
    t.find? (key a) = some a ∧ ix a = i :=
  ⟨Table.find?_of_mem (List.mem_of_find?_eq_some h), by simpa using List.find?_some h⟩

omit [DecidableEq ι] in
theorem key_of_find? {t : Indexed α ix} {k : κ} {a : α} (h : t.find? k = some a) : key a = k := Table.key_of_find? h

/-- The rows with `a` over the row of its key, or at the end. -/
def overlay (rows : List α) (a : α) : List α :=
  if key a ∈ rows.map key then rows.map fun r => if key r = key a then a else r else rows ++ [a]

theorem map_overlay_of_mem {rows : List α} {a : α} (h : key a ∈ rows.map key) {β : Type} (f : α → β) :
    (overlay rows a).map f = rows.map fun r => if key r = key a then f a else f r := by
  rw [overlay, if_pos h, List.map_map]
  refine List.map_congr_left fun r _ => ?_
  simp only [Function.comp]
  split <;> rfl

theorem nodup_key_overlay {rows : List α} (hnodup : (rows.map key).Nodup) (a : α) :
    ((overlay rows a).map key).Nodup := by
  by_cases h : key a ∈ rows.map key
  · rw [map_overlay_of_mem h]
    have hsame : rows.map (fun r => if key r = key a then key a else key r) = rows.map key := by
      refine List.map_congr_left fun r _ => ?_
      split
      · rename_i hr
        exact hr.symm
      · rfl
    rw [hsame]
    exact hnodup
  · rw [overlay, if_neg h, List.map_append, List.map_singleton]
    exact List.nodup_append.2 ⟨hnodup, by simp, fun x hx y hy e => h (List.mem_singleton.1 hy ▸ e ▸ hx)⟩

omit [DecidableEq ι] in
theorem nodup_index_overlay {rows : List α} (hnodup : (rows.map key).Nodup) (hunique : (rows.map ix).Nodup) {a : α}
    (hfree : ∀ r ∈ rows, ix r = ix a → key r = key a) : ((overlay rows a).map ix).Nodup := by
  by_cases h : key a ∈ rows.map key
  · rw [map_overlay_of_mem h, List.nodup_map_iff_inj_on (List.Nodup.of_map key hnodup)]
    intro r hr r' hr' e
    -- one of the two rows is the one written over, or neither is
    by_cases hk : key r = key a <;> by_cases hk' : key r' = key a
    · exact List.inj_on_of_nodup_map hnodup hr hr' (hk.trans hk'.symm)
    · rw [if_pos hk, if_neg hk'] at e
      exact absurd (hfree r' hr' e.symm) hk'
    · rw [if_neg hk, if_pos hk'] at e
      exact absurd (hfree r hr e) hk
    · rw [if_neg hk, if_neg hk'] at e
      exact List.inj_on_of_nodup_map hunique hr hr' e
  · rw [overlay, if_neg h, List.map_append, List.map_singleton]
    refine List.nodup_append.2 ⟨hunique, by simp, fun x hx y hy e => ?_⟩
    obtain ⟨r, hr, rfl⟩ := List.mem_map.1 hx
    rw [List.mem_singleton] at hy
    exact h (List.mem_map.2 ⟨r, hr, hfree r hr (e.trans hy)⟩)

def put? (t : Indexed α ix) (a : α) : Option (Indexed α ix) :=
  if h : ∀ r ∈ t.rows, ix r = ix a → key r = key a then
    some ⟨⟨overlay t.rows a, nodup_key_overlay t.nodup a⟩, nodup_index_overlay t.nodup t.unique h⟩
  else none

theorem mem_overlay {rows : List α} {a b : α} :
    b ∈ overlay rows a ↔ b = a ∨ (b ∈ rows ∧ key b ≠ key a) := by
  by_cases h : key a ∈ rows.map key
  · rw [overlay, if_pos h, List.mem_map]
    constructor
    · rintro ⟨r, hr, rfl⟩
      by_cases hk : key r = key a
      · exact .inl (if_pos hk)
      · rw [if_neg hk]
        exact .inr ⟨hr, hk⟩
    · rintro (rfl | ⟨hb, hk⟩)
      · obtain ⟨r, hr, hk⟩ := List.mem_map.1 h
        exact ⟨r, hr, if_pos hk⟩
      · exact ⟨b, hb, if_neg hk⟩
  · rw [overlay, if_neg h, List.mem_append, List.mem_singleton]
    constructor
    · rintro (hb | rfl)
      · exact .inr ⟨hb, fun e => h (List.mem_map.2 ⟨b, hb, e⟩)⟩
      · exact .inl rfl
    · rintro (rfl | ⟨hb, -⟩)
      · exact .inr rfl
      · exact .inl hb

theorem find?_put? {t t' : Indexed α ix} {a : α} (h : t.put? a = some t') (k : κ) :
    t'.find? k = if key a = k then some a else t.find? k := by
  unfold put? at h
  split at h
  · obtain rfl := Option.some.inj h
    rw [Option.ext_iff]
    intro b
    rw [find?, Table.find?_eq_some_iff, mem_overlay]
    by_cases hk : key a = k
    · rw [if_pos hk, Option.some.injEq]
      constructor
      · rintro ⟨rfl | ⟨-, hb⟩, hbk⟩
        · rfl
        · exact absurd (hbk.trans hk.symm) hb
      · rintro rfl
        exact ⟨.inl rfl, hk⟩
    · rw [if_neg hk, find?, Table.find?_eq_some_iff]
      constructor
      · rintro ⟨rfl | ⟨hb, -⟩, hbk⟩
        · exact absurd hbk hk
        · exact ⟨hb, hbk⟩
      · rintro ⟨hb, hbk⟩
        exact ⟨.inr ⟨hb, fun e => hk (e.symm.trans hbk)⟩, hbk⟩
  · cases h

/-- A row that keeps the index value of the stored row of its key is not refused. -/
theorem put?_isSome_of_same {t : Indexed α ix} {a r : α} (h : t.find? (key a) = some r) (hix : ix a = ix r) :
    (t.put? a).isSome = true := by
  unfold put?
  rw [dif_pos, Option.isSome_some]
  intro r' hr' e
  rw [List.inj_on_of_nodup_map t.unique hr' (Table.mem_of_find? h) (e.trans hix)]
  exact Table.key_of_find? h

theorem put?_isSome_of_lookup {t : Indexed α ix} {a : α} (h : t.lookup (ix a) = none) : (t.put? a).isSome = true := by
  unfold put?
  rw [dif_pos, Option.isSome_some]
  intro r hr e
  simp only [lookup, List.find?_eq_none, decide_eq_true_eq] at h
  exact absurd e (h r hr)

/-- Rewrites the row of a key; key and index value stay. -/
def modify (t : Indexed α ix) (k : κ) (f : α → α) (hkey : ∀ a, key (f a) = key a := by intro _; rfl)
    (hix : ∀ a, ix (f a) = ix a := by intro _; rfl) : Indexed α ix where
  toTable := t.toTable.update (fun a => decide (key a = k)) f hkey
  unique := by
    rw [Table.rows_update, List.map_map]
    have hsame : (ix ∘ fun a => if decide (key a = k) = true then f a else a) = ix := by
      funext a
      simp only [Function.comp]
      split
      · exact hix a
      · rfl
    rw [hsame]
    exact t.unique

omit [DecidableEq ι] in
theorem find?_modify (t : Indexed α ix) (k : κ) (f : α → α) (hkey : ∀ a, key (f a) = key a)
    (hix : ∀ a, ix (f a) = ix a) (k' : κ) :
    (t.modify k f hkey hix).find? k' = if k' = k then (t.find? k').map f else t.find? k' := by
  rw [find?, modify, Table.find?_update, find?]
  cases h : t.toTable.find? k' with
  | none => simp
  | some a =>
    simp only [Option.map_some, decide_eq_true_eq, Table.key_of_find? h]
    split <;> rfl

end Indexed

end BookingSystem.Base
