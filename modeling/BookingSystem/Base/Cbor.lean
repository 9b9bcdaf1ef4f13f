import BookingSystem.Base.Base64
import BookingSystem.Base.Outcome
import Mathlib.Data.List.Induction

/-!
# Heads and data items

Bytes that begin with a data item of definite length. A head holds the major type and an argument of 0, 1, 2, 4 or 8
further bytes. `item` reads an integer, a string or a map, and stops at the first fault: a string whose length is at a
given limit, a map with more entries than there is room for, a map inside more maps than are allowed, or bytes that are
no item. What was read takes up at least one byte and does not reach past the end (`readItem_consumed`), and as many
levels as there are bytes are never too few (`readItem_ne`).
-/

namespace BookingSystem.Base.Cbor

open Base64 (Bytes)

def bigEndian (b : Bytes) : ℕ := b.foldl (fun n x => n * 256 + x.toNat) 0

theorem bigEndian_append (b : Bytes) (x : UInt8) : bigEndian (b ++ [x]) = bigEndian b * 256 + x.toNat := by
  rw [bigEndian, List.foldl_append]
  rfl

theorem bigEndian_lt (b : Bytes) : bigEndian b < 256 ^ b.length := by
  induction b using List.reverseRecOn with
  | nil => decide
  | append_singleton b x ih =>
    have hx := x.toNat_lt
    rw [bigEndian_append, List.length_append, List.length_singleton, pow_succ]
    omega

/-! ### Heads -/

structure Head where
  major : ℕ
  argument : ℕ
  size : ℕ
  deriving DecidableEq

def head : Bytes → Option Head
  | [] => none
  | x :: rest =>
    let low := x.toNat % 32
    if low < 24 then some ⟨x.toNat / 32, low, 1⟩
    else if low < 28 ∧ 2 ^ (low - 24) ≤ rest.length then
      some ⟨x.toNat / 32, bigEndian (rest.take (2 ^ (low - 24))), 1 + 2 ^ (low - 24)⟩
    else none

theorem head_bounds {b : Bytes} {h : Head} (hh : head b = some h) :
    1 ≤ h.size ∧ h.size ≤ 9 ∧ h.size ≤ b.length ∧ h.argument < max 24 (256 ^ (h.size - 1)) := by
  cases b with
  | nil => cases hh
  | cons x rest =>
    simp only [head] at hh
    split at hh
    · cases hh
      refine ⟨le_rfl, show 1 ≤ 9 by decide, Nat.le_add_left 1 _, ?_⟩
      dsimp only
      omega
    · split at hh
      · rename_i hlow
        cases hh
        have hpow : 2 ^ (x.toNat % 32 - 24) ≤ 2 ^ 3 := Nat.pow_le_pow_right (by omega) (by omega)
        have harg := bigEndian_lt (rest.take (2 ^ (x.toNat % 32 - 24)))
        rw [List.length_take_of_le hlow.2] at harg
        have hpos := Nat.two_pow_pos (x.toNat % 32 - 24)
        dsimp only [List.length_cons]
        rw [Nat.add_sub_cancel_left]
        omega
      · cases hh

theorem head_take {b : Bytes} {h : Head} (hh : head b = some h) : head (b.take h.size) = some h := by
  cases b with
  | nil => cases hh
  | cons x rest =>
    simp only [head] at hh
    split at hh
    · rename_i hlow
      cases hh
      simp [head, hlow]
    · split at hh
      · rename_i hlow hwide
        cases hh
        rw [Nat.add_comm 1, List.take_succ_cons, head]
        rw [if_neg hlow, if_pos ⟨hwide.1, (List.length_take_of_le hwide.2).ge⟩, List.take_take, Nat.min_self,
          Nat.add_comm 1]
      · cases hh

/-- The number of an item of one of the first two major types. -/
def Head.integer (h : Head) : Option ℤ :=
  match h.major with
  | 0 => some h.argument
  | 1 => some (-1 - h.argument)
  | _ => none

/-! ### Items -/

inductive Fault where
  | long
  | deep
  | large
  | malformed
  deriving DecidableEq

inductive Kind where
  | integer
  | bytes
  | text
  | map
  deriving DecidableEq

/-- An item, without the entries if it is a map. -/
inductive Item where
  | integer (n : ℤ)
  | bytes (b : Bytes)
  | text (b : Bytes)
  | map
  deriving DecidableEq

def Item.kind : Item → Kind
  | .integer _ => .integer
  | .bytes _ => .bytes
  | .text _ => .text
  | .map => .map

/-- So many keys and values from a place on, the keys all of one kind. The last entry comes first. -/
def readEntries (read : Bytes → Except Fault (Item × ℕ)) (key : Kind) (b : Bytes) :
    ℕ → ℕ → List (Item × Item) → Except Fault (List (Item × Item) × ℕ)
  | 0, pos, out => pure (out, pos)
  | n + 1, pos, out => do
    let (k, kn) ← read (b.drop pos)
    let (v, vn) ← read (b.drop (pos + kn))
    if k.kind = key then readEntries read key b n (pos + kn + vn) ((k, v) :: out) else throw .malformed

variable (fits : ℕ → Bool)

/-- The entries and the end of a map with keys of one kind. -/
def readMap (read : Bytes → Except Fault (Item × ℕ)) (key : Kind) (b : Bytes) :
    Except Fault (List (Item × Item) × ℕ) :=
  match head b with
  | none => throw .malformed
  | some h =>
    if h.major = 5 then
      if fits h.argument then readEntries read key b h.argument h.size [] else throw .large
    else throw .malformed

/-- An item and its end, when the end of a map is known. -/
def item (limit : ℕ) (map : Except Fault ℕ) (b : Bytes) : Except Fault (Item × ℕ) :=
  match head b with
  | none => throw .malformed
  | some h =>
    if h.major = 0 then pure (.integer h.argument, h.size)
    else if h.major = 1 then pure (.integer (-1 - h.argument), h.size)
    else if h.major < 4 then
      if limit ≤ h.argument then throw .long
      else if b.length < h.size + h.argument then throw .malformed
      else
        let content := (b.drop h.size).take h.argument
        pure (if h.major = 2 then .bytes content else .text content, h.size + h.argument)
    else if h.major = 5 then do
      let n ← map
      pure (.map, n)
    else throw .malformed

/-- An item with at most so many maps inside one another. -/
def readItem (limit : ℕ) : ℕ → Bytes → Except Fault (Item × ℕ)
  | 0, b => item limit (throw .deep) b
  | depth + 1, b => item limit ((readMap fits (readItem limit depth) .integer b).map Prod.snd) b

/-! ### What an item takes up -/

def Consumes (read : Bytes → Except Fault (Item × ℕ)) : Prop :=
  ∀ b k n, read b = .ok (k, n) → 1 ≤ n ∧ n ≤ b.length

variable {fits}

theorem readEntries_consumed {read : Bytes → Except Fault (Item × ℕ)} (hread : Consumes read) {key : Kind} {b : Bytes}
    {n pos m : ℕ} {out entries : List (Item × Item)} (h : readEntries read key b n pos out = .ok (entries, m))
    (hpos : pos ≤ b.length) : pos ≤ m ∧ m ≤ b.length := by
  induction n generalizing pos out with
  | zero =>
    rw [readEntries, pure_eq_ok] at h
    cases h
    exact ⟨le_rfl, hpos⟩
  | succ n ih =>
    rw [readEntries, bind_eq_ok] at h
    obtain ⟨⟨k, kn⟩, hk, h⟩ := h
    obtain ⟨⟨v, vn⟩, hv, h⟩ := bind_eq_ok.1 h
    have hk := hread _ _ _ hk
    have hv := hread _ _ _ hv
    rw [List.length_drop] at hk hv
    dsimp only at h
    split at h
    · have hm := ih h (by omega)
      exact ⟨by omega, hm.2⟩
    · cases h

theorem readMap_consumed {read : Bytes → Except Fault (Item × ℕ)} (hread : Consumes read) {key : Kind} {b : Bytes}
    {entries : List (Item × Item)} {n : ℕ} (h : readMap fits read key b = .ok (entries, n)) :
    1 ≤ n ∧ n ≤ b.length := by
  unfold readMap at h
  split at h
  · cases h
  · rename_i hd hhead
    split at h
    · split at h
      · have hb := head_bounds hhead
        have hn := readEntries_consumed hread h hb.2.2.1
        exact ⟨hb.1.trans hn.1, hn.2⟩
      · cases h
    · cases h

theorem item_consumed {limit : ℕ} {map : Except Fault ℕ} {b : Bytes} {k : Item} {n : ℕ}
    (hmap : ∀ n, map = .ok n → 1 ≤ n ∧ n ≤ b.length) (h : item limit map b = .ok (k, n)) :
    1 ≤ n ∧ n ≤ b.length := by
  unfold item at h
  split at h
  · cases h
  · rename_i hd hhead
    have hb := head_bounds hhead
    split at h
    · cases h
      exact ⟨hb.1, hb.2.2.1⟩
    · split at h
      · cases h
        exact ⟨hb.1, hb.2.2.1⟩
      · split at h
        · split at h
          · cases h
          · split at h
            · cases h
            · cases h
              omega
        · split at h
          · obtain ⟨m, hm, h⟩ := bind_eq_ok.1 h
            cases h
            exact hmap n hm
          · cases h

theorem readItem_consumed (limit depth : ℕ) : Consumes (readItem fits limit depth) := by
  induction depth with
  | zero => exact fun b k n h => item_consumed (by simp) h
  | succ depth ih =>
    refine fun b k n h => item_consumed (fun m hm => ?_) h
    cases hmap : readMap fits (readItem fits limit depth) .integer b with
    | error f =>
      rw [hmap] at hm
      cases hm
    | ok r =>
      rw [hmap] at hm
      cases hm
      exact readMap_consumed ih hmap

/-- Only a map is too deep or too large. -/
theorem fault_of_item {limit : ℕ} {map : Except Fault ℕ} {b : Bytes} {f : Fault} (hf : f = .deep ∨ f = .large)
    (h : item limit map b = .error f) : map = .error f := by
  unfold item at h
  split at h
  · cases h
    simp at hf
  · split at h
    · cases h
    · split at h
      · cases h
      · split at h
        · split at h
          · cases h
            simp at hf
          · split at h
            · cases h
              simp at hf
            · cases h
        · split at h
          · cases map with
            | error e =>
              cases h
              rfl
            | ok n => cases h
          · cases h
            simp at hf

/-! ### As many levels as bytes -/

section Bounded

variable {read : Bytes → Except Fault (Item × ℕ)} {key : Kind} {b : Bytes} {f : Fault}

theorem readEntries_ne (hf : f ≠ .malformed) (hb : b ≠ [])
    (hread : ∀ c, c.length < b.length → read c ≠ .error f) {n pos : ℕ} {out : List (Item × Item)} (hpos : 1 ≤ pos) :
    readEntries read key b n pos out ≠ .error f := by
  have hlen := List.length_pos_iff.2 hb
  have hdrop : ∀ i, 1 ≤ i → read (b.drop i) ≠ .error f := fun i hi => hread _ (by rw [List.length_drop]; omega)
  induction n generalizing pos out with
  | zero => nofun
  | succ n ih =>
    intro h
    obtain h | ⟨⟨k, kn⟩, -, h⟩ := bind_eq_error.1 h
    · exact hdrop pos hpos h
    · obtain h | ⟨⟨v, vn⟩, -, h⟩ := bind_eq_error.1 h
      · exact hdrop _ (by omega) h
      · dsimp only at h
        split at h
        · exact ih (by omega) h
        · exact hf (Except.error.inj h).symm

theorem readMap_ne (hf : f = .deep ∨ f = .large) (hread : ∀ c, c.length < b.length → read c ≠ .error f) :
    readMap (fun _ => true) read key b ≠ .error f := by
  unfold readMap
  split
  · rcases hf with rfl | rfl <;> nofun
  · rename_i hd hhead
    split
    · rw [if_pos rfl]
      refine readEntries_ne (by rcases hf with rfl | rfl <;> nofun) ?_ hread (head_bounds hhead).1
      rintro rfl
      cases hhead
    · rcases hf with rfl | rfl <;> nofun

/-- Where there is room for every map and there are as many levels as bytes, nothing is too deep or too large. -/
theorem readItem_ne (hf : f = .deep ∨ f = .large) {limit depth : ℕ} (hb : b.length ≤ depth) :
    readItem (fun _ => true) limit depth b ≠ .error f := by
  induction depth generalizing b with
  | zero =>
    obtain rfl := List.eq_nil_of_length_eq_zero (Nat.le_zero.1 hb)
    rcases hf with rfl | rfl <;> nofun
  | succ depth ih =>
    intro h
    exact readMap_ne hf (fun c hc => ih (by omega)) (map_eq_error.1 (fault_of_item hf h))

end Bounded

end BookingSystem.Base.Cbor
