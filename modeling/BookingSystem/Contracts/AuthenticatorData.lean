import BookingSystem.Service.WebAuthn
import Mathlib.Tactic.IntervalCases

/-!
# What an authenticator can do to the parsers

The readers of the program follow the reading of data items in `Base.Cbor` step by step (`Agrees`): they end well where
it does, with the same data and at the same place, fail where the bytes are no item, panic at a string of 2^63 - 9 bytes
or more, ask for too much memory where it finds a map too large, and open too many maps where it finds one too deep. So
the parsers are safe on the bytes in which it finds none of these (`safe_iff`). Integers, exponents are read as signed
words, labels among them, and are exact below 2^63 where no other label wraps to that of the exponent
(`exactNumbers_iff`).
-/

namespace BookingSystem.Contracts.AuthenticatorData

open Base (map_eq_error)
open Base.Base64 (Bytes)
open Base.Cbor (Consumes Fault Head Item Kind bigEndian bigEndian_append fault_of_item head head_bounds head_take item
  readItem readItem_consumed readItem_ne readMap_consumed readMap_ne)
open Service.WebAuthn (AuthData Keys Outcome PublicKey Reading Value bytesAt exponent fixedUint index int64 intAt
  intKeys parseAuthData parseCOSEKey readAttestationMap readCBORLen readCBORMap readCBORValue readCBORValueIn slice
  textKeys)

variable {α β γ δ : Type} {b : Bytes}

/-! ### Heads -/

theorem int64_of_small {x : ℤ} (hlo : -2 ^ 63 ≤ x) (hhi : x < 2 ^ 63) : int64 x = x := by
  unfold int64
  omega

theorem slice_eq (lo hi : ℕ) (h : lo ≤ hi) (hlen : hi ≤ b.length) : slice b lo hi = .ok ((b.take hi).drop lo) := by
  rw [slice, if_pos ⟨by omega, by omega, by omega⟩, Int.toNat_natCast, Int.toNat_natCast]

theorem slice_rest {lo : ℕ} (h : lo ≤ b.length) : slice b lo b.length = .ok (b.drop lo) := by
  rw [slice_eq _ _ h le_rfl, List.take_length]

@[simp] theorem ok_bind (a : α) (f : α → Reading β) : (Reading.ok a >>= f) = f a := by
  show Reading.bind (Reading.ok a) f = f a
  simp [Reading.bind, Reading.ok]

@[simp] theorem panic_bind (f : α → Reading β) : (Reading.panic >>= f) = .panic := rfl

theorem fixedUint_eq {x : UInt8} {rest : Bytes} {width : ℕ} (h : width ≤ rest.length) (short : String) :
    fixedUint (x :: rest) width short = .ok (bigEndian (rest.take width), ((1 + width : ℕ) : ℤ)) := by
  have hslice : slice (x :: rest) 1 (1 + width : ℤ) = .ok (rest.take width) := by
    have heq := slice_eq 1 (1 + width) (Nat.le_add_right _ _) (show 1 + width ≤ (x :: rest).length by simp; omega)
    rw [Nat.add_comm 1 width, List.take_succ_cons, List.drop_one, List.tail_cons] at heq
    rw [← heq]
    push_cast
    rw [Int.add_comm]
  rw [fixedUint, if_neg (by simp only [List.length_cons]; omega), hslice]
  rfl

theorem readCBORLen_wide {x : UInt8} (rest : Bytes) (h : 24 ≤ x.toNat % 32) (h' : x.toNat % 32 < 28) :
    ∃ short, readCBORLen (x :: rest) = fixedUint (x :: rest) (2 ^ (x.toNat % 32 - 24)) short := by
  obtain hlow | hlow | hlow | hlow : x.toNat % 32 = 24 ∨ x.toNat % 32 = 25 ∨ x.toNat % 32 = 26 ∨ x.toNat % 32 = 27 := by
    omega
  · exact ⟨"cbor: short uint8", by simp [readCBORLen, hlow]⟩
  · exact ⟨"cbor: short uint16", by simp [readCBORLen, hlow]⟩
  · exact ⟨"cbor: short uint32", by simp [readCBORLen, hlow]⟩
  · exact ⟨"cbor: short uint64", by simp [readCBORLen, hlow]⟩

/-- The head the program reads is the head of the format. -/
theorem readCBORLen_of_head {h : Head} (hh : head b = some h) : readCBORLen b = .ok (h.argument, (h.size : ℤ)) := by
  cases b with
  | nil => cases hh
  | cons x rest =>
    simp only [head] at hh
    split at hh
    · rename_i hlow
      cases hh
      simp [readCBORLen, hlow]
    · split at hh
      · rename_i hlow hwide
        cases hh
        obtain ⟨short, hshort⟩ := readCBORLen_wide rest (not_lt.1 hlow) hwide.1
        rw [hshort, fixedUint_eq hwide.2]
      · cases hh

theorem readCBORLen_of_none (hh : head b = none) : ∃ message, readCBORLen b = .error message := by
  cases b with
  | nil => exact ⟨_, rfl⟩
  | cons x rest =>
    simp only [head] at hh
    split at hh
    · cases hh
    · split at hh
      · cases hh
      · rename_i hlow hwide
        by_cases h28 : x.toNat % 32 < 28
        · obtain ⟨short, hshort⟩ := readCBORLen_wide rest (not_lt.1 hlow) h28
          have hrest : rest.length < 2 ^ (x.toNat % 32 - 24) := not_le.1 fun h => hwide ⟨h28, h⟩
          refine ⟨short, hshort.trans ?_⟩
          rw [fixedUint, if_pos (by simp only [List.length_cons]; omega)]
        · have h24 : x.toNat % 32 ≠ 24 ∧ x.toNat % 32 ≠ 25 ∧ x.toNat % 32 ≠ 26 ∧ x.toNat % 32 ≠ 27 := by omega
          simp [readCBORLen, hlow, h24]

theorem head_major {x : UInt8} {rest : Bytes} {h : Head} (hh : head (x :: rest) = some h) : h.major = x.toNat / 32 := by
  simp only [head] at hh
  split at hh
  · cases hh
    rfl
  · split at hh
    · cases hh
      rfl
    · cases hh

/-! ### Agreement with the reading of items -/

/-- At most so many maps were open at once, and each was made for a number of entries that there is room for. -/
def Within (fits : ℕ → Bool) (depth : ℕ) (x : Reading α) : Prop := x.depth ≤ depth ∧ ∀ n ∈ x.sizes, fits n = true

/-- How a reading of the program goes where the items are read with at most so many maps inside one another. -/
def Agrees (fits : ℕ → Bool) (same : α → β → Prop) (depth : ℕ) (x : Reading α) : Except Fault β → Prop
  | .ok b => (∃ a, x.outcome = .ok a ∧ same a b) ∧ Within fits depth x
  | .error .malformed => (∃ message, x.outcome = .error message) ∧ Within fits depth x
  | .error .long => x.outcome = .panic ∧ Within fits depth x
  | .error .deep => depth < x.depth
  | .error .large => ¬ ∀ n ∈ x.sizes, fits n = true

section Agrees

variable {fits : ℕ → Bool} {same : α → β → Prop} {depth : ℕ} {x : Reading α} {y : Except Fault β}

theorem within_of_plain (h : x.depth = 0) (h' : x.sizes = []) : Within fits depth x :=
  ⟨h ▸ Nat.zero_le _, by simp [h']⟩

theorem agrees_ok {a : α} {b : β} (h : same a b) : Agrees fits same depth (.ok a) (pure b) :=
  ⟨⟨a, rfl, h⟩, within_of_plain rfl rfl⟩

theorem agrees_error (message : String) : Agrees fits same depth (.error message) (throw .malformed) :=
  ⟨⟨message, rfl⟩, within_of_plain rfl rfl⟩

theorem agrees_panic : Agrees fits same depth .panic (throw .long) := ⟨rfl, within_of_plain rfl rfl⟩

theorem Within.append {y : Reading β} {o : Outcome γ} (hx : Within fits depth x) (hy : Within fits depth y) :
    Within fits depth (⟨o, max x.depth y.depth, x.sizes ++ y.sizes⟩ : Reading γ) :=
  ⟨Nat.max_le.2 ⟨hx.1, hy.1⟩, fun n hn => (List.mem_append.1 hn).elim (hx.2 n) (hy.2 n)⟩

theorem Agrees.bind {same' : γ → δ → Prop} {f : α → Reading γ} {g : β → Except Fault δ}
    (h : Agrees fits same depth x y)
    (hf : ∀ a b, same a b → y = .ok b → Agrees fits same' depth (f a) (g b)) :
    Agrees fits same' depth (x >>= f) (y >>= g) := by
  show Agrees fits same' depth (Reading.bind x f) (y >>= g)
  unfold Reading.bind
  match y with
  | .ok b =>
    obtain ⟨⟨a, ha, hab⟩, hwithin⟩ := h
    have hfg := hf a b hab rfl
    rw [ha]
    show Agrees fits same' depth ⟨(f a).outcome, max x.depth (f a).depth, x.sizes ++ (f a).sizes⟩ (g b)
    match hg : g b with
    | .ok c =>
      rw [hg] at hfg
      exact ⟨hfg.1, hwithin.append hfg.2⟩
    | .error .malformed =>
      rw [hg] at hfg
      exact ⟨hfg.1, hwithin.append hfg.2⟩
    | .error .long =>
      rw [hg] at hfg
      exact ⟨hfg.1, hwithin.append hfg.2⟩
    | .error .deep =>
      rw [hg] at hfg
      exact lt_of_lt_of_le hfg (Nat.le_max_right _ _)
    | .error .large =>
      rw [hg] at hfg
      exact fun hall => hfg fun n hn => hall n (List.mem_append_right _ hn)
  | .error .malformed =>
    obtain ⟨⟨message, hm⟩, hwithin⟩ := h
    rw [hm]
    exact ⟨⟨message, rfl⟩, hwithin⟩
  | .error .long =>
    obtain ⟨hp, hwithin⟩ := h
    rw [hp]
    exact ⟨rfl, hwithin⟩
  | .error .deep =>
    show depth < _
    split
    · exact lt_of_lt_of_le h (Nat.le_max_left _ _)
    · exact h
    · exact h
  | .error .large =>
    have hlarge : ¬ ∀ n ∈ x.sizes, fits n = true := h
    show ¬ ∀ n ∈ _, fits n = true
    split
    · exact fun hall => hlarge fun n hn => hall n (List.mem_append_left _ hn)
    · exact hlarge
    · exact hlarge

theorem Agrees.wrap (label : String) (h : Agrees fits same depth x y) : Agrees fits same depth (x.wrap label) y := by
  unfold Reading.wrap
  match y with
  | .ok b =>
    obtain ⟨⟨a, ha, hab⟩, hwithin⟩ := h
    rw [ha]
    exact ⟨⟨a, ha, hab⟩, hwithin⟩
  | .error .malformed =>
    obtain ⟨⟨message, hm⟩, hwithin⟩ := h
    rw [hm]
    exact ⟨⟨_, rfl⟩, hwithin⟩
  | .error .long =>
    obtain ⟨hp, hwithin⟩ := h
    rw [hp]
    exact ⟨hp, hwithin⟩
  | .error .deep =>
    show depth < _
    split
    · exact h
    · exact h
  | .error .large =>
    show ¬ ∀ n ∈ _, fits n = true
    split
    · exact h
    · exact h

theorem Within.nested (h : Within fits depth x) {n : ℕ} (hn : fits n = true) : Within fits (depth + 1) (x.nested n) :=
  ⟨Nat.succ_le_succ h.1, List.forall_mem_cons.2 ⟨hn, h.2⟩⟩

theorem Agrees.nested (h : Agrees fits same depth x y) {n : ℕ} (hn : fits n = true) :
    Agrees fits same (depth + 1) (x.nested n) y :=
  match y with
  | .ok _ => ⟨h.1, h.2.nested hn⟩
  | .error .malformed => ⟨h.1, h.2.nested hn⟩
  | .error .long => ⟨h.1, h.2.nested hn⟩
  | .error .deep => Nat.succ_lt_succ h
  | .error .large => fun hall => h (List.forall_mem_cons.1 hall).2

theorem agrees_large {n : ℕ} (hn : fits n ≠ true) : Agrees fits same depth (x.nested n) (throw .large) :=
  fun hall => hn (List.forall_mem_cons.1 hall).1

theorem Agrees.map {same' : α → γ → Prop} {g : β → γ} (h : Agrees fits same depth x y)
    (hsame : ∀ a b, same a b → same' a (g b)) : Agrees fits same' depth x (y.map g) :=
  match y with
  | .ok b => ⟨h.1.imp fun a ha => ⟨ha.1, hsame a b ha.2⟩, h.2⟩
  | .error .malformed => h
  | .error .long => h
  | .error .deep => h
  | .error .large => h

theorem Agrees.within (h : Agrees fits same depth x y) (hdeep : y ≠ .error .deep) (hlarge : y ≠ .error .large) :
    Within fits depth x :=
  match y with
  | .ok _ => h.2
  | .error .malformed => h.2
  | .error .long => h.2
  | .error .deep => absurd rfl hdeep
  | .error .large => absurd rfl hlarge

/-- There is neither a panic nor a map too many or too large where the items have no such fault. -/
theorem Agrees.harmless_iff (h : Agrees fits same depth x y) :
    y ≠ .error .long ∧ y ≠ .error .deep ∧ y ≠ .error .large ↔ x.outcome ≠ .panic ∧ Within fits depth x := by
  match y with
  | .ok b =>
    obtain ⟨⟨a, ha, -⟩, hwithin⟩ := h
    simp [ha, hwithin]
  | .error .malformed =>
    obtain ⟨⟨message, hm⟩, hwithin⟩ := h
    simp [hm, hwithin]
  | .error .long => simp [h.1]
  | .error .deep =>
    have hdeep : ¬ x.depth ≤ depth := not_le.2 h
    simp [Within, hdeep]
  | .error .large =>
    have hlarge : ¬ ∀ n ∈ x.sizes, fits n = true := h
    simp [Within, hlarge]

theorem Agrees.ok (h : Agrees fits same depth x y) {a : α} (hok : x.outcome = .ok a) (hwithin : Within fits depth x) :
    ∃ b, y = .ok b ∧ same a b := by
  match y with
  | .ok b =>
    obtain ⟨⟨a', ha', hsame⟩, -⟩ := h
    obtain rfl : a = a' := by simpa [hok] using ha'
    exact ⟨b, rfl, hsame⟩
  | .error .malformed =>
    obtain ⟨⟨message, hm⟩, -⟩ := h
    simp [hok] at hm
  | .error .long =>
    have hpanic : x.outcome = .panic := h.1
    simp [hok] at hpanic
  | .error .deep => exact absurd hwithin.1 (not_le.2 h)
  | .error .large => exact absurd hwithin.2 h

end Agrees

/-! ### The readers agree -/

def Holds (v : Value) : Item → Prop
  | .integer n => v = .int (int64 n)
  | .bytes b => v = .bytes b
  | .text b => v = .text b
  | .map => ∃ m, v = .map m

/-- A value of the item that was read, up to the same place. -/
def SameItem (v : Value × ℤ) (i : Item × ℕ) : Prop := Holds v.1 i.1 ∧ v.2 = i.2

section SameMap

variable {κ : Type} (keys : Keys κ)

def SameEntry (p : κ × Value) (q : Item × Item) : Prop :=
  (∃ v, Holds v q.1 ∧ keys.ofValue v = some p.1) ∧ Holds p.2 q.2

/-- The same entries, up to the same place. -/
def SameMap (m : List (κ × Value) × ℤ) (r : List (Item × Item) × ℕ) : Prop :=
  List.Forall₂ (SameEntry keys) m.1 r.1 ∧ m.2 = r.2

end SameMap

def SameEnd (m : List (ℤ × Value) × ℤ) (n : ℕ) : Prop := m.2 = n

def limit : ℕ := 2 ^ 63 - 9

theorem int64_neg (n : ℤ) : int64 (-1 - n) = -1 - int64 n := by
  unfold int64
  omega

section Maps

variable {κ : Type} {keys : Keys κ} {key : Kind} {read : Bytes → Reading (Value × ℤ)} {fits : ℕ → Bool}
  {spec : Bytes → Except Fault (Item × ℕ)} {b : Bytes} {depth : ℕ}

theorem entries_agree (hkey : ∀ v i, Holds v i → ((keys.ofValue v).isSome ↔ i.kind = key)) (hb : b.length < 2 ^ 63)
    (hspec : Consumes spec) (hread : ∀ c, c.length < b.length → Agrees fits SameItem depth (read c) (spec c)) (n i : ℕ)
    {pos : ℕ} {out : List (κ × Value)} {out' : List (Item × Item)} (hout : List.Forall₂ (SameEntry keys) out out')
    (hpos : 1 ≤ pos) (hle : pos ≤ b.length) :
    Agrees fits (SameMap keys) depth (Service.WebAuthn.readEntries keys read b n i pos out)
      (Base.Cbor.readEntries spec key b n pos out') := by
  induction n generalizing i pos out out' with
  | zero => exact agrees_ok ⟨hout, rfl⟩
  | succ n ih =>
    have hitem : ∀ {pos : ℕ} (label : String), 1 ≤ pos → pos ≤ b.length →
        Agrees fits SameItem depth (((slice b pos b.length).bind read).wrap label) (spec (b.drop pos)) := by
      intro pos label hpos hle
      rw [slice_rest hle, show (Reading.ok (b.drop pos)).bind read = read (b.drop pos) from ok_bind _ _]
      refine (hread _ ?_).wrap label
      rw [List.length_drop]
      omega
    rw [Service.WebAuthn.readEntries, Base.Cbor.readEntries]
    refine (hitem _ hpos hle).bind ?_
    rintro ⟨k, kn⟩ ⟨k', kn'⟩ ⟨hk, hkn⟩ hspeck
    dsimp only at hk hkn ⊢
    have hkn' := hspec _ _ _ hspeck
    rw [List.length_drop] at hkn'
    have hnext : int64 ((pos : ℤ) + kn) = ((pos + kn' : ℕ) : ℤ) := by
      rw [hkn, int64_of_small (by omega) (by omega), Nat.cast_add]
    rw [hnext]
    refine (hitem _ (by omega) (by omega)).bind ?_
    rintro ⟨v, vn⟩ ⟨v', vn'⟩ ⟨hv, hvn⟩ hspecv
    dsimp only at hv hvn ⊢
    have hvn' := hspec _ _ _ hspecv
    rw [List.length_drop] at hvn'
    have hlast : int64 (((pos + kn' : ℕ) : ℤ) + vn) = ((pos + kn' + vn' : ℕ) : ℤ) := by
      rw [hvn, int64_of_small (by omega) (by omega), Nat.cast_add (pos + kn') vn']
    rw [hlast]
    cases hof : keys.ofValue k with
    | none =>
      have hne : k'.kind ≠ key := fun h => by simpa [hof] using (hkey k k' hk).2 h
      rw [if_neg hne]
      exact agrees_error _
    | some key' =>
      have heq : k'.kind = key := (hkey k k' hk).1 (by rw [hof]; rfl)
      rw [if_pos heq]
      exact ih (i + 1) (.cons ⟨⟨k, hk, hof⟩, hv⟩ hout) (by omega) (by omega)

theorem map_agrees (hkey : ∀ v i, Holds v i → ((keys.ofValue v).isSome ↔ i.kind = key)) (hb : b.length < 2 ^ 63)
    (hspec : Consumes spec) (hread : ∀ c, c.length < b.length → Agrees fits SameItem depth (read c) (spec c)) :
    Agrees fits (SameMap keys) (depth + 1) (Service.WebAuthn.readMap keys read b)
      (Base.Cbor.readMap fits spec key b) := by
  cases b with
  | nil => exact agrees_error _
  | cons x rest =>
    unfold Service.WebAuthn.readMap Base.Cbor.readMap
    dsimp only
    cases hh : head (x :: rest) with
    | none =>
      dsimp only
      split
      · exact agrees_error _
      · obtain ⟨message, hlen⟩ := readCBORLen_of_none hh
        rw [hlen]
        exact agrees_error message
    | some h =>
      have hbounds := head_bounds hh
      dsimp only
      rw [head_major hh]
      split
      · exact agrees_error _
      · rename_i hmajor
        rw [if_pos (not_not.1 hmajor), readCBORLen_of_head hh, ok_bind]
        split
        · rename_i hfits
          exact (entries_agree hkey hb hspec hread _ _ .nil hbounds.1 hbounds.2.2.1).nested hfits
        · rename_i hfits
          exact agrees_large hfits

theorem depth_of_map {h : Head} (hh : head b = some h) (hmajor : h.major = 5) :
    0 < (Service.WebAuthn.readMap keys read b).depth := by
  cases b with
  | nil => cases hh
  | cons x rest =>
    rw [head_major hh] at hmajor
    unfold Service.WebAuthn.readMap
    dsimp only
    rw [if_neg (not_not.2 hmajor), readCBORLen_of_head hh, ok_bind]
    exact Nat.succ_pos _

theorem string_agrees {h : Head} (hh : head b = some h) {f : Bytes → Value} {g : Bytes → Item}
    (hf : ∀ c, Holds (f c) (g c)) :
    Agrees fits SameItem depth
      (if int64 ((h.size : ℤ) + int64 h.argument) > b.length then .error "cbor: string length overruns buffer"
        else do
          let buf ← slice b h.size (int64 ((h.size : ℤ) + int64 h.argument))
          pure (f buf, int64 ((h.size : ℤ) + int64 h.argument)))
      (if limit ≤ h.argument then throw .long
        else if b.length < h.size + h.argument then throw .malformed
        else pure (g ((b.drop h.size).take h.argument), h.size + h.argument)) := by
  obtain ⟨hsize, hsize', hle, harg⟩ := head_bounds hh
  have hpow : 256 ^ (h.size - 1) ≤ 256 ^ 8 := Nat.pow_le_pow_right (by decide) (by omega)
  by_cases hlimit : limit ≤ h.argument
  · -- The sum leaves the words, or the length is negative: either way the end lies before the start.
    have hnine : h.size = 9 := by
      by_contra hne
      have : 256 ^ (h.size - 1) ≤ 256 ^ 7 := Nat.pow_le_pow_right (by decide) (by omega)
      unfold limit at hlimit
      omega
    have hstop : int64 ((h.size : ℤ) + int64 h.argument) < h.size := by
      unfold limit at hlimit
      unfold int64
      omega
    rw [if_pos hlimit, if_neg (by omega), slice, if_neg (by omega), panic_bind]
    exact agrees_panic
  · have hstop : int64 ((h.size : ℤ) + int64 h.argument) = ((h.size + h.argument : ℕ) : ℤ) := by
      unfold limit at hlimit
      rw [int64_of_small (x := h.argument) (by omega) (by omega), int64_of_small (by omega) (by omega), Nat.cast_add]
    rw [if_neg hlimit, hstop]
    by_cases hover : b.length < h.size + h.argument
    · rw [if_pos hover, if_pos (by exact_mod_cast hover)]
      exact agrees_error _
    · rw [if_neg hover, if_neg (by exact_mod_cast hover), slice_eq _ _ (by omega) (not_lt.1 hover), ok_bind,
        List.drop_take, Nat.add_sub_cancel_left]
      exact agrees_ok ⟨hf _, rfl⟩

theorem item_agrees {fuel : ℕ} {map : Except Fault ℕ}
    (hmap : ∀ h, head b = some h → h.major = 5 →
      Agrees fits SameEnd depth (Service.WebAuthn.readMap intKeys (readCBORValueIn fuel) b) map) :
    Agrees fits SameItem depth (readCBORValueIn (fuel + 1) b) (item limit map b) := by
  cases b with
  | nil => exact agrees_error _
  | cons x rest =>
    unfold readCBORValueIn item
    dsimp only
    cases hh : head (x :: rest) with
    | none =>
      obtain ⟨message, hlen⟩ := readCBORLen_of_none hh
      dsimp only
      split
      · rw [hlen]
        exact agrees_error message
      · rw [hlen]
        exact agrees_error message
      · rw [hlen]
        exact agrees_error message
      · rw [hlen]
        exact agrees_error message
      · rename_i hmajor
        rw [Service.WebAuthn.readMap]
        dsimp only
        rw [if_neg (not_not.2 hmajor), hlen]
        exact agrees_error message
      · exact agrees_error _
    | some h =>
      have hmap := hmap h hh
      rw [readCBORLen_of_head hh]
      dsimp only
      rw [head_major hh] at hmap ⊢
      split
      · rename_i hmajor
        rw [if_pos hmajor, ok_bind]
        exact agrees_ok ⟨rfl, rfl⟩
      · rename_i hmajor
        rw [hmajor, if_neg (by decide), if_pos rfl, ok_bind]
        exact agrees_ok ⟨congrArg Value.int (int64_neg _).symm, rfl⟩
      · rename_i hmajor
        rw [hmajor, if_neg (by decide), if_neg (by decide), if_pos (by decide), ok_bind]
        exact string_agrees hh fun _ => rfl
      · rename_i hmajor
        rw [hmajor, if_neg (by decide), if_neg (by decide), if_pos (by decide), ok_bind]
        exact string_agrees hh fun _ => rfl
      · rename_i hmajor
        rw [if_neg (by omega), if_neg (by omega), if_neg (by omega), if_pos hmajor]
        refine (hmap hmajor).bind ?_
        rintro ⟨m, total⟩ n hn -
        exact agrees_ok ⟨⟨m, rfl⟩, hn⟩
      · rename_i h0 h1 h2 h3 h5
        have hlow : x.toNat / 32 ≠ 0 ∧ x.toNat / 32 ≠ 1 ∧ x.toNat / 32 ≠ 2 ∧ x.toNat / 32 ≠ 3 := ⟨h0, h1, h2, h3⟩
        rw [if_neg (by omega), if_neg (by omega), if_neg (by omega), if_neg h5]
        exact agrees_error _

end Maps

theorem intKeys_iff (v : Value) (i : Item) (h : Holds v i) : (intKeys.ofValue v).isSome ↔ i.kind = .integer := by
  cases i with
  | map =>
    obtain ⟨m, rfl⟩ := h
    simp [intKeys, Value.asInt, Item.kind]
  | _ =>
    rw [show v = _ from h]
    simp [intKeys, Value.asInt, Item.kind]

theorem textKeys_iff (v : Value) (i : Item) (h : Holds v i) : (textKeys.ofValue v).isSome ↔ i.kind = .text := by
  cases i with
  | map =>
    obtain ⟨m, rfl⟩ := h
    simp [textKeys, Value.asText, Item.kind]
  | _ =>
    rw [show v = _ from h]
    simp [textKeys, Value.asText, Item.kind]

section Values

variable (fits : ℕ → Bool)

theorem value_agrees (depth : ℕ) {fuel : ℕ} (hfuel : b.length ≤ fuel) (hb : b.length < 2 ^ 63) :
    Agrees fits SameItem depth (readCBORValueIn fuel b) (readItem fits limit depth b) := by
  induction depth generalizing fuel b with
  | zero =>
    cases fuel with
    | zero =>
      obtain rfl : b = [] := List.eq_nil_of_length_eq_zero (by omega)
      exact agrees_error _
    | succ fuel => exact item_agrees fun h hh hmajor => depth_of_map hh hmajor
  | succ depth ih =>
    cases fuel with
    | zero =>
      obtain rfl : b = [] := List.eq_nil_of_length_eq_zero (by omega)
      exact agrees_error _
    | succ fuel =>
      refine item_agrees fun h hh hmajor => ?_
      exact (map_agrees intKeys_iff hb (readItem_consumed _ _)
        fun c hc => ih (by omega) (hc.trans hb)).map fun m r hsame => hsame.2

theorem readAt_agrees {keys : Keys α} {key : Kind}
    (hkey : ∀ v i, Holds v i → ((keys.ofValue v).isSome ↔ i.kind = key)) (depth : ℕ) (hb : b.length < 2 ^ 63) :
    Agrees fits (SameMap keys) (depth + 1) (Service.WebAuthn.readMap keys readCBORValue b)
      (Base.Cbor.readMap fits (readItem fits limit depth) key b) :=
  map_agrees hkey hb (readItem_consumed _ _) fun _ hc => value_agrees fits depth le_rfl (hc.trans hb)

end Values

/-! ### Safety -/

/-- What the parsers promise of any bytes, in a process that has room for the maps that fit. -/
structure Safe (fits : ℕ → Bool) (b : Bytes) : Prop where
  authData : (parseAuthData b).outcome ≠ .panic
  attestation : (readAttestationMap b).outcome ≠ .panic
  key : (parseCOSEKey b).outcome ≠ .panic
  value : ∀ v n, (readCBORValue b).outcome = .ok (v, n) → 1 ≤ n ∧ n ≤ b.length
  map : ∀ m n, (readCBORMap b).outcome = .ok (m, n) → 1 ≤ n ∧ n ≤ b.length
  depth : (readAttestationMap b).depth ≤ 4 ∧ (readCBORMap b).depth ≤ 4 ∧ (readCBORValue b).depth ≤ 4
  memory : (∀ n ∈ (readAttestationMap b).sizes, fits n = true) ∧ ∀ n ∈ (parseCOSEKey b).sizes, fits n = true

/-- The bytes, read as a map with keys of a kind, come neither to a string that is too long, nor to a map inside four,
nor to one that is too large. -/
def Readable (fits : ℕ → Bool) (key : Kind) (b : Bytes) : Prop :=
  let r := Base.Cbor.readMap fits (readItem fits limit 3) key b
  r ≠ .error .long ∧ r ≠ .error .deep ∧ r ≠ .error .large

theorem exists_slice (b : Bytes) {lo hi : ℤ} (h : 0 ≤ lo ∧ lo ≤ hi ∧ hi ≤ b.length) : ∃ c, slice b lo hi = .ok c :=
  ⟨_, if_pos h⟩

theorem parseAuthData_ne_panic (b : Bytes) : (parseAuthData b).outcome ≠ .panic := by
  unfold parseAuthData
  split
  · nofun
  · rename_i h37
    have hshort : 32 < b.length := by omega
    have hindex : index b 32 = .ok b[32] := by rw [index, List.getElem?_eq_getElem hshort]
    obtain ⟨rpIDHash, hrp⟩ := exists_slice b (show (0 : ℤ) ≤ 0 ∧ (0 : ℤ) ≤ 32 ∧ 32 ≤ (b.length : ℤ) by omega)
    obtain ⟨count, hcount⟩ := exists_slice b (show (0 : ℤ) ≤ 33 ∧ (33 : ℤ) ≤ 37 ∧ 37 ≤ (b.length : ℤ) by omega)
    rw [hrp, ok_bind, hindex, ok_bind, hcount, ok_bind]
    split
    · split
      · nofun
      · rename_i h55
        obtain ⟨aaguid, haaguid⟩ := exists_slice b (show (0 : ℤ) ≤ 37 ∧ (37 : ℤ) ≤ 53 ∧ 53 ≤ (b.length : ℤ) by omega)
        obtain ⟨len, hlen⟩ := exists_slice b (show (0 : ℤ) ≤ 53 ∧ (53 : ℤ) ≤ 55 ∧ 55 ≤ (b.length : ℤ) by omega)
        rw [haaguid, ok_bind, hlen, ok_bind]
        dsimp only
        split
        · nofun
        · rename_i hover
          obtain ⟨id, hid⟩ := exists_slice b
            (show (0 : ℤ) ≤ 55 ∧ (55 : ℤ) ≤ 55 + bigEndian len ∧ 55 + bigEndian len ≤ (b.length : ℤ) by omega)
          obtain ⟨rest, hrest⟩ := exists_slice b
            (show 0 ≤ 55 + (bigEndian len : ℤ) ∧ 55 + bigEndian len ≤ (b.length : ℤ) ∧ (b.length : ℤ) ≤ b.length by
              omega)
          rw [hid, ok_bind, hrest, ok_bind]
          nofun
    · nofun

theorem value_consumed (hb : b.length < 2 ^ 63) {v : Value} {n : ℤ} (h : (readCBORValue b).outcome = .ok (v, n)) :
    1 ≤ n ∧ n ≤ b.length := by
  obtain ⟨⟨k, n'⟩, hspec, -, hn⟩ :=
    (value_agrees (fun _ => true) (readCBORValue b).depth le_rfl hb).ok h ⟨le_rfl, fun _ _ => rfl⟩
  have hn' := readItem_consumed _ _ _ _ _ hspec
  dsimp only at hn
  omega

theorem map_consumed (hb : b.length < 2 ^ 63) {m : List (ℤ × Value)} {n : ℤ}
    (h : (readCBORMap b).outcome = .ok (m, n)) : 1 ≤ n ∧ n ≤ b.length := by
  obtain ⟨⟨entries, n'⟩, hspec, -, hn⟩ :=
    (readAt_agrees (fun _ => true) intKeys_iff (readCBORMap b).depth hb).ok h ⟨Nat.le_succ _, fun _ _ => rfl⟩
  have hn' := readMap_consumed (readItem_consumed _ _) hspec
  dsimp only at hn
  omega

theorem readable_iff (fits : ℕ → Bool) {keys : Keys α} {key : Kind}
    (hkey : ∀ v i, Holds v i → ((keys.ofValue v).isSome ↔ i.kind = key)) (hb : b.length < 2 ^ 63) :
    Readable fits key b ↔ (Service.WebAuthn.readMap keys readCBORValue b).outcome ≠ .panic ∧
      Within fits 4 (Service.WebAuthn.readMap keys readCBORValue b) :=
  (readAt_agrees fits hkey 3 hb).harmless_iff

/-- A key is made of what was read, without a slice. -/
theorem parseCOSEKey_panic_iff (b : Bytes) : (parseCOSEKey b).outcome = .panic ↔ (readCBORMap b).outcome = .panic := by
  show (Reading.bind (readCBORMap b) _).outcome = _ ↔ _
  unfold Reading.bind
  cases (readCBORMap b).outcome with
  | ok m =>
    dsimp only
    repeat' split
    all_goals simp [Reading.error, pure, Reading.ok]
  | error message => simp
  | panic => simp

theorem parseCOSEKey_sizes (b : Bytes) : (parseCOSEKey b).sizes = (readCBORMap b).sizes := by
  show (Reading.bind (readCBORMap b) _).sizes = _
  unfold Reading.bind
  cases (readCBORMap b).outcome with
  | ok m =>
    dsimp only
    repeat' split
    all_goals simp [Reading.error, pure, Reading.ok]
  | error message => rfl
  | panic => rfl

/-- The parsers are safe on the bytes that, read as a map with integer keys and as one with text keys, come neither to a
string of 2^63 - 9 bytes or more, to a map inside four others, or to one for more entries than there is room for. -/
theorem safe_iff {fits : ℕ → Bool} {b : Bytes} (hb : b.length < 2 ^ 63) :
    Safe fits b ↔ Readable fits .integer b ∧ Readable fits .text b := by
  have hint := readable_iff fits intKeys_iff hb
  have htext := readable_iff fits textKeys_iff hb
  constructor
  · intro h
    exact ⟨hint.2 ⟨fun hp => h.key ((parseCOSEKey_panic_iff b).2 hp), h.depth.2.1, parseCOSEKey_sizes b ▸ h.memory.2⟩,
      htext.2 ⟨h.attestation, h.depth.1, h.memory.1⟩⟩
  · rintro ⟨hreadInt, hreadText⟩
    have hvalue : (readCBORValue b).depth ≤ 4 :=
      ((value_agrees fits 4 le_rfl hb).within
        (fun hdeep => hreadInt.2.1 (map_eq_error.1 (fault_of_item (.inl rfl) hdeep)))
        fun hlarge => hreadInt.2.2 (map_eq_error.1 (fault_of_item (.inr rfl) hlarge))).1
    exact {
      authData := parseAuthData_ne_panic b
      attestation := (htext.1 hreadText).1
      key := fun hp => (hint.1 hreadInt).1 ((parseCOSEKey_panic_iff b).1 hp)
      value := fun v n h => value_consumed hb h
      map := fun m n h => map_consumed hb h
      depth := ⟨(htext.1 hreadText).2.1, (hint.1 hreadInt).2.1, hvalue⟩
      memory := ⟨(htext.1 hreadText).2.2, (parseCOSEKey_sizes b).symm ▸ (hint.1 hreadInt).2.2⟩ }

def roomForMillion (n : ℕ) : Bool := decide (n ≤ 1000000)

/-- An ES256 key, with coordinates of two bytes. -/
theorem safe_key : Safe roomForMillion
    [0xA5, 0x01, 0x02, 0x03, 0x26, 0x20, 0x01, 0x21, 0x42, 0x05, 0x06, 0x22, 0x42, 0x07, 0x08] :=
  (safe_iff (by decide)).2 ⟨⟨by decide, by decide, by decide⟩, ⟨by decide, by decide, by decide⟩⟩

/-- A string of 2^64 - 1 bytes, five maps inside one another, and a map for 2^32 - 1 entries. -/
theorem long_string_panics :
    ¬ Safe roomForMillion [0xA1, 0x01, 0x5B, 0xFF, 0xFF, 0xFF, 0xFF, 0xFF, 0xFF, 0xFF, 0xFF] ∧
      ¬ Safe roomForMillion [0xA1, 0x01, 0xA1, 0x01, 0xA1, 0x01, 0xA1, 0x01, 0xA1, 0x01, 0x01] ∧
      ¬ Safe roomForMillion [0xBA, 0xFF, 0xFF, 0xFF, 0xFF] := by
  refine ⟨fun h => h.key (by decide), fun h => absurd h.depth.2.1 (by decide), fun h => ?_⟩
  exact absurd (h.memory.2 (2 ^ 32 - 1) (by decide +kernel)) (by decide)

/-! ### Numbers -/

theorem bind_eq_ok {x : Reading α} {f : α → Reading β} {c : β} :
    (x >>= f).outcome = .ok c ↔ ∃ a, x.outcome = .ok a ∧ (f a).outcome = .ok c := by
  show (Reading.bind x f).outcome = _ ↔ _
  unfold Reading.bind
  cases x.outcome <;> simp

theorem readCBORLen_eq_ok {n : ℕ} {k : ℤ} :
    (readCBORLen b).outcome = .ok (n, k) ↔ ∃ h, head b = some h ∧ n = h.argument ∧ k = h.size := by
  cases hh : head b with
  | none =>
    obtain ⟨message, hlen⟩ := readCBORLen_of_none hh
    simp [hlen, Reading.error]
  | some h => simp [readCBORLen_of_head hh, Reading.ok, eq_comm]

theorem pure_eq_ok {a c : α} : (pure a : Reading α).outcome = .ok c ↔ a = c := by
  simp [pure, Reading.ok]

theorem string_ne_int {f : Bytes → Value} (hf : ∀ c n, f c ≠ .int n) {n k : ℤ} :
    ((do
      let (a, hdrLen) ← readCBORLen b
      let stop := int64 (hdrLen + int64 a)
      if stop > b.length then .error "cbor: string length overruns buffer"
      else do
        let buf ← slice b hdrLen stop
        pure (f buf, stop)) : Reading (Value × ℤ)).outcome ≠ .ok (.int n, k) := by
  intro h
  obtain ⟨⟨a, hdrLen⟩, -, h⟩ := bind_eq_ok.1 h
  dsimp only at h
  split at h
  · cases h
  · obtain ⟨buf, -, h⟩ := bind_eq_ok.1 h
    exact hf buf n (Prod.mk.inj (pure_eq_ok.1 h)).1

/-- An integer is the argument of the head as a signed word. -/
theorem readCBORValue_int_iff {n k : ℤ} :
    (readCBORValue b).outcome = .ok (.int n, k) ↔ ∃ h, head b = some h ∧ k = h.size ∧
      (h.major = 0 ∧ n = int64 h.argument ∨ h.major = 1 ∧ n = -1 - int64 h.argument) := by
  cases b with
  | nil => simp [readCBORValue, readCBORValueIn, Reading.error, head]
  | cons x rest =>
    rw [readCBORValue, List.length_cons, readCBORValueIn]
    dsimp only
    constructor
    · intro h
      split at h
      · rename_i hmajor
        obtain ⟨⟨a, size⟩, hlen, h⟩ := bind_eq_ok.1 h
        obtain ⟨hd, hhead, rfl, rfl⟩ := readCBORLen_eq_ok.1 hlen
        obtain ⟨rfl, rfl⟩ : _ = n ∧ _ = k := by simpa using pure_eq_ok.1 h
        exact ⟨hd, hhead, rfl, .inl ⟨(head_major hhead).trans hmajor, rfl⟩⟩
      · rename_i hmajor
        obtain ⟨⟨a, size⟩, hlen, h⟩ := bind_eq_ok.1 h
        obtain ⟨hd, hhead, rfl, rfl⟩ := readCBORLen_eq_ok.1 hlen
        obtain ⟨rfl, rfl⟩ : _ = n ∧ _ = k := by simpa using pure_eq_ok.1 h
        exact ⟨hd, hhead, rfl, .inr ⟨(head_major hhead).trans hmajor, rfl⟩⟩
      · exact absurd h (string_ne_int fun _ _ => by split <;> simp)
      · exact absurd h (string_ne_int fun _ _ => by split <;> simp)
      · obtain ⟨⟨m, total⟩, -, h⟩ := bind_eq_ok.1 h
        simpa using pure_eq_ok.1 h
      · cases h
    · rintro ⟨hd, hhead, hk, ⟨hmajor, hn⟩ | ⟨hmajor, hn⟩⟩
      · rw [← head_major hhead, hmajor, readCBORLen_of_head hhead, hk, hn, ok_bind]
        exact pure_eq_ok.2 rfl
      · rw [← head_major hhead, hmajor, readCBORLen_of_head hhead, hk, hn, ok_bind]
        exact pure_eq_ok.2 rfl

/-! ### Exact numbers -/

def entriesOf (b : Bytes) : Option (List (Item × Item)) :=
  (Base.Cbor.readMap (fun _ => true) (readItem (fun _ => true) limit b.length) .integer b).toOption.map Prod.fst

def atLabel (entries : List (Item × Item)) (label : ℤ) : Option Item := entries.lookup (.integer label)

def atWord (entries : List (Item × Item)) (label : ℤ) : Option Item :=
  (entries.find? fun p => match p.1 with
    | .integer n => int64 n == label
    | _ => false).map Prod.snd

def wordOf : Option Item → ℤ
  | some (.integer n) => int64 n
  | _ => 0

def bytesOf : Option Item → Bytes
  | some (.bytes b) => b
  | _ => []

/-- Integers are those of the format in the bytes they take up, and the exponent of a key is the number that the bytes
under its label spell. -/
structure Exact (b : Bytes) : Prop where
  integer : ∀ n k, (readCBORValue b).outcome = .ok (.int n, k) →
    ∃ h, head (b.take k.toNat) = some h ∧ (h.size : ℤ) = k ∧ h.integer = some n
  exponent : ∀ pk modulus e, (parseCOSEKey b).outcome = .ok pk → pk.rsaKey = some (modulus, e) →
    ∃ entries eb, entriesOf b = some entries ∧ atLabel entries (-2) = some (.bytes eb) ∧ e = bigEndian eb

/-- In signed words, the map is that of an RS256 key. -/
def IsRS256 (entries : List (Item × Item)) : Prop :=
  wordOf (atWord entries 1) = 3 ∧ wordOf (atWord entries 3) = -257 ∧ bytesOf (atWord entries (-1)) ≠ [] ∧
    bytesOf (atWord entries (-2)) ≠ []

/-- The map has an exponent below 2^63 under its label, and the same one modulo 2^64 under the last label that is the
same word. -/
def PlainExponent (entries : List (Item × Item)) : Prop :=
  ∃ eb, atLabel entries (-2) = some (.bytes eb) ∧ bigEndian eb < 2 ^ 63 ∧
    bigEndian (bytesOf (atWord entries (-2))) % 2 ^ 64 = bigEndian eb

section Labels

variable {m : List (ℤ × Value)} {entries : List (Item × Item)} (h : List.Forall₂ (SameEntry intKeys) m entries)
include h

/-- The map of the program is the map of the format with its labels as words. -/
theorem lookup_eq_atWord (label : ℤ) : Option.Rel Holds (m.lookup label) (atWord entries label) := by
  induction h with
  | nil => exact .none
  | @cons p q m entries hpq _ ih =>
    obtain ⟨⟨v, hv, hkey⟩, hval⟩ := hpq
    obtain ⟨k, w⟩ := p
    obtain ⟨i, j⟩ := q
    cases i with
    | integer n =>
      obtain rfl : v = .int (int64 n) := hv
      obtain rfl : int64 n = k := Option.some.inj hkey
      by_cases hk : label = int64 n
      · subst hk
        simpa [atWord] using Option.Rel.some hval
      · have hk' : ¬ int64 n = label := fun heq => hk heq.symm
        simpa [atWord, List.lookup_cons, hk, hk', beq_eq_false_iff_ne.2 hk] using ih
    | bytes c =>
      obtain rfl : v = .bytes c := hv
      cases hkey
    | text c =>
      obtain rfl : v = .text c := hv
      cases hkey
    | map =>
      obtain ⟨m', rfl⟩ := hv
      cases hkey

theorem at_eq : (∀ label, intAt m label = wordOf (atWord entries label)) ∧
    ∀ label, bytesAt m label = bytesOf (atWord entries label) := by
  refine forall_and.1 fun label => ?_
  have hrel := lookup_eq_atWord h label
  rw [intAt, bytesAt]
  generalize m.lookup label = x at hrel ⊢
  generalize atWord entries label = y at hrel ⊢
  cases hrel with
  | none => exact ⟨rfl, rfl⟩
  | @some v i hvi =>
    cases i with
    | map =>
      obtain ⟨m', rfl⟩ := hvi
      exact ⟨rfl, rfl⟩
    | _ =>
      rw [show v = _ from hvi]
      exact ⟨rfl, rfl⟩

end Labels

theorem sameMap_of_entries (hb : b.length < 2 ^ 63) {entries : List (Item × Item)} (h : entriesOf b = some entries) :
    ∃ m k, (readCBORMap b).outcome = .ok (m, k) ∧ List.Forall₂ (SameEntry intKeys) m entries := by
  have hagrees := readAt_agrees (fun _ => true) intKeys_iff b.length hb
  rw [entriesOf] at h
  cases hr : Base.Cbor.readMap (fun _ => true) (readItem (fun _ => true) limit b.length) .integer b with
  | error f =>
    rw [hr] at h
    cases h
  | ok r =>
    rw [hr] at h hagrees
    obtain rfl : r.1 = entries := Option.some.inj h
    obtain ⟨⟨⟨m, k⟩, hm, hsame⟩, -⟩ := hagrees
    exact ⟨m, k, hm, hsame.1⟩

theorem entries_of_map (hb : b.length < 2 ^ 63) {m : List (ℤ × Value)} {k : ℤ}
    (h : (readCBORMap b).outcome = .ok (m, k)) :
    ∃ entries, entriesOf b = some entries ∧ List.Forall₂ (SameEntry intKeys) m entries := by
  have hagrees := readAt_agrees (fun _ => true) intKeys_iff b.length hb
  have hne : ∀ f, f = .deep ∨ f = .large →
      Base.Cbor.readMap (fun _ => true) (readItem (fun _ => true) limit b.length) .integer b ≠ .error f :=
    fun f hf => readMap_ne hf fun c hc => readItem_ne hf hc.le
  obtain ⟨⟨entries, n⟩, hspec, hsame, -⟩ := hagrees.ok h (hagrees.within (hne _ (.inl rfl)) (hne _ (.inr rfl)))
  exact ⟨entries, by rw [entriesOf, hspec]; rfl, hsame⟩

theorem exponent_eq (eb : Bytes) : exponent eb = int64 (bigEndian eb) := by
  induction eb using List.reverseRecOn with
  | nil => decide
  | append_singleton eb x ih =>
    have hexp : exponent (eb ++ [x]) = int64 (exponent eb * 256 + x.toNat) := by
      rw [exponent, List.foldl_append]
      rfl
    rw [hexp, ih, bigEndian_append]
    push_cast
    unfold int64
    omega

theorem int64_eq_iff {n : ℕ} : int64 n = n ↔ n < 2 ^ 63 := by
  unfold int64
  omega

theorem int64_eq_natCast_iff {n k : ℕ} : int64 n = k ↔ k < 2 ^ 63 ∧ n % 2 ^ 64 = k := by
  unfold int64
  omega

theorem rsaKey_of_map {m : List (ℤ × Value)} {k : ℤ} (hm : (readCBORMap b).outcome = .ok (m, k))
    {entries : List (Item × Item)} (hsame : List.Forall₂ (SameEntry intKeys) m entries) {pk : PublicKey}
    (h : (parseCOSEKey b).outcome = .ok pk) {modulus : ℕ} {e : ℤ} (hrsa : pk.rsaKey = some (modulus, e)) :
    IsRS256 entries ∧ e = int64 (bigEndian (bytesOf (atWord entries (-2)))) := by
  obtain ⟨⟨m', k'⟩, hm', h⟩ := bind_eq_ok.1 h
  obtain ⟨rfl, rfl⟩ : m = m' ∧ k = k' := by simpa using hm.symm.trans hm'
  dsimp only at h
  obtain ⟨hint, hbytes⟩ := at_eq hsame
  rw [IsRS256, ← hint, ← hint, ← hbytes, ← hbytes, ← exponent_eq]
  split at h
  · split at h
    · cases h
    · split at h
      · cases h
      · cases h
        cases hrsa
  · split at h
    · split at h
      · cases h
      · split at h
        · cases h
        · rename_i halg hkty hpresent
          rw [← pure_eq_ok.1 h] at hrsa
          simp only [Option.some.injEq, Prod.mk.injEq] at hrsa
          exact ⟨⟨not_not.1 hkty, halg, not_or.1 hpresent⟩, hrsa.2.symm⟩
    · cases h

theorem exists_rsaKey {m : List (ℤ × Value)} {k : ℤ} (hm : (readCBORMap b).outcome = .ok (m, k))
    {entries : List (Item × Item)} (hsame : List.Forall₂ (SameEntry intKeys) m entries) (h : IsRS256 entries) :
    (parseCOSEKey b).outcome =
      .ok ⟨-257, none, some (bigEndian (bytesAt m (-1)), int64 (bigEndian (bytesOf (atWord entries (-2)))))⟩ := by
  obtain ⟨hint, hbytes⟩ := at_eq hsame
  rw [IsRS256, ← hint, ← hint, ← hbytes, ← hbytes] at h
  obtain ⟨hkty, halg, hpresent⟩ := h
  refine bind_eq_ok.2 ⟨_, hm, ?_⟩
  dsimp only
  rw [halg, hkty, if_neg (by decide), if_pos rfl, if_neg (by decide), if_neg (not_or.2 hpresent), exponent_eq,
    ← hbytes]
  rfl

/-- The numbers are exact where the argument of an integer is below 2^63 and the exponent of an RS256 key is plain. -/
theorem exactNumbers_iff {b : Bytes} (hb : b.length < 2 ^ 63) :
    Exact b ↔ (∀ h, head b = some h → h.major < 2 → h.argument < 2 ^ 63) ∧
      ∀ entries, entriesOf b = some entries → IsRS256 entries → PlainExponent entries := by
  constructor
  · intro h
    refine ⟨fun hd hhead hmajor => ?_, fun entries hentries hrs => ?_⟩
    · obtain hzero | hone : hd.major = 0 ∨ hd.major = 1 := by omega
      · obtain ⟨hd', hhead', -, hn⟩ := h.integer _ _ (readCBORValue_int_iff.2 ⟨hd, hhead, rfl, .inl ⟨hzero, rfl⟩⟩)
        obtain rfl : hd = hd' := by simpa [head_take hhead] using hhead'
        simp only [Head.integer, hzero, Option.some.injEq] at hn
        exact int64_eq_iff.1 hn.symm
      · obtain ⟨hd', hhead', -, hn⟩ := h.integer _ _ (readCBORValue_int_iff.2 ⟨hd, hhead, rfl, .inr ⟨hone, rfl⟩⟩)
        obtain rfl : hd = hd' := by simpa [head_take hhead] using hhead'
        simp only [Head.integer, hone, Option.some.injEq] at hn
        exact int64_eq_iff.1 (by omega)
    · obtain ⟨m, k, hm, hsame⟩ := sameMap_of_entries hb hentries
      obtain ⟨entries', eb, hentries', hlabel, he⟩ := h.exponent _ _ _ (exists_rsaKey hm hsame hrs) rfl
      obtain rfl : entries = entries' := Option.some.inj (hentries.symm.trans hentries')
      exact ⟨eb, hlabel, int64_eq_natCast_iff.1 he⟩
  · rintro ⟨hint, hexp⟩
    refine ⟨fun n k hn => ?_, fun pk modulus e hpk hrsa => ?_⟩
    · obtain ⟨hd, hhead, rfl, hcase⟩ := readCBORValue_int_iff.1 hn
      refine ⟨hd, by rw [Int.toNat_natCast, head_take hhead], rfl, ?_⟩
      obtain ⟨hzero, heq⟩ | ⟨hone, heq⟩ := hcase
      · rw [heq, int64_eq_iff.2 (hint hd hhead (by omega)), Head.integer, hzero]
        rfl
      · rw [heq, int64_eq_iff.2 (hint hd hhead (by omega)), Head.integer, hone]
        rfl
    · obtain ⟨⟨m, k⟩, hm, -⟩ := bind_eq_ok.1 hpk
      obtain ⟨entries, hentries, hsame⟩ := entries_of_map hb hm
      obtain ⟨hrs, he⟩ := rsaKey_of_map hm hsame hpk hrsa
      obtain ⟨eb, hlabel, hplain⟩ := hexp entries hentries hrs
      exact ⟨entries, eb, hentries, hlabel, he.trans (int64_eq_natCast_iff.2 hplain)⟩

/-- An RS256 key with the exponent 65537 in three bytes. -/
theorem exact_key :
    Exact [0xA4, 0x01, 0x03, 0x03, 0x39, 0x01, 0x00, 0x20, 0x42, 0x05, 0x07, 0x21, 0x43, 0x01, 0x00, 0x01] := by
  refine (exactNumbers_iff (by decide)).2 ⟨by decide, fun entries hentries _ => ?_⟩
  have hread : entriesOf
      [0xA4, 0x01, 0x03, 0x03, 0x39, 0x01, 0x00, 0x20, 0x42, 0x05, 0x07, 0x21, 0x43, 0x01, 0x00, 0x01] =
      some [(.integer (-2), .bytes [1, 0, 1]), (.integer (-1), .bytes [5, 7]), (.integer 3, .integer (-257)),
        (.integer 1, .integer 3)] := by
    decide +kernel
  obtain rfl := Option.some.inj (hread.symm.trans hentries)
  exact ⟨[1, 0, 1], by decide⟩

theorem not_exact_of_label (eb : Bytes) (modulus : ℕ) (e : ℤ)
    (hkey : (parseCOSEKey b).outcome = .ok ⟨-257, none, some (modulus, e)⟩)
    (hlabel : (entriesOf b).bind (fun entries => atLabel entries (-2)) = some (.bytes eb)) (hne : e ≠ bigEndian eb) :
    ¬ Exact b := by
  intro h
  obtain ⟨entries, eb', hentries, hlabel', he⟩ := h.exponent _ modulus e hkey rfl
  rw [hentries, Option.bind_some, hlabel', Option.some.injEq, Item.bytes.injEq] at hlabel
  exact hne (hlabel ▸ he)

/-- The argument 2^63 comes out negative; of an exponent of nine bytes the last eight are left: 65537; and the label
2^64 - 2 is taken for -2. -/
theorem wrapped_numbers :
    ¬ Exact [0x1B, 0x80, 0, 0, 0, 0, 0, 0, 0] ∧
      ¬ Exact [0xA4, 0x01, 0x03, 0x03, 0x39, 0x01, 0x00, 0x20, 0x41, 0x01, 0x21, 0x49, 1, 0, 0, 0, 0, 0, 1, 0, 1] ∧
      ¬ Exact [0xA5, 0x01, 0x03, 0x03, 0x39, 0x01, 0x00, 0x20, 0x41, 0x01, 0x21, 0x43, 1, 0, 1,
        0x1B, 0xFF, 0xFF, 0xFF, 0xFF, 0xFF, 0xFF, 0xFF, 0xFE, 0x41, 0x03] := by
  refine ⟨fun h => ?_, fun h => ?_, fun h => ?_⟩
  · obtain ⟨hd, hhead, -, hn⟩ := h.integer (-2 ^ 63) 9 (readCBORValue_int_iff.2 ⟨⟨0, 2 ^ 63, 9⟩, by decide⟩)
    have htake : head (List.take (9 : ℤ).toNat [0x1B, 0x80, 0, 0, 0, 0, 0, 0, 0]) = some ⟨0, 2 ^ 63, 9⟩ := by decide
    obtain rfl : ⟨0, 2 ^ 63, 9⟩ = hd := by simpa using htake.symm.trans hhead
    simp [Head.integer] at hn
  · refine not_exact_of_label [1, 0, 0, 0, 0, 0, 1, 0, 1] 1 65537 ?_ ?_ ?_ h
    · decide +kernel
    · decide +kernel
    · decide
  · refine not_exact_of_label [1, 0, 1] 1 3 ?_ ?_ ?_ h
    · decide +kernel
    · decide +kernel
    · decide

end BookingSystem.Contracts.AuthenticatorData
