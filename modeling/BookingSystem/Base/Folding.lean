import Mathlib.Data.List.Basic
import Mathlib.Tactic.Common
import BookingSystem.Base.ContentLines

/-!
# Folded lines

A writer of iCalendar breaks a line that is too long: a carriage return, a line feed and a space, as often as it takes.
`WellFolded` is what is asked of the result, whatever a text is a list of: that the line can be had back, that no
physical line has too many octets, and that no character is cut in two. A line that is cut into pieces of one length is
well folded exactly under a condition on its first piece and on what comes after it (`wellFolded_pieces_iff`). The units
can be bytes (`utf8`) or those of UTF-16 (`utf16`).
-/

namespace BookingSystem.Base

/-- The units that a break is made of, and how texts are encoded in units. -/
structure Coding (α : Type) where
  cr : α
  lf : α
  space : α
  lf_ne_cr : lf ≠ cr
  space_ne_cr : space ≠ cr
  encode : Char → List α
  /-- How many octets of UTF-8 a text has. -/
  octets : List α → ℕ
  octets_space : ∀ t, octets (space :: t) = octets t + 1
  length_le_octets : ∀ t, t.length ≤ octets t

namespace Coding

variable {α : Type} [DecidableEq α] (C : Coding α)

def fold : List α := [C.cr, C.lf, C.space]

/-- Takes every line break out that one space follows, with the space. -/
def removeFolds : List α → List α
  | [] => []
  | [a] => [a]
  | [a, b] => [a, b]
  | a :: b :: c :: rest =>
    if a = C.cr ∧ b = C.lf ∧ c = C.space then removeFolds rest else a :: removeFolds (b :: c :: rest)

def consHead (a : α) : List (List α) → List (List α)
  | [] => [[a]]
  | l :: ls => (a :: l) :: ls

def physicalLines : List α → List (List α)
  | [] => [[]]
  | [a] => [[a]]
  | a :: b :: rest => if a = C.cr ∧ b = C.lf then [] :: physicalLines rest else consHead a (physicalLines (b :: rest))

/-- A character of the line begins before the unit `p` and ends after it begins. -/
def Straddles (line : List α) (p : ℕ) : Prop :=
  ∃ pre c post, line = pre ++ C.encode c ++ post ∧ pre.length < p ∧ p < pre.length + (C.encode c).length

/-- What is asked of a line that was folded so that no physical line has more octets than the limit. -/
structure WellFolded (limit : ℕ) (line folded : List α) : Prop where
  lossless : C.removeFolds folded = line
  short : ∀ l ∈ C.physicalLines folded, C.octets l ≤ limit
  whole : ∀ before after, folded = before ++ C.fold ++ after → ¬ C.Straddles line (C.removeFolds before).length

variable {C} {limit n : ℕ} {a : α} {line p t : List α} {ps : List (List α)}

attribute [local grind =] removeFolds physicalLines

/-! ### Texts without a carriage return -/

theorem removeFolds_of_ne (h : a ≠ C.cr) : C.removeFolds (a :: t) = a :: C.removeFolds t := by
  match t with
  | [] => rfl
  | [b] => rfl
  | b :: c :: rest => rw [removeFolds, if_neg fun hf => h hf.1]

theorem removeFolds_append (h : C.cr ∉ p) : C.removeFolds (p ++ t) = p ++ C.removeFolds t := by
  induction p with
  | nil => rfl
  | cons a p ih =>
    rw [List.cons_append, removeFolds_of_ne fun e => h (e ▸ List.mem_cons_self), ih fun hp => h (.tail _ hp)]
    rfl

theorem removeFolds_fold : C.removeFolds (C.fold ++ t) = C.removeFolds t := by
  show C.removeFolds (C.cr :: C.lf :: C.space :: t) = _
  rw [removeFolds, if_pos ⟨rfl, rfl, rfl⟩]

theorem removeFolds_eq_self (h : C.cr ∉ p) : C.removeFolds p = p := by
  have heq := @removeFolds_append α _ C p [] h
  rwa [List.append_nil, removeFolds, List.append_nil] at heq

theorem physicalLines_of_ne (h : a ≠ C.cr) : C.physicalLines (a :: t) = consHead a (C.physicalLines t) := by
  match t with
  | [] => rfl
  | b :: rest => rw [physicalLines, if_neg fun hf => h hf.1]

theorem physicalLines_append_fold (h : C.cr ∉ p) :
    C.physicalLines (p ++ C.fold ++ t) = p :: C.physicalLines (C.space :: t) := by
  induction p with
  | nil =>
    show C.physicalLines (C.cr :: C.lf :: C.space :: t) = _
    rw [physicalLines, if_pos ⟨rfl, rfl⟩]
  | cons a p ih =>
    rw [List.cons_append, List.cons_append, physicalLines_of_ne fun e => h (e ▸ List.mem_cons_self),
      ih fun hp => h (.tail _ hp)]
    rfl

theorem physicalLines_eq_singleton (h : C.cr ∉ p) : C.physicalLines p = [p] := by
  induction p with
  | nil => rfl
  | cons a p ih =>
    rw [physicalLines_of_ne fun e => h (e ▸ List.mem_cons_self), ih fun hp => h (.tail _ hp)]
    rfl

/-! ### Pieces with breaks between them -/

omit [DecidableEq α] in
theorem intercalate_cons (b p : List α) (ps : List (List α)) :
    b.intercalate (p :: ps) = p ++ ps.flatMap fun q => b ++ q := by
  induction ps generalizing p with
  | nil => rw [List.flatMap_nil, List.append_nil, List.intercalate_singleton]
  | cons q ps ih => rw [List.intercalate_cons_cons, ih, List.flatMap_cons, List.append_assoc, List.append_assoc]

omit [DecidableEq α] in
theorem mem_intercalate {b : List α} {ps : List (List α)} {c : α} (h : c ∈ b.intercalate ps) :
    c ∈ b ∨ ∃ p ∈ ps, c ∈ p := by
  cases ps with
  | nil => cases h
  | cons p ps =>
    rw [intercalate_cons, List.mem_append, List.mem_flatMap] at h
    rcases h with h | ⟨q, hq, h⟩
    · exact .inr ⟨p, List.mem_cons_self, h⟩
    · rcases List.mem_append.1 h with h | h
      · exact .inl h
      · exact .inr ⟨q, List.mem_cons_of_mem _ hq, h⟩

theorem mem_or_mem_splitOn {a : α} {s : List α} {c : α} (h : c ∈ s) :
    c = a ∨ ∃ p ∈ s.splitOn a, c ∈ p := by
  have hjoin : [a].intercalate (s.splitOn a) = s := List.intercalate_splitOn a
  rw [← hjoin] at h
  obtain h | h := mem_intercalate h
  · exact .inl (List.mem_singleton.1 h)
  · exact .inr h

omit [DecidableEq α] in
theorem intercalate_append {b : List α} {qs rs : List (List α)} (hqs : qs ≠ []) (hrs : rs ≠ []) :
    b.intercalate (qs ++ rs) = b.intercalate qs ++ b ++ b.intercalate rs := by
  induction qs with
  | nil => exact absurd rfl hqs
  | cons x xs ih =>
    cases xs with
    | nil =>
      obtain ⟨y, ys, rfl⟩ := List.exists_cons_of_ne_nil hrs
      rw [List.singleton_append, List.intercalate_cons_cons, List.intercalate_singleton]
    | cons y ys =>
      have hih := ih (by simp)
      rw [List.cons_append] at hih
      rw [List.cons_append, List.cons_append, List.intercalate_cons_cons, hih, List.intercalate_cons_cons]
      simp only [List.append_assoc]

theorem removeFolds_intercalate (h : C.cr ∉ ps.flatten) : C.removeFolds (C.fold.intercalate ps) = ps.flatten := by
  induction ps with
  | nil => rfl
  | cons p ps ih =>
    rw [List.flatten_cons, List.mem_append, not_or] at h
    cases ps with
    | nil => simpa using removeFolds_eq_self h.1
    | cons q qs =>
      rw [List.intercalate_cons_cons, List.append_assoc, removeFolds_append h.1, removeFolds_fold, ih h.2,
        List.flatten_cons, List.flatten_cons, List.flatten_cons]

theorem physicalLines_intercalate (h : C.cr ∉ p ++ ps.flatten) :
    C.physicalLines (C.fold.intercalate (p :: ps)) = p :: ps.map (C.space :: ·) := by
  induction ps generalizing p with
  | nil =>
    rw [List.intercalate_singleton, List.map_nil]
    exact physicalLines_eq_singleton fun hp => h (List.mem_append_left _ hp)
  | cons q qs ih =>
    rw [List.mem_append, not_or] at h
    have hq : C.cr ∉ (C.space :: q) ++ qs.flatten := by
      rw [List.cons_append, List.mem_cons, not_or]
      exact ⟨C.space_ne_cr.symm, h.2⟩
    have hspace : C.space :: C.fold.intercalate (q :: qs) = C.fold.intercalate ((C.space :: q) :: qs) := by
      cases qs with
      | nil => rw [List.intercalate_singleton, List.intercalate_singleton]
      | cons r rs => rw [List.intercalate_cons_cons, List.intercalate_cons_cons]; rfl
    rw [List.intercalate_cons_cons, physicalLines_append_fold h.1, hspace, ih hq, List.map_cons]

omit [DecidableEq α] in
/-- A break stands between two pieces. -/
theorem exists_of_break {before after : List α} (h : C.cr ∉ ps.flatten)
    (hbreak : C.fold.intercalate ps = before ++ C.fold ++ after) :
    ∃ qs rs, ps = qs ++ rs ∧ qs ≠ [] ∧ rs ≠ [] ∧ before = C.fold.intercalate qs := by
  have hcr : C.cr ∈ before ++ C.fold ++ after := by simp [fold]
  induction ps generalizing before with
  | nil =>
    rw [← hbreak, List.intercalate_nil] at hcr
    cases hcr
  | cons p ps ih =>
    rw [List.flatten_cons, List.mem_append, not_or] at h
    cases ps with
    | nil =>
      rw [← hbreak, List.intercalate_singleton] at hcr
      exact absurd hcr h.1
    | cons q qs =>
      rw [List.intercalate_cons_cons, List.append_assoc, List.append_assoc] at hbreak
      rcases List.append_eq_append_iff.1 hbreak with ⟨w, rfl, hw⟩ | ⟨w, rfl, hw⟩
      · -- the break comes after the piece: it is the first one, or it begins after that
        match w, hw with
        | [], _ => exact ⟨[p], q :: qs, rfl, by simp, by simp, by simp⟩
        | [a], hw => exact absurd (List.cons.inj (List.cons.inj hw).2).1 C.lf_ne_cr
        | [a, b], hw => exact absurd (List.cons.inj (List.cons.inj (List.cons.inj hw).2).2).1 C.space_ne_cr
        | a :: b :: c :: w, hw =>
          obtain ⟨ha, hbc⟩ := List.cons.inj hw
          obtain ⟨hb, hc⟩ := List.cons.inj hbc
          obtain ⟨hc, hafter⟩ := List.cons.inj hc
          subst ha hb hc
          have hrest : C.fold.intercalate (q :: qs) = w ++ C.fold ++ after := by
            rw [List.append_assoc]
            exact hafter
          obtain ⟨xs, rs, hps, hxs, hrs, rfl⟩ := ih h.2 hrest (by simp [fold])
          refine ⟨p :: xs, rs, by rw [hps, List.cons_append], by simp, hrs, ?_⟩
          cases xs with
          | nil => exact absurd rfl hxs
          | cons x xs =>
            rw [List.intercalate_cons_cons, List.append_assoc]
            rfl
      · -- the break would begin inside the piece
        cases w with
        | nil => exact ⟨[before], q :: qs, by simp, by simp, by simp, by simp⟩
        | cons a w =>
          obtain ⟨rfl, -⟩ := List.cons.inj hw
          exact absurd (by simp) h.1

/-- **Pieces.** What it takes that a line that was cut into pieces is well folded. -/
theorem wellFolded_intercalate_iff (h : C.cr ∉ p ++ ps.flatten) :
    C.WellFolded limit (p ++ ps.flatten) (C.fold.intercalate (p :: ps)) ↔
      C.octets p ≤ limit ∧ (∀ q ∈ ps, C.octets q < limit) ∧
        ∀ qs rs, p :: ps = qs ++ rs → qs ≠ [] → rs ≠ [] → ¬ C.Straddles (p ++ ps.flatten) qs.flatten.length := by
  have hlines := physicalLines_intercalate h
  have hflatten : (p :: ps).flatten = p ++ ps.flatten := List.flatten_cons
  have hfront : ∀ {qs rs}, p :: ps = qs ++ rs → C.removeFolds (C.fold.intercalate qs) = qs.flatten := by
    intro qs rs hps
    refine removeFolds_intercalate fun hmem => h ?_
    rw [← hflatten, hps, List.flatten_append]
    exact List.mem_append_left _ hmem
  constructor
  · rintro ⟨-, hshort, hwhole⟩
    rw [hlines] at hshort
    refine ⟨hshort p List.mem_cons_self, fun q hq => ?_, fun qs rs hps hqs hrs => ?_⟩
    · have hle := hshort (C.space :: q) (.tail _ (List.mem_map_of_mem hq))
      rw [C.octets_space] at hle
      exact hle
    · have hbreak := intercalate_append (b := C.fold) hqs hrs
      rw [← hps] at hbreak
      have hnot := hwhole _ _ hbreak
      rwa [hfront hps] at hnot
  · rintro ⟨hfirst, hrest, hwhole⟩
    refine ⟨?_, ?_, fun before after hbreak => ?_⟩
    · rw [← hflatten] at h ⊢
      exact removeFolds_intercalate h
    · rw [hlines, List.forall_mem_cons]
      refine ⟨hfirst, fun l hl => ?_⟩
      obtain ⟨q, hq, rfl⟩ := List.mem_map.1 hl
      rw [C.octets_space]
      exact hrest q hq
    · rw [← hflatten] at h
      obtain ⟨qs, rs, hps, hqs, hrs, rfl⟩ := exists_of_break h hbreak
      rw [hfront hps]
      exact hwhole qs rs hps hqs hrs

theorem wellFolded_self_iff (h : C.cr ∉ line) : C.WellFolded limit line line ↔ C.octets line ≤ limit := by
  have hiff := @wellFolded_intercalate_iff α _ C limit line [] (by simpa using h)
  rw [List.flatten_nil, List.append_nil, List.intercalate_singleton] at hiff
  rw [hiff]
  refine ⟨fun hall => hall.1, fun hle => ⟨hle, by simp, fun qs rs hps hqs hrs => ?_⟩⟩
  obtain ⟨q, qs, rfl⟩ := List.exists_cons_of_ne_nil hqs
  obtain ⟨-, hnil⟩ := List.cons.inj hps
  exact absurd (List.append_eq_nil_iff.1 hnil.symm).2 hrs

/-! ### Pieces of one length -/

/-- Pieces of `limit` units; `n` is at least the number of units. -/
def pieces (limit : ℕ) : ℕ → List α → List (List α)
  | 0, _ => []
  | _ + 1, [] => []
  | n + 1, t => t.take limit :: pieces limit n (t.drop limit)

omit [DecidableEq α] in
theorem pieces_of_pos (ht : 0 < t.length) (hn : t.length ≤ n) :
    pieces limit n t = t.take limit :: pieces limit (n - 1) (t.drop limit) := by
  obtain ⟨n, rfl⟩ : ∃ k, n = k + 1 := ⟨n - 1, by omega⟩
  cases t with
  | nil => exact absurd ht (Nat.lt_irrefl 0)
  | cons a t => rfl

omit [DecidableEq α] in
theorem flatten_pieces (hlimit : 0 < limit) (hn : t.length ≤ n) : (pieces limit n t).flatten = t := by
  induction n generalizing t with
  | zero =>
    obtain rfl := List.length_eq_zero_iff.1 (Nat.le_zero.1 hn)
    rfl
  | succ n ih =>
    by_cases ht : 0 < t.length
    · have hrest : (t.drop limit).length ≤ n := by
        rw [List.length_drop]
        omega
      rw [pieces_of_pos ht hn, List.flatten_cons, Nat.add_sub_cancel, ih hrest, List.take_append_drop]
    · obtain rfl := List.length_eq_zero_iff.1 (Nat.eq_zero_of_not_pos ht)
      rfl

omit [DecidableEq α] in
theorem pieces_of_le (ht : 0 < t.length) (hle : t.length ≤ limit) (hn : t.length ≤ n) : pieces limit n t = [t] := by
  rw [pieces_of_pos ht hn, List.take_of_length_le hle, List.drop_of_length_le hle]
  cases n - 1 <;> rfl

/-- **Pieces of the length of the limit.** -/
theorem wellFolded_pieces_iff (h : C.cr ∉ line) (hlimit : 0 < limit) (hlong : limit < line.length)
    (hn : line.length ≤ n) :
    C.WellFolded limit line (C.fold.intercalate (pieces limit n line)) ↔
      C.octets (line.take limit) ≤ limit ∧ C.octets (line.drop limit) < limit ∧ ¬ C.Straddles line limit := by
  have htake : (line.take limit).length = limit := by
    rw [List.length_take]
    omega
  have hpos : 0 < (line.drop limit).length := by
    rw [List.length_drop]
    omega
  have hrest : (line.drop limit).length ≤ n - 1 := by
    rw [List.length_drop]
    omega
  have hflatten := flatten_pieces hlimit hrest
  have hiff := @wellFolded_intercalate_iff α _ C limit (line.take limit) (pieces limit (n - 1) (line.drop limit))
    (by rwa [hflatten, List.take_append_drop])
  rw [hflatten, List.take_append_drop] at hiff
  rw [pieces_of_pos (by omega) hn, hiff]
  constructor
  · rintro ⟨hfirst, hsecond, hwhole⟩
    have hne : pieces limit (n - 1) (line.drop limit) ≠ [] := by
      rw [pieces_of_pos hpos hrest]
      exact List.cons_ne_nil _ _
    have hcut := hwhole [line.take limit] _ rfl (by simp) hne
    rw [List.flatten_singleton, htake] at hcut
    refine ⟨hfirst, ?_, hcut⟩
    -- the second piece is shorter than the limit, so nothing comes after it
    have hlt := hsecond ((line.drop limit).take limit) (by
      rw [pieces_of_pos hpos hrest]
      exact List.mem_cons_self)
    have hlength := Nat.lt_of_le_of_lt (C.length_le_octets _) hlt
    rw [List.length_take] at hlength
    rwa [List.take_of_length_le (by omega)] at hlt
  · rintro ⟨hfirst, hsecond, hwhole⟩
    have hle := Nat.le_of_lt (Nat.lt_of_le_of_lt (C.length_le_octets _) hsecond)
    rw [pieces_of_le hpos hle hrest]
    refine ⟨hfirst, by simpa using hsecond, fun qs rs hps hqs hrs => ?_⟩
    obtain rfl : qs = [line.take limit] := by
      match qs, rs, hps with
      | [q], _, hps => exact congrArg (fun q => [q]) (List.cons.inj hps).1.symm
      | [], _, _ => exact absurd rfl hqs
      | [_, _], [], _ => exact absurd rfl hrs
      | _ :: _ :: _ :: _, _, hps => cases hps
    rwa [List.flatten_singleton, htake]

/-! ### Bytes -/

/-- Texts as the bytes of UTF-8. -/
def utf8 : Coding UInt8 where
  cr := 13
  lf := 10
  space := 32
  lf_ne_cr := by decide
  space_ne_cr := by decide
  encode := String.utf8EncodeChar
  octets := List.length
  octets_space _ := rfl
  length_le_octets _ := Nat.le_refl _

/-! ### UTF-16 -/

section Utf16

def encodeUtf16 (c : Char) : Text :=
  if c.toNat < 0x10000 then [UInt16.ofNat c.toNat]
  else [UInt16.ofNat (0xD800 + (c.toNat - 0x10000) / 0x400), UInt16.ofNat (0xDC00 + (c.toNat - 0x10000) % 0x400)]

def isHigh (a : UInt16) : Bool := 0xD800 ≤ a && a < 0xDC00

def isLow (a : UInt16) : Bool := 0xDC00 ≤ a && a < 0xE000

def unitOctets (a : UInt16) : ℕ := if a < 0x80 then 1 else if a < 0x800 then 2 else 3

def utf8Length : Text → ℕ
  | [] => 0
  | [a] => unitOctets a
  | a :: b :: t => if isHigh a && isLow b then 4 + utf8Length t else unitOctets a + utf8Length (b :: t)

theorem unitOctets_pos (a : UInt16) : 0 < unitOctets a := by
  unfold unitOctets
  split_ifs <;> decide

theorem utf8Length_cons {a : UInt16} {t : Text} (h : isHigh a = false) :
    utf8Length (a :: t) = unitOctets a + utf8Length t := by
  cases t with
  | nil => rfl
  | cons b t => rw [utf8Length, h, Bool.false_and, if_neg (by decide)]

theorem length_le_utf8Length (t : Text) : t.length ≤ utf8Length t := by
  fun_induction utf8Length t with
  | case1 => exact Nat.le_refl _
  | case2 a => exact unitOctets_pos a
  | case3 a b t h ih =>
    simp only [List.length_cons]
    omega
  | case4 a b t h ih =>
    have hpos := unitOctets_pos a
    rw [List.length_cons]
    omega

/-- Only texts of ASCII have as many octets as units. -/
theorem utf8Length_le_iff (t : Text) : utf8Length t ≤ t.length ↔ ∀ a ∈ t, a < 0x80 := by
  fun_induction utf8Length t with
  | case1 => simp
  | case2 a =>
    unfold unitOctets
    split_ifs with h h' <;> simp [h]
  | case3 a b t h ih =>
    refine iff_of_false ?_ fun hall => ?_
    · have hle := length_le_utf8Length t
      simp only [List.length_cons]
      omega
    · have hhigh : 0xD800 ≤ a := by
        simp only [isHigh, Bool.and_eq_true, decide_eq_true_eq] at h
        exact h.1.1
      exact absurd (UInt16.lt_of_le_of_lt hhigh (hall a List.mem_cons_self)) (by decide)
  | case4 a b t h ih =>
    have hle := length_le_utf8Length (b :: t)
    have hunit : unitOctets a = 1 ↔ a < 0x80 := by
      unfold unitOctets
      split_ifs with h h' <;> simp [h]
    have hpos := unitOctets_pos a
    rw [List.forall_mem_cons, ← ih, ← hunit, List.length_cons]
    omega

/-- Texts as the units of UTF-16. -/
def utf16 : Coding UInt16 where
  cr := Text.cr
  lf := Text.lf
  space := Text.space
  lf_ne_cr := by decide
  space_ne_cr := by decide
  encode := encodeUtf16
  octets := utf8Length
  octets_space t := by rw [utf8Length_cons (by decide), Nat.add_comm]; rfl
  length_le_octets := length_le_utf8Length

theorem not_straddles_utf16 {line : Text} {p : ℕ} (h : ∀ a ∈ line.take p, a < 0x80) : ¬ utf16.Straddles line p := by
  rintro ⟨pre, c, post, rfl, hlt, hgt⟩
  have hcode : ¬ c.toNat < 0x10000 := by
    intro hc
    rw [show utf16.encode c = [UInt16.ofNat c.toNat] from if_pos hc, List.length_singleton] at hgt
    omega
  have hencode : utf16.encode c = [UInt16.ofNat (0xD800 + (c.toNat - 0x10000) / 0x400),
      UInt16.ofNat (0xDC00 + (c.toNat - 0x10000) % 0x400)] := if_neg hcode
  have hbound : c.toNat < 0x110000 := by
    rcases c.valid with hlt' | hlt'
    · exact Nat.lt_trans hlt' (by decide)
    · exact hlt'.2
  rw [hencode, List.length_cons, List.length_singleton] at hgt
  have hmem : UInt16.ofNat (0xD800 + (c.toNat - 0x10000) / 0x400) ∈ (pre ++ utf16.encode c ++ post).take p := by
    obtain rfl : p = pre.length + 1 := by omega
    rw [hencode, List.append_assoc, List.take_length_add_append]
    simp
  have hascii := h _ hmem
  have hsize : UInt16.size = 0x10000 := rfl
  have hbyte : (0x80 : UInt16).toNat = 0x80 := rfl
  rw [UInt16.lt_iff_toNat_lt, UInt16.toNat_ofNat_of_lt' (by omega), hbyte] at hascii
  omega

end Utf16

end Coding

end BookingSystem.Base
