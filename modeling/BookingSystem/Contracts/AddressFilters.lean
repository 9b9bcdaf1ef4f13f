import BookingSystem.Base.Folding
import BookingSystem.Base.Run
import BookingSystem.Service.SafeUrls
import Mathlib.Data.List.TakeWhile
import Mathlib.Data.Nat.Init

/-!
# Two filters of addresses

`assertSafeIP` reads texts, `RejectInternal` bits. On the texts of all addresses the first refuses what the second
refuses, but for 100.100.100.200 and for the link-local addresses that do not begin with fe80 (`asStrict_iff`).
-/

namespace BookingSystem.Contracts.AddressFilters

open Base.Coding (mem_intercalate mem_or_mem_splitOn)
open Service.SafeUrls

variable {s : List Char} {gs : List ℕ} {a : BitVec 128} {c : Char}

/-! ### Texts -/

def octet (a : BitVec 32) (i : ℕ) : ℕ := a.toNat / 256 ^ i % 256

def text4 (a : BitVec 32) : List Char := dotted (octet a 3) (octet a 2) (octet a 1) (octet a 0)

/-- The eight groups of sixteen bits. -/
def groups (a : BitVec 128) : List ℕ := [7, 6, 5, 4, 3, 2, 1, 0].map fun i => a.toNat / 65536 ^ i % 65536

def hex (g : ℕ) : List Char := Nat.toDigits 16 g

def joined (gs : List ℕ) : List Char := [':'].intercalate (gs.map hex)

/-- How many zeros there are from a group on. -/
def zeros (gs : List ℕ) (i : ℕ) : ℕ := ((gs.drop i).takeWhile (· == 0)).length

/-- The first one of the longest runs of zeros, by its start and its length. -/
def longestRun (gs : List ℕ) : ℕ × ℕ :=
  (List.range gs.length).foldl (fun best i => if best.2 < zeros gs i then (i, zeros gs i) else best) (0, 0)

/-- Two colons stand for the longest run of zeros, if there are two or more. -/
def compressed (gs : List ℕ) : List Char :=
  let r := longestRun gs
  if 2 ≤ r.2 then joined (gs.take r.1) ++ ':' :: ':' :: joined (gs.drop (r.1 + r.2)) else joined gs

/-- The canonical text of an address. -/
def text : IP → List Char
  | .v4 a => text4 a
  | .v6 a => if within a mapped 96 then mappedPrefix ++ text4 (a.setWidth 32) else compressed (groups a)

/-! ### Words between colons -/

theorem isLowerHex_of_mem_hex {g : ℕ} (h : c ∈ hex g) : isLowerHex c = true := by
  have hdigit : ∀ d < 16, isLowerHex (Nat.digitChar d) = true := by decide
  rw [hex] at h
  induction g using Nat.strongRecOn with
  | _ g ih =>
    rw [Nat.toDigits_eq_if (by decide)] at h
    split at h
    · rw [List.mem_singleton.1 h]
      exact hdigit g (by assumption)
    · obtain h | h := List.mem_append.1 h
      · exact ih (g / 16) (by omega) h
      · rw [List.mem_singleton.1 h]
        exact hdigit _ (Nat.mod_lt _ (by decide))

theorem not_mem_hex (hc : isLowerHex c = false) (g : ℕ) : c ∉ hex g := fun h => by
  rw [isLowerHex_of_mem_hex h] at hc
  cases hc

theorem hex_ne_nil (g : ℕ) : hex g ≠ [] := Nat.toDigits_ne_nil

theorem isGroup_hex {g : ℕ} (hg : g < 65536) : isGroup (hex g) = true := by
  have hlength : (hex g).length ≤ 4 := (Nat.length_toDigits_le_iff (by decide) (by decide)).2 hg
  have hall : (hex g).all isHex = true := List.all_eq_true.2 fun c hc => by
    rw [isHex, isLowerHex_of_mem_hex hc, Bool.true_or]
  rw [isGroup, hall, decide_eq_true hlength]
  simp [hex_ne_nil]

theorem splitOn_joined (h : gs ≠ []) : (joined gs).splitOn ':' = gs.map hex := by
  refine List.splitOn_intercalate _ (fun w hw => ?_) (by simpa using h)
  obtain ⟨g, -, rfl⟩ := List.mem_map.1 hw
  exact not_mem_hex (by decide) g

theorem all_isGroup (h : ∀ g ∈ gs, g < 65536) : (gs.map hex).all isGroup = true := by
  rw [List.all_eq_true]
  intro w hw
  obtain ⟨g, hg, rfl⟩ := List.mem_map.1 hw
  exact isGroup_hex (h g hg)

theorem groupCount_joined (hne : gs ≠ []) (h : ∀ g ∈ gs, g < 65536) : groupCount (joined gs) = some gs.length := by
  have hall := List.all_eq_true.1 (all_isGroup h)
  have hinit : ((gs.map hex).dropLast).all isGroup = true :=
    List.all_eq_true.2 fun w hw => hall w (List.dropLast_subset _ hw)
  have hlast : ((gs.map hex).getLast?).any isGroup = true := by
    have hne' : gs.map hex ≠ [] := by simpa using hne
    rw [List.getLast?_eq_some_getLast hne', Option.any_some]
    exact hall _ (List.getLast_mem hne')
  rw [groupCount, splitOn_joined hne]
  simp only [hinit, hlast, Bool.not_true, Bool.false_eq_true, if_false, if_true, List.length_map]

/-! ### The two colons -/

theorem gap_append {w : List Char} (hw : ':' ∉ w) (s : List Char) :
    gap (w ++ s) = (gap s).map fun p => (w ++ p.1, p.2) := by
  induction w with
  | nil => simp
  | cons c w ih =>
    rw [List.mem_cons, not_or] at hw
    obtain ⟨hc, hw⟩ := hw
    rw [List.cons_append, gap, if_neg fun h => hc h.1.symm, ih hw, Option.map_map]
    rfl

theorem gap_colon (hs : s.head? ≠ some ':') : gap (':' :: s) = (gap s).map fun p => (':' :: p.1, p.2) := by
  rw [gap, if_neg fun h => hs h.2]

theorem head?_hex_append (g : ℕ) (s : List Char) : (hex g ++ s).head? ≠ some ':' := by
  cases h : hex g with
  | nil => exact absurd h (hex_ne_nil g)
  | cons c w =>
    intro hc
    cases hc
    exact not_mem_hex (by decide) g (h ▸ List.mem_cons_self)

theorem joined_cons_cons (g g' : ℕ) (gs : List ℕ) : joined (g :: g' :: gs) = hex g ++ ':' :: joined (g' :: gs) := by
  simp [joined, List.intercalate_cons_cons]

theorem joined_singleton (g : ℕ) : joined [g] = hex g := by simp [joined]

theorem exists_joined_cons (g : ℕ) (gs : List ℕ) : ∃ s, joined (g :: gs) = hex g ++ s := by
  cases gs with
  | nil => exact ⟨[], by rw [joined_singleton, List.append_nil]⟩
  | cons g' gs => exact ⟨_, joined_cons_cons g g' gs⟩

theorem gap_joined_append (gs : List ℕ) (s : List Char) :
    gap (joined gs ++ s) = (gap s).map fun p => (joined gs ++ p.1, p.2) := by
  induction gs with
  | nil => simp [joined]
  | cons g gs ih =>
    have hcolon : ':' ∉ hex g := not_mem_hex (by decide) g
    cases gs with
    | nil => rw [joined_singleton, gap_append hcolon]
    | cons g' gs =>
      obtain ⟨t, ht⟩ := exists_joined_cons g' gs
      have hhead : (joined (g' :: gs) ++ s).head? ≠ some ':' := by
        rw [ht, List.append_assoc]
        exact head?_hex_append g' (t ++ s)
      rw [joined_cons_cons, List.append_assoc, List.cons_append, gap_append hcolon, gap_colon hhead, ih, Option.map_map,
        Option.map_map]
      congr 1
      funext p
      simp

theorem gap_joined (gs : List ℕ) : gap (joined gs) = none := by
  have := gap_joined_append gs []
  rwa [List.append_nil] at this

theorem gap_pair (gs : List ℕ) (s : List Char) : gap (joined gs ++ ':' :: ':' :: s) = some (joined gs, s) := by
  rw [gap_joined_append]
  simp [gap]

/-! ### Runs of zeros -/

theorem longestRun_spec (gs : List ℕ) :
    (longestRun gs).1 ≤ gs.length ∧ (longestRun gs).2 ≤ zeros gs (longestRun gs).1 := by
  refine Base.foldl_invariant (P := fun r : ℕ × ℕ => r.1 ≤ gs.length ∧ r.2 ≤ zeros gs r.1) (fun best i hi hbest => ?_)
    ⟨Nat.zero_le _, Nat.zero_le _⟩
  split
  · exact ⟨Nat.le_of_lt (List.mem_range.1 hi), Nat.le_refl _⟩
  · exact hbest

/-- The text has all groups, or two colons where two or more zeros stand. -/
theorem compressed_cases (gs : List ℕ) :
    compressed gs = joined gs ∨ ∃ xs n ys, 2 ≤ n ∧ gs = xs ++ (List.replicate n 0 ++ ys) ∧
      compressed gs = joined xs ++ ':' :: ':' :: joined ys := by
  unfold compressed
  dsimp only
  split
  · rename_i hn
    refine .inr ⟨_, (longestRun gs).2, _, hn, ?_, rfl⟩
    have hzeros : (gs.drop (longestRun gs).1).take (longestRun gs).2 = List.replicate (longestRun gs).2 0 := by
      rw [List.eq_replicate_iff]
      have hrun := (longestRun_spec gs).2
      unfold zeros at hrun
      have hsublist := (List.takeWhile_sublist (l := gs.drop (longestRun gs).1) (· == 0)).length_le
      refine ⟨by rw [List.length_take]; omega, fun g hg => ?_⟩
      rw [← List.takeWhile_append_dropWhile (p := (· == 0)) (l := gs.drop (longestRun gs).1),
        List.take_append_of_le_length hrun] at hg
      simpa using List.mem_takeWhile_imp (List.mem_of_mem_take hg)
    rw [← hzeros, ← List.drop_drop, List.take_append_drop, List.take_append_drop]
  · exact .inl rfl

theorem mem_joined (h : c ∈ joined gs) : c = ':' ∨ isLowerHex c = true := by
  obtain h | ⟨w, hw, h⟩ := mem_intercalate h
  · exact .inl (List.mem_singleton.1 h)
  · obtain ⟨g, -, rfl⟩ := List.mem_map.1 hw
    exact .inr (isLowerHex_of_mem_hex h)

theorem mem_compressed (h : c ∈ compressed gs) : c = ':' ∨ isLowerHex c = true := by
  obtain heq | ⟨xs, n, ys, -, -, heq⟩ := compressed_cases gs
  · exact mem_joined (heq ▸ h)
  · rw [heq, List.mem_append, List.mem_cons, List.mem_cons] at h
    obtain h | h | h | h := h
    · exact mem_joined h
    · exact .inl h
    · exact .inl h
    · exact mem_joined h

theorem joined_cons_ne_nil (g : ℕ) (gs : List ℕ) : joined (g :: gs) ≠ [] := by
  obtain ⟨s, hs⟩ := exists_joined_cons g gs
  rw [hs]
  exact List.append_ne_nil_of_left_ne_nil (hex_ne_nil g) s

theorem count_before (h : ∀ g ∈ gs, g < 65536) :
    (if joined gs = [] then some 0
      else if ((joined gs).splitOn ':').all isGroup then groupCount (joined gs) else none) = some gs.length := by
  cases gs with
  | nil => rfl
  | cons g gs =>
    rw [if_neg (joined_cons_ne_nil g gs), splitOn_joined (List.cons_ne_nil _ _), all_isGroup h, if_pos rfl,
      groupCount_joined (List.cons_ne_nil _ _) h]

theorem count_after (h : ∀ g ∈ gs, g < 65536) :
    (if joined gs = [] then some 0 else groupCount (joined gs)) = some gs.length := by
  cases gs with
  | nil => rfl
  | cons g gs => rw [if_neg (joined_cons_ne_nil g gs), groupCount_joined (List.cons_ne_nil _ _) h]

theorem percent_not_mem_compressed (gs : List ℕ) : '%' ∉ compressed gs := fun h => by
  obtain h | h := mem_compressed h <;> cases h

/-- A text without a percent sign names no interface. -/
theorem no_zone (h : '%' ∉ s) : s.takeWhile (· != '%') = s ∧ s.dropWhile (· != '%') = [] := by
  have hne : ∀ c ∈ s, (c != '%') = true := fun c hc => by
    rw [bne_iff_ne]
    rintro rfl
    exact h hc
  exact ⟨List.takeWhile_eq_self_iff.2 hne, List.dropWhile_eq_nil_iff.2 hne⟩

theorem isIPv6_compressed (hlength : gs.length = 8) (hlt : ∀ g ∈ gs, g < 65536) : isIPv6 (compressed gs) = true := by
  obtain ⟨htake, hdrop⟩ := no_zone (percent_not_mem_compressed gs)
  rw [isIPv6, htake, hdrop]
  obtain heq | ⟨xs, n, ys, hn, rfl, heq⟩ := compressed_cases gs
  · have hne : gs ≠ [] := by
      rintro rfl
      cases hlength
    rw [heq, gap_joined]
    dsimp only
    rw [groupCount_joined hne hlt, hlength]
    rfl
  · rw [heq, gap_pair]
    dsimp only
    rw [count_before fun g hg => hlt g (List.mem_append_left _ hg),
      count_after fun g hg => hlt g (List.mem_append_right _ (List.mem_append_right _ hg))]
    dsimp only
    rw [List.length_append, List.length_append, List.length_replicate] at hlength
    rw [isZone, Bool.true_and, decide_eq_true_eq]
    omega

/-! ### Texts of IPv4 addresses -/

theorem octet_lt (a : BitVec 32) (i : ℕ) : octet a i < 256 := Nat.mod_lt _ (by decide)

theorem isIPv4_text4 (a : BitVec 32) : isIPv4 (text4 a) = true :=
  isIPv4_dotted (octet_lt a 3) (octet_lt a 2) (octet_lt a 1) (octet_lt a 0)

/-- An IPv4 address is written with digits and dots. -/
theorem mem_of_isIPv4 (hs : isIPv4 s = true) (hc : c ∈ s) : c = '.' ∨ c.isDigit = true := by
  rw [isIPv4, Bool.and_eq_true, List.all_eq_true] at hs
  obtain hdot | ⟨p, hp, hc⟩ := mem_or_mem_splitOn (a := '.') hc
  · exact .inl hdot
  · have hoctet := hs.2 p hp
    rw [isOctet, Bool.and_eq_true, Bool.and_eq_true, Bool.and_eq_true, List.all_eq_true] at hoctet
    exact .inr (hoctet.1.1.2 c hc)

theorem isIPv4_eq_false (h : ':' ∈ s) : isIPv4 s = false := by
  rw [← Bool.not_eq_true]
  intro hs
  obtain h | h := mem_of_isIPv4 hs h <;> cases h

theorem number_decimal (n : ℕ) : number (decimal n) = n := Nat.ofDigitChars_ten_toDigits

theorem numbers_text4 (a : BitVec 32) :
    ((text4 a).splitOn '.').map number = [octet a 3, octet a 2, octet a 1, octet a 0] := by
  rw [text4, splitOn_dotted]
  simp [number_decimal]

/-! ### What the filters refuse -/

def Refuses (s : List Char) : Prop := ∃ e, assertSafeIP s = .error e

theorem refuses_of_blocked (h : blockedIPs.contains s = true) : Refuses s :=
  ⟨_, by rw [assertSafeIP, if_pos h]⟩

theorem assertSafeIP_of_isIPv4 (hblocked : blockedIPs.contains s = false) (hs : isIPv4 s = true) :
    assertSafeIP s = assertSafeV4 ((s.splitOn '.').map number) := by
  rw [assertSafeIP, hblocked, if_neg Bool.false_ne_true, dif_pos hs]

theorem assertSafeIP_of_isIPv6 (hblocked : blockedIPs.contains s = false) (hv4 : isIPv4 s = false)
    (hv6 : isIPv6 s = true) :
    assertSafeIP s = match unwrapMappedV4 (s.map Char.toLower) with
      | some mappedV4 => assertSafeIP mappedV4
      | none => assertSafeV6 (s.map Char.toLower) := by
  rw [assertSafeIP, hblocked, if_neg Bool.false_ne_true, dif_neg (by rw [hv4]; decide), if_pos hv6]
  dsimp only
  split <;> rename_i h <;> rw [h]

theorem exists_error_ite {c : Prop} [Decidable c] {message : String} {rest : Except String Unit}
    (h : ¬ c → ∃ e, rest = .error e) : ∃ e, (if c then .error message else rest) = .error e := by
  by_cases hc : c
  · exact ⟨message, if_pos hc⟩
  · rw [if_neg hc]
    exact h hc

theorem assertSafeV4_error {a b : ℕ} {l : List ℕ}
    (h : a = 10 ∨ a = 172 ∧ 16 ≤ b ∧ b ≤ 31 ∨ a = 192 ∧ b = 168 ∨ a = 127 ∨ a = 169 ∧ b = 254 ∨ a = 0 ∨ 224 ≤ a) :
    ∃ e, assertSafeV4 (a :: b :: l) = .error e := by
  refine exists_error_ite fun h₁ => exists_error_ite fun h₂ => exists_error_ite fun h₃ => exists_error_ite fun h₄ =>
    exists_error_ite fun h₅ => exists_error_ite fun h₆ => exists_error_ite fun h₇ => absurd h ?_
  simp only [not_or]
  exact ⟨h₁, h₂, h₃, h₄, h₅, h₆, h₇⟩

theorem refuses_text4 {a : BitVec 32}
    (h : octet a 3 = 10 ∨ octet a 3 = 172 ∧ 16 ≤ octet a 2 ∧ octet a 2 ≤ 31 ∨ octet a 3 = 192 ∧ octet a 2 = 168 ∨
      octet a 3 = 127 ∨ octet a 3 = 169 ∧ octet a 2 = 254 ∨ octet a 3 = 0 ∨ 224 ≤ octet a 3) :
    Refuses (text4 a) := by
  cases hblocked : blockedIPs.contains (text4 a) with
  | true => exact refuses_of_blocked hblocked
  | false =>
    obtain ⟨e, he⟩ := assertSafeV4_error (l := [octet a 1, octet a 0]) h
    exact ⟨e, by rw [assertSafeIP_of_isIPv4 hblocked (isIPv4_text4 a), numbers_text4, he]⟩

/-- An address that is blocked begins with a 1 or with fd. -/
theorem not_blocked (h : s.head? ≠ some '1') (h' : s.take 2 ≠ "fd".toList) : blockedIPs.contains s = false := by
  rw [← Bool.not_eq_true, List.contains_iff_mem]
  intro hmem
  obtain rfl | rfl := by simpa [blockedIPs] using hmem
  · exact h rfl
  · exact h' rfl

/-! ### Mapped addresses -/

theorem toLower_of_isDigit (h : c.isDigit = true) : c.toLower = c := by
  have hle : c.toNat ≤ 57 := (Char.isDigit_iff_toNat.1 h).2
  unfold Char.toLower
  split
  · rename_i hupper
    have hge : 65 ≤ c.toNat := UInt32.le_iff_toNat_le.1 hupper.1
    omega
  · rfl

theorem toLower_text4 (a : BitVec 32) : (text4 a).map Char.toLower = text4 a := by
  have hid : ∀ c ∈ text4 a, Char.toLower c = c := fun c hc => by
    obtain rfl | hc := mem_of_isIPv4 (isIPv4_text4 a) hc
    · rfl
    · exact toLower_of_isDigit hc
  rw [List.map_congr_left hid, List.map_id']

theorem groupCount_mapped (a : BitVec 32) : groupCount ("ffff".toList ++ ':' :: text4 a) = some 3 := by
  have hsplit : (text4 a).splitOn ':' = [text4 a] := List.splitOn_eq_singleton fun h => by
    obtain h | h := mem_of_isIPv4 (isIPv4_text4 a) h <;> cases h
  have hparts : ("ffff".toList ++ ':' :: text4 a).splitOn ':' = ["ffff".toList, text4 a] := by
    rw [List.splitOn_append_cons_self_of_not_mem (by decide), hsplit]
  have hgroup : isGroup (text4 a) = false := by
    have hdot : '.' ∈ text4 a := by simp [text4, dotted, List.intercalate_cons_cons]
    rw [← Bool.not_eq_true, isGroup, Bool.and_eq_true, List.all_eq_true]
    intro h
    cases h.2 '.' hdot
  have hffff : ["ffff".toList].all isGroup = true := by decide
  simp only [groupCount, hparts, List.dropLast_cons_cons, List.dropLast_singleton, hffff, List.getLast?_cons_cons,
    List.getLast?_singleton, Option.any_some, hgroup, isIPv4_text4, List.length_cons, List.length_nil]
  rfl

/-- A mapped address is refused iff the IPv4 address in it is. -/
theorem refuses_mapped_iff (a : BitVec 32) : Refuses (mappedPrefix ++ text4 a) ↔ Refuses (text4 a) := by
  have hpercent : '%' ∉ mappedPrefix ++ text4 a := fun h => by
    obtain h | h := List.mem_append.1 h
    · revert h
      decide
    · obtain h | h := mem_of_isIPv4 (isIPv4_text4 a) h <;> cases h
  have hv6 : isIPv6 (mappedPrefix ++ text4 a) = true := by
    obtain ⟨htake, hdrop⟩ := no_zone hpercent
    have hgap : gap (mappedPrefix ++ text4 a) = some ([], "ffff".toList ++ ':' :: text4 a) := rfl
    rw [isIPv6, htake, hdrop, hgap]
    dsimp only
    rw [groupCount_mapped]
    rfl
  have hunwrap : unwrapMappedV4 ((mappedPrefix ++ text4 a).map Char.toLower) = some (text4 a) := by
    have hprefix : mappedPrefix.isPrefixOf (mappedPrefix ++ text4 a) = true :=
      List.isPrefixOf_iff_prefix.2 (List.prefix_append _ _)
    have hlower : mappedPrefix.map Char.toLower = mappedPrefix := by decide
    rw [List.map_append, toLower_text4, hlower, unwrapMappedV4, hprefix]
    dsimp only
    rw [List.drop_left, isIPv4_text4]
    rfl
  have hnot : isIPv4 (mappedPrefix ++ text4 a) = false :=
    isIPv4_eq_false (List.mem_append_left _ (by decide))
  have hhead : (mappedPrefix ++ text4 a).head? = some ':' := rfl
  have hcolons : (mappedPrefix ++ text4 a).take 2 = "::".toList := rfl
  have hblocked : blockedIPs.contains (mappedPrefix ++ text4 a) = false :=
    not_blocked (by rw [hhead]; decide) (by rw [hcolons]; decide)
  rw [Refuses, assertSafeIP_of_isIPv6 hblocked hnot hv6, hunwrap]
  rfl

/-! ### Addresses by their first group -/

def firstGroup (a : BitVec 128) : ℕ := a.toNat / 65536 ^ 7 % 65536

theorem groups_eq (a : BitVec 128) : ∃ gs, groups a = firstGroup a :: gs ∧ gs.length = 7 :=
  ⟨_, rfl, rfl⟩

theorem groups_lt (a : BitVec 128) : ∀ g ∈ groups a, g < 65536 := by
  intro g hg
  obtain ⟨i, -, rfl⟩ := List.mem_map.1 hg
  exact Nat.mod_lt _ (by decide)

theorem not_mapped (h : firstGroup a ≠ 0) : within a mapped 96 = false := by
  have hvalue : mapped.toNat = 0xffff00000000 := rfl
  unfold firstGroup at h
  rw [within, hvalue, decide_eq_false_iff_not]
  omega

/-- A first group that is not zero stands at the head. -/
theorem exists_compressed {g : ℕ} (hg : g ≠ 0) (hgs : gs ≠ []) : ∃ s, compressed (g :: gs) = hex g ++ ':' :: s := by
  obtain heq | ⟨xs, n, ys, hn, hsplit, heq⟩ := compressed_cases (g :: gs)
  · obtain ⟨g', gs, rfl⟩ := List.exists_cons_of_ne_nil hgs
    exact ⟨_, heq.trans (joined_cons_cons g g' gs)⟩
  · cases xs with
    | nil =>
      cases n with
      | zero => omega
      | succ n =>
        rw [List.nil_append, List.replicate_succ, List.cons_append] at hsplit
        exact absurd (List.cons.inj hsplit).1 hg
    | cons x xs =>
      rw [List.cons_append] at hsplit
      obtain ⟨rfl, -⟩ := List.cons.inj hsplit
      cases xs with
      | nil => exact ⟨_, by rw [heq, joined_singleton]⟩
      | cons x' xs =>
        rw [joined_cons_cons, List.append_assoc] at heq
        exact ⟨_, heq⟩

/-- A group of four digits by its digits. -/
theorem hex_eq {g : ℕ} (h : 4096 ≤ g) (hg : g < 65536) :
    hex g = [Nat.digitChar (g / 4096), Nat.digitChar (g / 256 % 16), Nat.digitChar (g / 16 % 16),
      Nat.digitChar (g % 16)] := by
  have h256 : g / 16 / 16 = g / 256 := Nat.div_div_eq_div_mul g 16 16
  have h4096 : g / 256 / 16 = g / 4096 := Nat.div_div_eq_div_mul g 256 16
  rw [hex, Nat.toDigits_of_base_le (by decide) (by omega), Nat.toDigits_of_base_le (by decide) (by omega),
    Nat.toDigits_of_base_le (by decide) (by omega), Nat.toDigits_of_lt_base (by omega), h256, h4096]
  rfl

/-- The text of an address whose first group begins with an f. -/
theorem exists_text (h : 0xf000 ≤ firstGroup a) :
    ∃ s, text (.v6 a) = 'f' :: Nat.digitChar (firstGroup a / 256 % 16) :: Nat.digitChar (firstGroup a / 16 % 16) ::
      Nat.digitChar (firstGroup a % 16) :: ':' :: s := by
  have hlt : firstGroup a < 65536 := Nat.mod_lt _ (by decide)
  obtain ⟨gs, hgs, hlength⟩ := groups_eq a
  have hne : gs ≠ [] := by
    rintro rfl
    cases hlength
  obtain ⟨s, hs⟩ := exists_compressed (show firstGroup a ≠ 0 by omega) hne
  have hfirst : firstGroup a / 4096 = 15 := by omega
  refine ⟨s, ?_⟩
  rw [text, not_mapped (by omega), if_neg Bool.false_ne_true, hgs, hs, hex_eq (by omega) hlt, hfirst]
  rfl

theorem within_group {g n : ℕ} (hg : g < 65536) (hn : n ≤ 16) :
    within a (group g) n = true ↔ firstGroup a / 2 ^ (16 - n) = g / 2 ^ (16 - n) := by
  have hpow : 2 ^ (128 - n) = 2 ^ 112 * 2 ^ (16 - n) := by
    rw [← Nat.pow_add]
    congr 1
    omega
  have hvalue : (group g).toNat = g * 2 ^ 112 := by
    rw [group, BitVec.toNat_ofNat]
    exact Nat.mod_eq_of_lt (by omega)
  have hfirst : firstGroup a = a.toNat / 2 ^ 112 := by
    have := a.isLt
    unfold firstGroup
    omega
  rw [within, decide_eq_true_eq, hpow, hvalue, ← Nat.div_div_eq_div_mul, ← Nat.div_div_eq_div_mul,
    Nat.mul_div_cancel _ (by decide), hfirst]

/-! ### What the bits say -/

theorem error_ne_none {c : Prop} [Decidable c] {e : String} {r : Option String} :
    (if c then some e else r) ≠ none ↔ c ∨ r ≠ none := by
  split_ifs with h <;> simp [h]

theorem rejectInternal_ne_none_iff (ip : IP) :
    rejectInternal (some ip) ≠ none ↔
      isLoopback ip = true ∨ isUnspecified ip = true ∨ isPrivate ip = true ∨ isLinkLocalUnicast ip = true ∨
        isLinkLocalMulticast ip = true ∨ isMulticast ip = true ∨ isInterfaceLocalMulticast ip = true ∨
        ∃ b ∈ blocked, to4 ip = to4 b.2 := by
  have hmetadata : ((blocked.find? fun b => decide (to4 ip = to4 b.2)).map fun b =>
      "metadata endpoint " ++ b.1 ++ " is not allowed") ≠ none ↔ ∃ b ∈ blocked, to4 ip = to4 b.2 := by
    rw [Ne, Option.map_eq_none_iff, ← Ne, ← Option.isSome_iff_ne_none, List.find?_isSome]
    simp only [decide_eq_true_eq]
  rw [rejectInternal, error_ne_none, error_ne_none, error_ne_none, error_ne_none, error_ne_none, error_ne_none,
    hmetadata, Bool.or_eq_true, or_assoc]

theorem to4_to4 (ip : IP) : to4 (to4 ip) = to4 ip := by
  cases ip with
  | v4 a => rfl
  | v6 a =>
    rw [to4]
    split
    · rfl
    · rename_i h
      rw [to4, if_neg h]

theorem rejectInternal_to4 (ip : IP) : rejectInternal (some (to4 ip)) ≠ none ↔ rejectInternal (some ip) ≠ none := by
  have hamong : ∀ v4 v6, among v4 v6 (to4 ip) = among v4 v6 ip := fun v4 v6 => by rw [among, to4_to4, among]
  rw [rejectInternal_ne_none_iff, rejectInternal_ne_none_iff, to4_to4]
  simp only [isLoopback, isUnspecified, isPrivate, isLinkLocalUnicast, isLinkLocalMulticast, isMulticast,
    isInterfaceLocalMulticast, hamong]

theorem within_bytes {a : BitVec 32} {b c d e n : ℕ} (hb : b < 256) (hc : c < 256) (hd : d < 256) (he : e < 256) :
    within a (bytes b c d e) n = true ↔
      a.toNat / 2 ^ (32 - n) = (((b * 256 + c) * 256 + d) * 256 + e) / 2 ^ (32 - n) := by
  have hvalue : (bytes b c d e).toNat = ((b * 256 + c) * 256 + d) * 256 + e := by
    rw [bytes, BitVec.toNat_ofNat]
    exact Nat.mod_eq_of_lt (by omega)
  rw [within, decide_eq_true_eq, hvalue]

theorem among_v4 (v4 : List (BitVec 32 × ℕ)) (v6 : List (BitVec 128 × ℕ)) (a : BitVec 32) :
    among v4 v6 (.v4 a) = v4.any fun p => within a p.1 p.2 := rfl

theorem among_v6 (v4 : List (BitVec 32 × ℕ)) (v6 : List (BitVec 128 × ℕ)) (h : within a mapped 96 = false) :
    among v4 v6 (.v6 a) = v6.any fun p => within a p.1 p.2 := by
  rw [among, to4, h, if_neg Bool.false_ne_true]

theorem eq_of_blocked {ip : IP} (h : ∃ b ∈ blocked, to4 ip = to4 b.2) :
    to4 ip = .v4 (bytes 169 254 169 254) ∨ to4 ip = .v4 (bytes 100 100 100 200) ∨
      to4 ip = .v6 (BitVec.ofNat 128 0xfd000ec2000000000000000000000254) := by
  obtain ⟨b, hb, h⟩ := h
  simp only [blocked, List.mem_cons, List.not_mem_nil, or_false] at hb
  obtain rfl | rfl | rfl := hb
  · exact .inl h
  · exact .inr (.inl h)
  · exact .inr (.inr (h.trans (by decide)))

/-- What is refused of IPv4, by the first two bytes. -/
theorem octets_of_reject {a : BitVec 32} (h : rejectInternal (some (.v4 a)) ≠ none) :
    a = bytes 100 100 100 200 ∨
      octet a 3 = 10 ∨ octet a 3 = 172 ∧ 16 ≤ octet a 2 ∧ octet a 2 ≤ 31 ∨ octet a 3 = 192 ∧ octet a 2 = 168 ∨
      octet a 3 = 127 ∨ octet a 3 = 169 ∧ octet a 2 = 254 ∨ octet a 3 = 0 ∨ 224 ≤ octet a 3 := by
  have hlt := a.isLt
  unfold octet
  rw [rejectInternal_ne_none_iff] at h
  simp (disch := decide) only [isLoopback, isUnspecified, isPrivate, isLinkLocalUnicast, isLinkLocalMulticast,
    isMulticast, isInterfaceLocalMulticast, among_v4, List.any_cons, List.any_nil, Bool.or_false, Bool.or_eq_true,
    Bool.false_eq_true, false_or, within_bytes] at h
  obtain h | h | h | h | h | h | h := h
  · exact .inr (.inr (.inr (.inr (.inl (by omega)))))
  · exact .inr (.inr (.inr (.inr (.inr (.inr (.inl (by omega)))))))
  · obtain h | h | h := h
    · exact .inr (.inl (by omega))
    · exact .inr (.inr (.inl (by omega)))
    · exact .inr (.inr (.inr (.inl (by omega))))
  · exact .inr (.inr (.inr (.inr (.inr (.inl (by omega))))))
  · exact .inr (.inr (.inr (.inr (.inr (.inr (.inr (by omega)))))))
  · exact .inr (.inr (.inr (.inr (.inr (.inr (.inr (by omega)))))))
  · obtain h | h | h := eq_of_blocked h
    · cases h
      exact .inr (by decide)
    · cases h
      exact .inl rfl
    · cases h

theorem within_all {p : BitVec 128} : within a p 128 = true ↔ a = p := by
  rw [within, decide_eq_true_eq, Nat.sub_self, Nat.pow_zero, Nat.div_one, Nat.div_one, BitVec.toNat_inj]

/-- What is refused of the other IPv6 addresses, by the first group. -/
theorem firstGroup_of_reject (hmapped : within a mapped 96 = false) (h : rejectInternal (some (.v6 a)) ≠ none) :
    a = 0 ∨ a = 1 ∨ 0xfc00 ≤ firstGroup a ∧ firstGroup a < 0xfe00 ∨
      0xfe80 ≤ firstGroup a ∧ firstGroup a < 0xfec0 ∨ 0xff00 ≤ firstGroup a := by
  have hlt : firstGroup a < 65536 := Nat.mod_lt _ (by decide)
  have hto4 : to4 (.v6 a) = .v6 a := by rw [to4, hmapped, if_neg Bool.false_ne_true]
  rw [rejectInternal_ne_none_iff] at h
  simp (disch := decide) only [isLoopback, isUnspecified, isPrivate, isLinkLocalUnicast, isLinkLocalMulticast,
    isMulticast, isInterfaceLocalMulticast, among_v6 _ _ hmapped, List.any_cons, List.any_nil, Bool.or_false,
    List.any_map, List.any_eq_true, List.mem_range, Function.comp_apply, within_group] at h
  obtain h | h | h | h | ⟨flags, hflags, h⟩ | h | ⟨flags, hflags, h⟩ | h := h
  · rw [within_all] at h
    exact .inr (.inl h)
  · rw [within_all] at h
    exact .inl h
  · omega
  · omega
  · rw [within_group (by omega) (by decide)] at h
    omega
  · omega
  · rw [within_group (by omega) (by decide)] at h
    omega
  · obtain h | h | h := eq_of_blocked h
    · rw [hto4] at h
      cases h
    · rw [hto4] at h
      cases h
    · rw [hto4] at h
      cases h
      exact .inr (.inr (.inl (by decide)))

/-! ### What the texts say -/

theorem refuses_of_assertSafeV6 (hcolon : ':' ∈ s) (hunwrap : unwrapMappedV4 (s.map Char.toLower) = none)
    (h : ∃ e, assertSafeV6 (s.map Char.toLower) = .error e) : Refuses s := by
  cases hblocked : blockedIPs.contains s with
  | true => exact refuses_of_blocked hblocked
  | false =>
    have hv4 := isIPv4_eq_false hcolon
    cases hv6 : isIPv6 s with
    | true =>
      obtain ⟨e, he⟩ := h
      exact ⟨e, by rw [assertSafeIP_of_isIPv6 hblocked hv4 hv6, hunwrap, he]⟩
    | false =>
      exact ⟨_, by rw [assertSafeIP, hblocked, if_neg Bool.false_ne_true, dif_neg (by rw [hv4]; decide), hv6,
        if_neg Bool.false_ne_true]⟩

theorem assertSafeV6_f (c d e : Char) (s : List Char) :
    assertSafeV6 ('f' :: c :: d :: e :: s) =
      if c = 'c' ∨ c = 'd' then .error "ipv6 ULA"
      else if c = 'e' ∧ d = '8' ∧ e = '0' then .error "ipv6 link-local"
      else if c = 'f' then .error "ipv6 multicast"
      else .ok () := by
  simp [assertSafeV6, List.isPrefixOf, @eq_comm _ _ c, @eq_comm _ _ d, @eq_comm _ _ e]

theorem toLower_digitChar : ∀ d < 16, (Nat.digitChar d).toLower = Nat.digitChar d := by decide

/-- The text of an address whose first group begins with an f, in lower case. -/
theorem exists_lower (h : 0xf000 ≤ firstGroup a) :
    ∃ s, (text (.v6 a)).map Char.toLower = 'f' :: Nat.digitChar (firstGroup a / 256 % 16) ::
      Nat.digitChar (firstGroup a / 16 % 16) :: Nat.digitChar (firstGroup a % 16) :: s := by
  obtain ⟨s, hs⟩ := exists_text h
  refine ⟨(':' :: s).map Char.toLower, ?_⟩
  rw [hs, List.map_cons, List.map_cons, List.map_cons, List.map_cons, toLower_digitChar _ (Nat.mod_lt _ (by decide)),
    toLower_digitChar _ (Nat.mod_lt _ (by decide)), toLower_digitChar _ (Nat.mod_lt _ (by decide))]
  rfl

theorem colon_mem_text (h : 0xf000 ≤ firstGroup a) : ':' ∈ text (.v6 a) := by
  obtain ⟨s, hs⟩ := exists_text h
  rw [hs]
  simp

theorem refuses_of_firstGroup
    (h : 0xfc00 ≤ firstGroup a ∧ firstGroup a < 0xfe00 ∨ firstGroup a = 0xfe80 ∨ 0xff00 ≤ firstGroup a) :
    Refuses (text (.v6 a)) := by
  have hlt : firstGroup a < 65536 := Nat.mod_lt _ (by decide)
  have hf : 0xf000 ≤ firstGroup a := by omega
  obtain ⟨s, hs⟩ := exists_lower hf
  refine refuses_of_assertSafeV6 (colon_mem_text hf) (by rw [hs]; rfl) ?_
  rw [hs, assertSafeV6_f]
  obtain h | h | h := h
  · have hsecond : firstGroup a / 256 % 16 = 12 ∨ firstGroup a / 256 % 16 = 13 := by omega
    obtain hsecond | hsecond := hsecond
    · rw [hsecond]
      exact ⟨_, rfl⟩
    · rw [hsecond]
      exact ⟨_, rfl⟩
  · rw [h]
    exact ⟨_, rfl⟩
  · have hsecond : firstGroup a / 256 % 16 = 15 := by omega
    rw [hsecond]
    exact ⟨_, rfl⟩

theorem not_refuses_of_firstGroup (h : 0xfe80 < firstGroup a ∧ firstGroup a < 0xfec0) : ¬ Refuses (text (.v6 a)) := by
  have hf : 0xf000 ≤ firstGroup a := by omega
  obtain ⟨s, hs⟩ := exists_text hf
  obtain ⟨s', hs'⟩ := exists_lower hf
  have hsecond : firstGroup a / 256 % 16 = 14 := by omega
  rw [hsecond] at hs hs'
  have hblocked : blockedIPs.contains (text (.v6 a)) = false := 
    not_blocked (by rw [hs, List.head?_cons]; decide) (by rw [hs]; simp)
  have hv6 : isIPv6 (text (.v6 a)) = true := by
    rw [text, not_mapped (by omega), if_neg Bool.false_ne_true]
    exact isIPv6_compressed rfl (groups_lt a)
  have hthird : ∀ d < 16, d ≠ 8 → Nat.digitChar d ≠ '8' := by decide
  have hfourth : ∀ d < 16, d ≠ 0 → Nat.digitChar d ≠ '0' := by decide
  have hnot : ¬ (Nat.digitChar 14 = 'e' ∧ Nat.digitChar (firstGroup a / 16 % 16) = '8' ∧
      Nat.digitChar (firstGroup a % 16) = '0') := by
    rintro ⟨-, h8, h0⟩
    by_cases hd : firstGroup a / 16 % 16 = 8
    · exact hfourth _ (Nat.mod_lt _ (by decide)) (by omega) h0
    · exact hthird _ (Nat.mod_lt _ (by decide)) hd h8
  have hunwrap : unwrapMappedV4 ((text (.v6 a)).map Char.toLower) = none := by
    rw [hs']
    rfl
  rintro ⟨e, he⟩
  rw [assertSafeIP_of_isIPv6 hblocked (isIPv4_eq_false (colon_mem_text hf)) hv6, hunwrap, hs'] at he
  dsimp only at he
  rw [assertSafeV6_f, if_neg (by decide), if_neg hnot, if_neg (by decide)] at he
  cases he

/-! ### The comparison -/

/-- Alibaba's metadata endpoint, and what is link-local but does not begin with fe80. -/
def Missed (ip : IP) : Prop :=
  to4 ip = .v4 (bytes 100 100 100 200) ∨
    ∃ a, ip = .v6 a ∧ within a (group 0xfe80) 10 = true ∧ within a (group 0xfe80) 16 = false

theorem not_refuses_alibaba : ¬ Refuses (text4 (bytes 100 100 100 200)) := by
  rintro ⟨e, he⟩
  rw [assertSafeIP_of_isIPv4 (by decide) (isIPv4_text4 _), numbers_text4] at he
  cases he

theorem asStrict_v4 (a : BitVec 32) :
    (rejectInternal (some (.v4 a)) ≠ none → Refuses (text4 a)) ↔ a ≠ bytes 100 100 100 200 := by
  constructor
  · rintro h rfl
    exact not_refuses_alibaba (h (by decide))
  · intro hne h
    obtain h | h := octets_of_reject h
    · exact absurd h hne
    · exact refuses_text4 h

theorem linkLocal_iff (a : BitVec 128) :
    within a (group 0xfe80) 10 = true ∧ within a (group 0xfe80) 16 = false ↔
      0xfe80 < firstGroup a ∧ firstGroup a < 0xfec0 := by
  rw [← Bool.not_eq_true, within_group (by decide) (by decide), within_group (by decide) (by decide)]
  omega

theorem asStrict_v6 (hmapped : within a mapped 96 = false) :
    (rejectInternal (some (.v6 a)) ≠ none → Refuses (text (.v6 a))) ↔
      ¬ (0xfe80 < firstGroup a ∧ firstGroup a < 0xfec0) := by
  constructor
  · intro h hmissed
    refine not_refuses_of_firstGroup hmissed (h ?_)
    refine (rejectInternal_ne_none_iff _).2 (.inr (.inr (.inr (.inl ?_))))
    rw [isLinkLocalUnicast, among_v6 _ _ hmapped, List.any_cons, ((linkLocal_iff a).2 hmissed).1, Bool.true_or]
  · intro hmissed h
    obtain rfl | rfl | h | h | h := firstGroup_of_reject hmapped h
    · exact refuses_of_assertSafeV6 (by decide) (by decide) ⟨_, rfl⟩
    · exact refuses_of_assertSafeV6 (by decide) (by decide) ⟨_, rfl⟩
    · exact refuses_of_firstGroup (.inl h)
    · exact refuses_of_firstGroup (.inr (.inl (by omega)))
    · exact refuses_of_firstGroup (.inr (.inr h))

/-- An address that is refused by its bits is refused by its text, unless it is one of those. -/
theorem asStrict_iff (ip : IP) : (rejectInternal (some ip) ≠ none → Refuses (text ip)) ↔ ¬ Missed ip := by
  cases ip with
  | v4 a =>
    have hmissed : Missed (.v4 a) ↔ a = bytes 100 100 100 200 := by
      simp [Missed, to4]
    rw [hmissed]
    exact asStrict_v4 a
  | v6 a =>
    cases hmapped : within a mapped 96 with
    | true =>
      have hto4 : to4 (.v6 a) = .v4 (a.setWidth 32) := by rw [to4, hmapped, if_pos rfl]
      have hmissed : Missed (.v6 a) ↔ a.setWidth 32 = bytes 100 100 100 200 := by
        rw [Missed, hto4]
        constructor
        · rintro (h | ⟨b, hb, h⟩)
          · exact IP.v4.inj h
          · cases hb
            have hfirst := (linkLocal_iff a).1 h
            rw [not_mapped (by omega)] at hmapped
            cases hmapped
        · intro h
          exact .inl (congrArg IP.v4 h)
      rw [hmissed, ← rejectInternal_to4, hto4, text, hmapped, if_pos rfl, refuses_mapped_iff]
      exact asStrict_v4 _
    | false =>
      have hmissed : Missed (.v6 a) ↔ 0xfe80 < firstGroup a ∧ firstGroup a < 0xfec0 := by
        rw [Missed, to4, hmapped, if_neg Bool.false_ne_true, ← linkLocal_iff]
        constructor
        · rintro (h | ⟨b, hb, h⟩)
          · cases h
          · cases hb
            exact h
        · exact fun h => .inr ⟨a, rfl, h⟩
      rw [hmissed]
      exact asStrict_v6 hmapped

/-- 100.100.100.200 gets through, and so does fe90::1. -/
theorem not_as_strict :
    (¬ ∀ a, rejectInternal (some (.v4 a)) ≠ none → Refuses (text (.v4 a))) ∧
      ¬ ∀ a, rejectInternal (some (.v6 a)) ≠ none → Refuses (text (.v6 a)) := by
  refine ⟨fun h => ?_, fun h => ?_⟩
  · exact not_refuses_alibaba (h (bytes 100 100 100 200) (by decide))
  · exact not_refuses_of_firstGroup (by decide) (h (BitVec.ofNat 128 (0xfe90 * 2 ^ 112 + 1)) (by decide))

end BookingSystem.Contracts.AddressFilters
