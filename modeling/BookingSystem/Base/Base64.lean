import Mathlib.Data.List.Basic
import Mathlib.Tactic.IntervalCases

/-!
# Base64

Bytes as texts of the standard alphabet. `encode` writes them in groups of four digits with padding. There are three
readers: `decode`, which takes padded texts and passes over line breaks, `decodeRaw`, which takes texts without padding,
and `decodeLoose`, which passes over whatever is no digit and stops at the padding. What was written is read back
(`decode_encode`), and what `decode` accepts `decodeLoose` reads in the same way. Hexadecimal texts are read in pairs of
digits.
-/

namespace BookingSystem.Base.Base64

variable {cs : List Char} {bs : Bytes} {c : Char}

abbrev Bytes := List UInt8

/-! ### Digits -/

/-- The digit of a number below 64. -/
def digit (n : ℕ) : Char :=
  if n < 26 then Char.ofNat (65 + n)
  else if n < 52 then Char.ofNat (71 + n)
  else if n < 62 then Char.ofNat (n - 4)
  else if n = 62 then '+'
  else '/'

/-- The number of a digit. -/
def value (c : Char) : Option ℕ :=
  if 'A' ≤ c ∧ c ≤ 'Z' then some (c.toNat - 65)
  else if 'a' ≤ c ∧ c ≤ 'z' then some (c.toNat - 71)
  else if '0' ≤ c ∧ c ≤ '9' then some (c.toNat + 4)
  else if c = '+' then some 62
  else if c = '/' then some 63
  else none

/-- The digits of the alphabet for addresses are digits as well. -/
def looseValue (c : Char) : Option ℕ :=
  if c = '-' then some 62 else if c = '_' then some 63 else value c

theorem value_digit {n : ℕ} (h : n < 64) : value (digit n) = some n := by
  interval_cases n <;> decide

theorem digit_ne_pad {n : ℕ} (h : n < 64) : digit n ≠ '=' := by
  interval_cases n <;> decide

theorem looseValue_of_value {n : ℕ} (h : value c = some n) : looseValue c = some n ∧ c ≠ '=' := by
  refine ⟨?_, ?_⟩
  · unfold looseValue
    split
    · subst c
      cases h
    · split
      · subst c
        cases h
      · exact h
  · rintro rfl
    cases h

/-! ### Groups -/

def pair (w x : ℕ) : Bytes := [UInt8.ofNat (w * 4 + x / 16)]

def triple (w x y : ℕ) : Bytes := [UInt8.ofNat (w * 4 + x / 16), UInt8.ofNat (x % 16 * 16 + y / 4)]

def quad (w x y z : ℕ) : Bytes :=
  [UInt8.ofNat (w * 4 + x / 16), UInt8.ofNat (x % 16 * 16 + y / 4), UInt8.ofNat (y % 4 * 64 + z)]

theorem ofNat_eq {n : ℕ} {a : UInt8} (h : n = a.toNat) : UInt8.ofNat n = a := by
  rw [h]
  exact UInt8.ofNat_toNat

theorem pair_of_byte (a : UInt8) : pair (a.toNat / 4) (a.toNat % 4 * 16) = [a] := by
  have ha := a.toNat_lt
  rw [pair, ofNat_eq (a := a) (by omega)]

theorem triple_of_bytes (a b : UInt8) :
    triple (a.toNat / 4) (a.toNat % 4 * 16 + b.toNat / 16) (b.toNat % 16 * 4) = [a, b] := by
  have ha := a.toNat_lt
  have hb := b.toNat_lt
  rw [triple, ofNat_eq (a := a) (by omega), ofNat_eq (a := b) (by omega)]

theorem quad_of_bytes (a b c : UInt8) :
    quad (a.toNat / 4) (a.toNat % 4 * 16 + b.toNat / 16) (b.toNat % 16 * 4 + c.toNat / 64) (c.toNat % 64) =
      [a, b, c] := by
  have ha := a.toNat_lt
  have hb := b.toNat_lt
  have hc := c.toNat_lt
  rw [quad, ofNat_eq (a := a) (by omega), ofNat_eq (a := b) (by omega), ofNat_eq (a := c) (by omega)]

/-! ### Writing and reading -/

def encode : Bytes → List Char
  | [] => []
  | [a] => [digit (a.toNat / 4), digit (a.toNat % 4 * 16), '=', '=']
  | [a, b] => [digit (a.toNat / 4), digit (a.toNat % 4 * 16 + b.toNat / 16), digit (b.toNat % 16 * 4), '=']
  | a :: b :: c :: rest =>
    digit (a.toNat / 4) :: digit (a.toNat % 4 * 16 + b.toNat / 16) :: digit (b.toNat % 16 * 4 + c.toNat / 64) ::
      digit (c.toNat % 64) :: encode rest

def decodeGroups : List Char → Option Bytes
  | [] => some []
  | [w, x, y, z] =>
    if z = '=' then
      if y = '=' then do pure (pair (← value w) (← value x))
      else do pure (triple (← value w) (← value x) (← value y))
    else do pure (quad (← value w) (← value x) (← value y) (← value z))
  | w :: x :: y :: z :: rest => do
    pure (quad (← value w) (← value x) (← value y) (← value z) ++ (← decodeGroups rest))
  | _ => none

def isBreak (c : Char) : Bool := c == '\r' || c == '\n'

/-- Padded texts; line breaks are passed over. -/
def decode (cs : List Char) : Option Bytes := decodeGroups (cs.filter fun c => !isBreak c)

def decodeRawGroups : List Char → Option Bytes
  | [] => some []
  | [w, x] => do pure (pair (← value w) (← value x))
  | [w, x, y] => do pure (triple (← value w) (← value x) (← value y))
  | w :: x :: y :: z :: rest => do
    pure (quad (← value w) (← value x) (← value y) (← value z) ++ (← decodeRawGroups rest))
  | _ => none

/-- Texts without padding. -/
def decodeRaw (cs : List Char) : Option Bytes := decodeRawGroups (cs.filter fun c => !isBreak c)

/-- A digit of the alphabet for addresses as one of the standard alphabet, whose own last two are no digits there. -/
def ofUrl (c : Char) : Char :=
  if c = '-' then '+' else if c = '_' then '/' else if c = '+' ∨ c = '/' then '!' else c

def decodeUrl (cs : List Char) : Option Bytes := decode (cs.map ofUrl)

def decodeRawUrl (cs : List Char) : Option Bytes := decodeRaw (cs.map ofUrl)

def looseGroups : List ℕ → Bytes
  | w :: x :: y :: z :: rest => quad w x y z ++ looseGroups rest
  | [w, x, y] => triple w x y
  | [w, x] => pair w x
  | _ => []

/-- Whatever is no digit is passed over, up to the padding. -/
def decodeLoose (cs : List Char) : Bytes := looseGroups ((cs.takeWhile fun c => c != '=').filterMap looseValue)

/-! ### Hexadecimal digits -/

def hexValue (c : Char) : Option ℕ :=
  if '0' ≤ c ∧ c ≤ '9' then some (c.toNat - 48)
  else if 'a' ≤ c ∧ c ≤ 'f' then some (c.toNat - 87)
  else if 'A' ≤ c ∧ c ≤ 'F' then some (c.toNat - 55)
  else none

def decodeHex : List Char → Option Bytes
  | [] => some []
  | [_] => none
  | c :: d :: rest => do pure (UInt8.ofNat ((← hexValue c) * 16 + (← hexValue d)) :: (← decodeHex rest))

/-! ### What was written is read back -/

attribute [local grind =] encode decodeGroups decodeRawGroups

theorem isBreak_encode (bs : Bytes) : ∀ c ∈ encode bs, isBreak c = false := by
  have hdigit : ∀ {n}, n < 64 → isBreak (digit n) = false := by
    intro n h
    interval_cases n <;> decide
  fun_induction encode bs with
  | case1 => simp
  | case2 a =>
    have ha := a.toNat_lt
    simp only [List.forall_mem_cons, List.not_mem_nil, false_implies, implies_true, and_true]
    exact ⟨hdigit (by omega), hdigit (by omega), rfl, rfl⟩
  | case3 a b =>
    have ha := a.toNat_lt
    have hb := b.toNat_lt
    simp only [List.forall_mem_cons, List.not_mem_nil, false_implies, implies_true, and_true]
    exact ⟨hdigit (by omega), hdigit (by omega), hdigit (by omega), rfl⟩
  | case4 a b c rest ih =>
    have ha := a.toNat_lt
    have hb := b.toNat_lt
    have hc := c.toNat_lt
    simp only [List.forall_mem_cons]
    exact ⟨hdigit (by omega), hdigit (by omega), hdigit (by omega), hdigit (by omega), ih⟩

/-- A group without padding stands in front of the others. -/
theorem decodeGroups_quad {w x y z : Char} (hz : z ≠ '=') (rest : List Char) :
    decodeGroups (w :: x :: y :: z :: rest) = (do
      pure (quad (← value w) (← value x) (← value y) (← value z) ++ (← decodeGroups rest))) := by
  cases rest with
  | nil => simp [decodeGroups, hz]
  | cons c rest => rfl

theorem decodeGroups_encode (bs : Bytes) : decodeGroups (encode bs) = some bs := by
  fun_induction encode bs with
  | case1 => rfl
  | case2 a =>
    have ha := a.toNat_lt
    simp only [decodeGroups, if_true, value_digit (show a.toNat / 4 < 64 by omega),
      value_digit (show a.toNat % 4 * 16 < 64 by omega), pair_of_byte, Option.pure_def, Option.bind_eq_bind,
      Option.bind_some]
  | case3 a b =>
    have ha := a.toNat_lt
    have hb := b.toNat_lt
    have hy : b.toNat % 16 * 4 < 64 := by omega
    simp only [decodeGroups, if_true, digit_ne_pad hy, if_false, value_digit (show a.toNat / 4 < 64 by omega),
      value_digit (show a.toNat % 4 * 16 + b.toNat / 16 < 64 by omega), value_digit hy, triple_of_bytes,
      Option.pure_def, Option.bind_eq_bind, Option.bind_some]
  | case4 a b c rest ih =>
    have ha := a.toNat_lt
    have hb := b.toNat_lt
    have hc := c.toNat_lt
    have hz : c.toNat % 64 < 64 := by omega
    rw [decodeGroups_quad (digit_ne_pad hz), ih, value_digit (show a.toNat / 4 < 64 by omega),
      value_digit (show a.toNat % 4 * 16 + b.toNat / 16 < 64 by omega),
      value_digit (show b.toNat % 16 * 4 + c.toNat / 64 < 64 by omega), value_digit hz]
    simp only [Option.pure_def, Option.bind_eq_bind, Option.bind_some, quad_of_bytes, List.cons_append, List.nil_append]

/-- **Round trip.** -/
theorem decode_encode (bs : Bytes) : decode (encode bs) = some bs := by
  rw [decode, List.filter_eq_self.2, decodeGroups_encode]
  exact fun c hc => by rw [isBreak_encode bs c hc]; rfl

/-! ### The readers agree -/

theorem takeWhile_filter {p q : Char → Bool} (h : ∀ c, q c = false → p c = true) (cs : List Char) :
    (cs.filter p).takeWhile q = (cs.takeWhile q).filter p := by
  induction cs with
  | nil => rfl
  | cons c cs ih =>
    cases hq : q c with
    | false => simp [h c hq, hq]
    | true =>
      cases hp : p c with
      | false => simpa [hp, hq] using ih
      | true => simpa [hp, hq] using ih

theorem decodeLoose_filter (cs : List Char) : decodeLoose (cs.filter fun c => !isBreak c) = decodeLoose cs := by
  have hpad : ∀ c : Char, (c != '=') = false → (!isBreak c) = true := by
    intro c hc
    obtain rfl : c = '=' := by simpa using hc
    rfl
  have hbreak : ∀ cs : List Char, (cs.filter fun c => !isBreak c).filterMap looseValue = cs.filterMap looseValue := by
    intro cs
    rw [List.filterMap_filter]
    refine List.filterMap_congr fun c _ => ?_
    split
    · rfl
    · rename_i hc
      have hc : c = '\r' ∨ c = '\n' := by simpa [isBreak, or_iff_not_imp_left] using hc
      obtain rfl | rfl := hc
      · rfl
      · rfl
  rw [decodeLoose, takeWhile_filter hpad, hbreak]
  rfl

/-- The numbers of the digits up to the padding. -/
def digits (cs : List Char) : List ℕ := (cs.takeWhile fun c => c != '=').filterMap looseValue

theorem digits_cons {n : ℕ} (h : value c = some n) (cs : List Char) : digits (c :: cs) = n :: digits cs := by
  obtain ⟨hvalue, hpad⟩ := looseValue_of_value h
  rw [digits, List.takeWhile_cons_of_pos (by simpa using hpad), List.filterMap_cons_some hvalue]
  rfl

/-- A text that is read in the strict way is read in the loose way as well, and has digits and padding only. -/
theorem decodeLoose_of_decodeGroups (h : decodeGroups cs = some bs) :
    looseGroups (digits cs) = bs ∧ ∀ c ∈ cs, (value c).isSome ∨ c = '=' := by
  fun_induction decodeGroups cs generalizing bs with
  | case1 =>
    cases h
    exact ⟨rfl, nofun⟩
  | case2 w x =>
    simp only [Option.bind_eq_bind, Option.bind_eq_some_iff, Option.pure_def, Option.some.injEq] at h
    obtain ⟨m, hm, n, hn, rfl⟩ := h
    rw [digits_cons hm, digits_cons hn]
    exact ⟨rfl, by simp [hm, hn]⟩
  | case3 w x y hy =>
    simp only [Option.bind_eq_bind, Option.bind_eq_some_iff, Option.pure_def, Option.some.injEq] at h
    obtain ⟨k, hk, m, hm, n, hn, rfl⟩ := h
    rw [digits_cons hk, digits_cons hm, digits_cons hn]
    exact ⟨rfl, by simp [hk, hm, hn]⟩
  | case4 w x y z hz =>
    simp only [Option.bind_eq_bind, Option.bind_eq_some_iff, Option.pure_def, Option.some.injEq] at h
    obtain ⟨j, hj, k, hk, m, hm, n, hn, rfl⟩ := h
    rw [digits_cons hj, digits_cons hk, digits_cons hm, digits_cons hn]
    exact ⟨rfl, by simp [hj, hk, hm, hn]⟩
  | case5 w x y z rest _ ih =>
    simp only [Option.bind_eq_bind, Option.bind_eq_some_iff, Option.pure_def, Option.some.injEq] at h
    obtain ⟨j, hj, k, hk, m, hm, n, hn, bs', hbs', rfl⟩ := h
    obtain ⟨hloose, hrest⟩ := ih hbs'
    rw [digits_cons hj, digits_cons hk, digits_cons hm, digits_cons hn, looseGroups, hloose]
    exact ⟨rfl, by simpa [hj, hk, hm, hn] using hrest⟩
  | case6 => cases h

theorem decodeLoose_of_decode (h : decode cs = some bs) : decodeLoose cs = bs := by
  rw [← decodeLoose_filter]
  exact (decodeLoose_of_decodeGroups h).1

/-! ### What a text consists of -/

theorem digits_of_decode (h : decode cs = some bs) : ∀ c ∈ cs, isBreak c = true ∨ (value c).isSome ∨ c = '=' := by
  intro c hc
  cases hbreak : isBreak c with
  | true => exact .inl rfl
  | false => exact .inr ((decodeLoose_of_decodeGroups h).2 c (List.mem_filter.2 ⟨hc, by rw [hbreak]; rfl⟩))

theorem length_looseGroups (ns : List ℕ) : (looseGroups ns).length = ns.length * 3 / 4 := by
  fun_induction looseGroups ns with
  | case1 w x y z rest ih =>
    rw [List.length_append, ih]
    simp only [quad, List.length_cons, List.length_nil]
    omega
  | case2 => simp [triple]
  | case3 => simp [pair]
  | case4 ns h4 h3 h2 =>
    match ns with
    | [] => rfl
    | [_] => simp
    | [w, x] => exact absurd rfl (h2 w x)
    | [w, x, y] => exact absurd rfl (h3 w x y)
    | w :: x :: y :: z :: rest => exact absurd rfl (h4 w x y z rest)

theorem value_of_hexValue (h : (hexValue c).isSome) : (value c).isSome := by
  unfold hexValue at h
  unfold value
  split
  · rfl
  · rename_i hupper
    split at h
    · rename_i hdigit
      rw [if_pos hdigit]
      split <;> rfl
    · split at h
      · rename_i hlower
        rw [if_pos ⟨hlower.1, Char.le_trans hlower.2 (by decide)⟩]
        rfl
      · split at h
        · rename_i hletter
          exact absurd ⟨hletter.1, Char.le_trans hletter.2 (by decide)⟩ hupper
        · cases h

/-- Hexadecimal digits are digits here as well, so a text of them is read to its end. -/
theorem length_decodeLoose_hex (h : ∀ c ∈ cs, (hexValue c).isSome) : (decodeLoose cs).length = cs.length * 3 / 4 := by
  have hdigits : (digits cs).length = cs.length := by
    induction cs with
    | nil => rfl
    | cons c cs ih =>
      obtain ⟨n, hn⟩ := Option.isSome_iff_exists.1 (value_of_hexValue (h c List.mem_cons_self))
      rw [digits_cons hn, List.length_cons, List.length_cons, ih fun c hc => h c (List.mem_cons_of_mem _ hc)]
  rw [decodeLoose, length_looseGroups, ← hdigits]
  rfl

theorem length_decodeHex (h : decodeHex cs = some bs) : cs.length = 2 * bs.length := by
  fun_induction decodeHex cs generalizing bs with
  | case1 =>
    cases h
    rfl
  | case2 => cases h
  | case3 c d rest ih =>
    simp only [Option.bind_eq_bind, Option.bind_eq_some_iff, Option.pure_def, Option.some.injEq] at h
    obtain ⟨m, hm, n, hn, bs', hbs', rfl⟩ := h
    have hrest := ih hbs'
    simp only [List.length_cons]
    omega

/-! ### The four spellings -/

/-- The text without its padding. -/
def encodeRaw (bs : Bytes) : List Char := (encode bs).filter fun c => c != '='

/-- A digit of the standard alphabet as one of the alphabet for addresses. -/
def toUrl (c : Char) : Char := if c = '+' then '-' else if c = '/' then '_' else c

/-- Which alphabet, and whether with padding. -/
structure Spelling where
  url : Bool
  padded : Bool

def spell (s : Spelling) (bs : Bytes) : List Char :=
  (if s.padded then encode bs else encodeRaw bs).map fun c => if s.url then toUrl c else c

theorem encodeRaw_one (a : UInt8) : encodeRaw [a] = [digit (a.toNat / 4), digit (a.toNat % 4 * 16)] := by
  have ha := a.toNat_lt
  simp [encodeRaw, encode, digit_ne_pad (show a.toNat / 4 < 64 by omega),
    digit_ne_pad (show a.toNat % 4 * 16 < 64 by omega)]

theorem encodeRaw_two (a b : UInt8) : encodeRaw [a, b] =
    [digit (a.toNat / 4), digit (a.toNat % 4 * 16 + b.toNat / 16), digit (b.toNat % 16 * 4)] := by
  have ha := a.toNat_lt
  have hb := b.toNat_lt
  simp [encodeRaw, encode, digit_ne_pad (show a.toNat / 4 < 64 by omega),
    digit_ne_pad (show a.toNat % 4 * 16 + b.toNat / 16 < 64 by omega),
    digit_ne_pad (show b.toNat % 16 * 4 < 64 by omega)]

theorem encodeRaw_cons (a b c : UInt8) (rest : Bytes) :
    encodeRaw (a :: b :: c :: rest) =
      digit (a.toNat / 4) :: digit (a.toNat % 4 * 16 + b.toNat / 16) :: digit (b.toNat % 16 * 4 + c.toNat / 64) ::
        digit (c.toNat % 64) :: encodeRaw rest := by
  have ha := a.toNat_lt
  have hb := b.toNat_lt
  have hc := c.toNat_lt
  simp [encodeRaw, encode, digit_ne_pad (show a.toNat / 4 < 64 by omega),
    digit_ne_pad (show a.toNat % 4 * 16 + b.toNat / 16 < 64 by omega),
    digit_ne_pad (show b.toNat % 16 * 4 + c.toNat / 64 < 64 by omega), digit_ne_pad (show c.toNat % 64 < 64 by omega)]

theorem decodeRawGroups_encodeRaw (bs : Bytes) : decodeRawGroups (encodeRaw bs) = some bs := by
  fun_induction encode bs with
  | case1 => rfl
  | case2 a =>
    have ha := a.toNat_lt
    simp only [encodeRaw_one, decodeRawGroups, value_digit (show a.toNat / 4 < 64 by omega),
      value_digit (show a.toNat % 4 * 16 < 64 by omega), pair_of_byte, Option.pure_def, Option.bind_eq_bind,
      Option.bind_some]
  | case3 a b =>
    have ha := a.toNat_lt
    have hb := b.toNat_lt
    simp only [encodeRaw_two, decodeRawGroups, value_digit (show a.toNat / 4 < 64 by omega),
      value_digit (show a.toNat % 4 * 16 + b.toNat / 16 < 64 by omega),
      value_digit (show b.toNat % 16 * 4 < 64 by omega), triple_of_bytes, Option.pure_def, Option.bind_eq_bind,
      Option.bind_some]
  | case4 a b c rest ih =>
    have ha := a.toNat_lt
    have hb := b.toNat_lt
    have hc := c.toNat_lt
    rw [encodeRaw_cons, decodeRawGroups, ih, value_digit (show a.toNat / 4 < 64 by omega),
      value_digit (show a.toNat % 4 * 16 + b.toNat / 16 < 64 by omega),
      value_digit (show b.toNat % 16 * 4 + c.toNat / 64 < 64 by omega), value_digit (show c.toNat % 64 < 64 by omega)]
    simp only [Option.pure_def, Option.bind_eq_bind, Option.bind_some, quad_of_bytes, List.cons_append, List.nil_append]

theorem decodeRaw_encodeRaw (bs : Bytes) : decodeRaw (encodeRaw bs) = some bs := by
  rw [decodeRaw, List.filter_eq_self.2, decodeRawGroups_encodeRaw]
  exact fun c hc => by rw [isBreak_encode bs c (List.mem_filter.1 hc).1]; rfl

/-- The padding fills up the last group. -/
theorem encode_eq_append (bs : Bytes) :
    encode bs = encodeRaw bs ++ List.replicate ((4 - (encodeRaw bs).length % 4) % 4) '=' := by
  fun_induction encode bs with
  | case1 => rfl
  | case2 a => rw [encodeRaw_one]; rfl
  | case3 a b => rw [encodeRaw_two]; rfl
  | case4 a b c rest ih =>
    have hlength : (4 - ((encodeRaw rest).length + 1 + 1 + 1 + 1) % 4) % 4 = (4 - (encodeRaw rest).length % 4) % 4 := by
      omega
    simp only [encodeRaw_cons, List.length_cons, List.cons_append, hlength, ← ih]

theorem length_encode_mod (bs : Bytes) : (encode bs).length % 4 = 0 := by
  rw [encode_eq_append, List.length_append, List.length_replicate]
  omega

theorem ofUrl_toUrl (hc : (value c).isSome ∨ c = '=') : ofUrl (toUrl c) = c := by
  unfold toUrl
  split_ifs with hplus hslash
  · rw [hplus]
    rfl
  · rw [hslash]
    rfl
  · have hminus : c ≠ '-' := by
      rintro rfl
      revert hc
      decide
    have hunder : c ≠ '_' := by
      rintro rfl
      revert hc
      decide
    rw [ofUrl, if_neg hminus, if_neg hunder, if_neg (not_or.2 ⟨hplus, hslash⟩)]

theorem map_ofUrl_toUrl (h : ∀ c ∈ cs, (value c).isSome ∨ c = '=') : (cs.map toUrl).map ofUrl = cs := by
  have hid : ∀ c ∈ cs, (ofUrl ∘ toUrl) c = c := fun c hc => ofUrl_toUrl (h c hc)
  rw [List.map_map, List.map_congr_left hid, List.map_id']

theorem digits_encode (bs : Bytes) : ∀ c ∈ encode bs, (value c).isSome ∨ c = '=' :=
  (decodeLoose_of_decodeGroups (decodeGroups_encode bs)).2

theorem decodeLoose_of_decodeRawGroups (h : decodeRawGroups cs = some bs) :
    looseGroups (digits cs) = bs ∧ ∀ c ∈ cs, (value c).isSome := by
  fun_induction decodeRawGroups cs generalizing bs with
  | case1 =>
    cases h
    exact ⟨rfl, nofun⟩
  | case2 w x =>
    simp only [Option.bind_eq_bind, Option.bind_eq_some_iff, Option.pure_def, Option.some.injEq] at h
    obtain ⟨m, hm, n, hn, rfl⟩ := h
    rw [digits_cons hm, digits_cons hn]
    exact ⟨rfl, by simp [hm, hn]⟩
  | case3 w x y =>
    simp only [Option.bind_eq_bind, Option.bind_eq_some_iff, Option.pure_def, Option.some.injEq] at h
    obtain ⟨k, hk, m, hm, n, hn, rfl⟩ := h
    rw [digits_cons hk, digits_cons hm, digits_cons hn]
    exact ⟨rfl, by simp [hk, hm, hn]⟩
  | case4 w x y z rest ih =>
    simp only [Option.bind_eq_bind, Option.bind_eq_some_iff, Option.pure_def, Option.some.injEq] at h
    obtain ⟨j, hj, k, hk, m, hm, n, hn, bs', hbs', rfl⟩ := h
    obtain ⟨hloose, hrest⟩ := ih hbs'
    rw [digits_cons hj, digits_cons hk, digits_cons hm, digits_cons hn, looseGroups, hloose]
    exact ⟨rfl, by simpa [hj, hk, hm, hn] using hrest⟩
  | case5 => cases h

theorem decodeLoose_of_decodeRaw (h : decodeRaw cs = some bs) : decodeLoose cs = bs := by
  rw [← decodeLoose_filter]
  exact (decodeLoose_of_decodeRawGroups h).1

theorem digits_of_decodeRaw (h : decodeRaw cs = some bs) : ∀ c ∈ cs, isBreak c = true ∨ (value c).isSome ∨ c = '=' := by
  intro c hc
  cases hbreak : isBreak c with
  | true => exact .inl rfl
  | false =>
    exact .inr (.inl ((decodeLoose_of_decodeRawGroups h).2 c (List.mem_filter.2 ⟨hc, by rw [hbreak]; rfl⟩)))

/-- What is read in the alphabet for addresses is read in the loose way as well. -/
theorem decodeLoose_ofUrl (h : ∀ c ∈ cs.map ofUrl, isBreak c = true ∨ (value c).isSome ∨ c = '=') :
    decodeLoose (cs.map ofUrl) = decodeLoose cs := by
  have hne : ∀ c ∈ cs, c ≠ '+' ∧ c ≠ '/' := fun c hc => by
    have hread := h _ (List.mem_map_of_mem hc)
    constructor <;>
    · rintro rfl
      revert hread
      decide
  have hvalue : ∀ c ∈ cs, looseValue (ofUrl c) = looseValue c ∧ (ofUrl c != '=') = (c != '=') := fun c hc => by
    unfold ofUrl
    split_ifs with hminus hunder hstandard
    · rw [hminus]
      decide
    · rw [hunder]
      decide
    · exact absurd hstandard (not_or.2 (hne c hc))
    · exact ⟨rfl, rfl⟩
  have hdigits : digits (cs.map ofUrl) = digits cs := by
    clear h hne
    unfold digits
    induction cs with
    | nil => rfl
    | cons c cs ih =>
      obtain ⟨hloose, hpad⟩ := hvalue c List.mem_cons_self
      rw [List.map_cons, List.takeWhile_cons, List.takeWhile_cons, hpad]
      split
      · rw [List.filterMap_cons, List.filterMap_cons, hloose, ih fun c hc => hvalue c (List.mem_cons_of_mem _ hc)]
      · rfl
  exact congrArg looseGroups hdigits

theorem decodeLoose_of_decodeUrl (h : decodeUrl cs = some bs) : decodeLoose cs = bs := by
  rw [← decodeLoose_ofUrl (digits_of_decode h)]
  exact decodeLoose_of_decode h

theorem decodeLoose_of_decodeRawUrl (h : decodeRawUrl cs = some bs) : decodeLoose cs = bs := by
  rw [← decodeLoose_ofUrl (digits_of_decodeRaw h)]
  exact decodeLoose_of_decodeRaw h

/-- The reader of a spelling. -/
def Spelling.decode (s : Spelling) : List Char → Option Bytes :=
  if s.url then if s.padded then decodeUrl else decodeRawUrl
  else if s.padded then Base64.decode else decodeRaw

theorem decode_spell (s : Spelling) (bs : Bytes) : s.decode (spell s bs) = some bs := by
  have hraw : ∀ c ∈ encodeRaw bs, (value c).isSome ∨ c = '=' := fun c hc =>
    digits_encode bs c (List.mem_filter.1 hc).1
  obtain ⟨url, padded⟩ := s
  cases url with
  | false =>
    cases padded with
    | false => simpa [Spelling.decode, spell] using decodeRaw_encodeRaw bs
    | true => simpa [Spelling.decode, spell] using decode_encode bs
  | true =>
    cases padded with
    | false =>
      change decodeRaw (((encodeRaw bs).map toUrl).map ofUrl) = some bs
      rw [map_ofUrl_toUrl hraw, decodeRaw_encodeRaw]
    | true =>
      change Base64.decode (((encode bs).map toUrl).map ofUrl) = some bs
      rw [map_ofUrl_toUrl (digits_encode bs), decode_encode]

theorem decodeLoose_of_spelling {s : Spelling} (h : s.decode cs = some bs) : decodeLoose cs = bs := by
  obtain ⟨url, padded⟩ := s
  cases url with
  | false =>
    cases padded with
    | false => exact decodeLoose_of_decodeRaw h
    | true => exact decodeLoose_of_decode h
  | true =>
    cases padded with
    | false => exact decodeLoose_of_decodeRawUrl h
    | true => exact decodeLoose_of_decodeUrl h

/-- **A spelling is read in one way.** What any of the four readers takes it for is what was written. -/
theorem eq_of_decode_spell {s s' : Spelling} {bs' : Bytes} (h : s'.decode (spell s bs) = some bs') : bs' = bs :=
  (decodeLoose_of_spelling h).symm.trans (decodeLoose_of_spelling (decode_spell s bs))

end BookingSystem.Base.Base64
