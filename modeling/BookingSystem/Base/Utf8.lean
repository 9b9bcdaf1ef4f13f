import Mathlib.Data.List.Basic

/-!
# Texts from bytes

A reader of UTF-8 that never fails: a sequence that is cut off or broken becomes one replacement character. What was
written as UTF-8 is read back (`decodeLossy_encode`), and a text without replacement characters says what the bytes were
(`encode_decodeLossy`).
-/

namespace BookingSystem.Base.Utf8

def encode (cs : List Char) : List UInt8 := cs.flatMap String.utf8EncodeChar

def replacement : Char := Char.ofNat 0xFFFD

def readChar (bs : List UInt8) : Option Char := bs.toByteArray.utf8DecodeChar? 0

/-- The second byte fits the first one, in a sequence of three bytes or four. -/
def fits (b c : UInt8) : Bool :=
  (b == 0xE0 && 0xA0 ≤ c && c ≤ 0xBF) || (0xE1 ≤ b && b ≤ 0xEF && b != 0xED && 0x80 ≤ c && c ≤ 0xBF) ||
    (b == 0xED && 0x80 ≤ c && c ≤ 0x9F) || (b == 0xF0 && 0x90 ≤ c && c ≤ 0xBF) ||
    (0xF1 ≤ b && b ≤ 0xF3 && 0x80 ≤ c && c ≤ 0xBF) || (b == 0xF4 && 0x80 ≤ c && c ≤ 0x8F)

/-- How far a broken sequence reaches: as long as some character could begin in this way. -/
def brokenLength : List UInt8 → ℕ
  | b :: c :: d :: _ => if fits b c then if 0xF0 ≤ b && 0x80 ≤ d && d ≤ 0xBF then 3 else 2 else 1
  | [b, c] => if fits b c then 2 else 1
  | _ => 1

def decodeLossy : List UInt8 → List Char
  | [] => []
  | b :: rest =>
    match readChar (b :: rest) with
    | some c => c :: decodeLossy (rest.drop (c.utf8Size - 1))
    | none => replacement :: decodeLossy (rest.drop (brokenLength (b :: rest) - 1))
termination_by bs => bs.length

theorem readChar_encode (c : Char) (bs : List UInt8) : readChar (String.utf8EncodeChar c ++ bs) = some c := by
  rw [readChar, List.toByteArray_append]
  exact ByteArray.utf8DecodeChar?_utf8EncodeChar_append

theorem eq_of_readChar {bs : List UInt8} {c : Char} (h : readChar bs = some c) :
    bs = String.utf8EncodeChar c ++ bs.drop c.utf8Size := by
  obtain ⟨l, hl⟩ := ByteArray.exists_of_utf8DecodeChar?_eq_some h
  have hbs : bs = String.utf8EncodeChar c ++ l.data.toList := by
    simpa using congrArg (fun b => b.data.toList) hl
  have hlength : c.utf8Size = (String.utf8EncodeChar c).length := (String.length_utf8EncodeChar c).symm
  rw [hbs, hlength, List.drop_left]

theorem encode_cons_drop {b : UInt8} {rest : List UInt8} {c : Char} (h : readChar (b :: rest) = some c) :
    b :: rest = String.utf8EncodeChar c ++ rest.drop (c.utf8Size - 1) := by
  have hdrop : (b :: rest).drop c.utf8Size = rest.drop (c.utf8Size - 1) := by
    rw [← Nat.sub_add_cancel c.utf8Size_pos, List.drop_succ_cons, Nat.add_sub_cancel]
  rw [← hdrop]
  exact eq_of_readChar h

theorem decodeLossy_append (c : Char) (bs : List UInt8) :
    decodeLossy (String.utf8EncodeChar c ++ bs) = c :: decodeLossy bs := by
  have hread := readChar_encode c bs
  cases hbytes : String.utf8EncodeChar c ++ bs with
  | nil => exact absurd (List.append_eq_nil_iff.1 hbytes).1 String.utf8EncodeChar_ne_nil
  | cons b rest =>
    rw [hbytes] at hread
    have hrest : rest.drop (c.utf8Size - 1) = bs :=
      List.append_cancel_left ((encode_cons_drop hread).symm.trans hbytes.symm)
    simp only [decodeLossy, hread, hrest]

/-- **Round trip.** -/
theorem decodeLossy_encode (cs : List Char) : decodeLossy (encode cs) = cs := by
  induction cs with
  | nil => simp [encode, decodeLossy]
  | cons c cs ih =>
    rw [encode, List.flatMap_cons, decodeLossy_append]
    exact congrArg (c :: ·) ih

/-- **Nothing else is read as a text without replacement characters.** -/
theorem encode_decodeLossy {bs : List UInt8} (h : replacement ∉ decodeLossy bs) : encode (decodeLossy bs) = bs := by
  fun_induction decodeLossy bs with
  | case1 => rfl
  | case2 b rest c hread ih =>
    rw [encode, List.flatMap_cons]
    change String.utf8EncodeChar c ++ encode _ = b :: rest
    rw [ih fun hmem => h (List.mem_cons_of_mem _ hmem), ← encode_cons_drop hread]
  | case3 => exact absurd List.mem_cons_self h

theorem encode_injective {cs cs' : List Char} (h : encode cs = encode cs') : cs = cs' := by
  rw [← decodeLossy_encode cs, h, decodeLossy_encode]

/-! ### Texts of ASCII -/

theorem utf8EncodeChar_of_lt {c : Char} (h : c.toNat < 128) : String.utf8EncodeChar c = [UInt8.ofNat c.toNat] := by
  have hle : c.val.toNat ≤ 0x7f := Nat.lt_succ_iff.1 h
  unfold String.utf8EncodeChar
  exact if_pos hle

theorem exists_byte_ge {c : Char} (h : ¬ c.toNat < 128) : ∃ b ∈ String.utf8EncodeChar c, 128 ≤ b.toNat := by
  have hgt : ¬ c.val.toNat ≤ 0x7f := fun hle => h (Nat.lt_succ_iff.2 hle)
  unfold String.utf8EncodeChar
  dsimp only
  rw [if_neg hgt]
  split
  · exact ⟨_, List.mem_cons_self, by rw [UInt8.toNat_ofNat']; omega⟩
  · split
    · exact ⟨_, List.mem_cons_self, by rw [UInt8.toNat_ofNat']; omega⟩
    · exact ⟨_, List.mem_cons_self, by rw [UInt8.toNat_ofNat']; omega⟩

/-- The characters of a text, one for each byte where they are all below 128: `toList` reads the bytes one sequence
after another, which takes a computation in a proof much longer. -/
def chars (s : String) : List Char :=
  let bytes := s.toByteArray.data.toList
  if bytes.all fun b => b < 128 then bytes.map fun b => Char.ofNat b.toNat else s.toList

theorem map_encode {cs : List Char} (h : ∀ b ∈ encode cs, b < 128) :
    (encode cs).map (fun b => Char.ofNat b.toNat) = cs := by
  induction cs with
  | nil => rfl
  | cons c cs ih =>
    rw [encode, List.flatMap_cons] at h ⊢
    have hc : c.toNat < 128 := by
      by_contra hge
      obtain ⟨b, hb, hle⟩ := exists_byte_ge hge
      have hlt : b.toNat < 128 := UInt8.lt_iff_toNat_lt.1 (h b (List.mem_append_left _ hb))
      omega
    rw [utf8EncodeChar_of_lt hc, List.map_append]
    have hbyte : (UInt8.ofNat c.toNat).toNat = c.toNat := by
      rw [UInt8.toNat_ofNat']
      omega
    simp only [List.map_cons, List.map_nil, hbyte, Char.ofNat_toNat, List.singleton_append, List.cons.injEq, true_and]
    exact ih fun b hb => h b (List.mem_append_right _ hb)

theorem toList_eq_chars (s : String) : s.toList = chars s := by
  unfold chars
  have hbytes : s.toByteArray.data.toList = encode s.toList := by
    rw [← String.utf8Encode_toList]
    simp [List.utf8Encode, encode]
  dsimp only
  rw [hbytes]
  split
  · rename_i hall
    refine (map_encode fun b hb => ?_).symm
    simpa using List.all_eq_true.1 hall b hb
  · rfl

end BookingSystem.Base.Utf8
