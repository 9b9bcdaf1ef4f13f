import BookingSystem.Base.Utf8
import BookingSystem.Service.Secrets

/-!
# Sealed credentials of the Node service

The class `CredentialService`, with the envelope of the package `integration`. The service has one key, which it reads
from `INTEGRATION_SECRET_KEY` when it starts, and opens envelopes of every version with it.
-/

namespace BookingSystem.Service.Credentials

open Base Base.Base64
open Service.Secrets (Key Environ getenv Gcm Nonce envelope newCipher utf8 xorWith)

abbrev Drawn := { b : Bytes // b.length = 32 }

def isHex (c : Char) : Bool := (hexValue c).isSome

/-- `loadKey`. A variable that is not set is empty; no letters but ASCII letters have the lower case `true`. -/
def loadKey (env : Environ) (fresh : Drawn) : Except String Key :=
  let raw := getenv env "INTEGRATION_SECRET_KEY"
  if raw ≠ "" then
    let decoded := decodeLoose raw.toList
    if decoded.length = 32 then .ok decoded
    else if raw.toList.length = 64 ∧ raw.toList.all isHex then .ok ((decodeHex raw.toList).getD [])
    else .error "INTEGRATION_SECRET_KEY must be base64- or hex-encoded 32 bytes"
  else if (getenv env "ALLOW_DEV_INTEGRATION_EPHEMERAL").toLower = "true" ∨ getenv env "NODE_ENV" = "test" then
    .ok fresh
  else .error "INTEGRATION_SECRET_KEY is required (set ALLOW_DEV_INTEGRATION_EPHEMERAL=true for local dev)"

def toText (bs : Bytes) : String := String.ofList (Utf8.decodeLossy bs)

section

variable (g : Gcm) (key : Key)

/-- `obfuscate`: the ciphertext with its tag is what `Seal` gives. -/
def obfuscate (nonce : Nonce) (plaintext : String) : String :=
  if plaintext = "" then ""
  else "enc:" ++ "v1" ++ ":" ++ String.ofList (encode (nonce.1 ++ g.gcmSeal key nonce.1 (utf8 plaintext)))

/-- The branch of `reveal` for envelopes, after the colon. -/
def revealEnvelope (b64 : List Char) : Except String String := do
  let raw := decodeLoose b64
  require (12 + 16 ≤ raw.length) "ciphertext too short"
  let nonce := raw.take 12
  let tag := raw.drop (raw.length - 16)
  let ct := (raw.take (raw.length - 16)).drop 12
  require (tag.length == 16) "invalid auth tag length"
  let pt ← found (g.gcmOpen key nonce (ct ++ tag)) "Unsupported state or unable to authenticate data"
  pure (toText pt)

def reveal (stored : String) : Except String String :=
  if stored = "" then .ok ""
  else
    match "enc:".toList.isPrefixOf? stored.toList with
    | some rest =>
      if ':' ∈ rest then revealEnvelope g key ((rest.dropWhile (· != ':')).drop 1) else .error "malformed enc envelope"
    | none =>
      match "obf:".toList.isPrefixOf? stored.toList with
      | some b64 => .ok (toText (xorWith key (decodeLoose b64)))
      | none => .ok stored

end

/-! ### Texts and their bytes -/

theorem utf8_eq (s : String) : utf8 s = Utf8.encode s.toList := by
  have hbytes : s.toUTF8 = (s.toList.flatMap String.utf8EncodeChar).toByteArray :=
    String.utf8Encode_toList.symm
  rw [utf8, hbytes, List.data_toByteArray, List.toList_toArray, Utf8.encode]

theorem toText_utf8 (s : String) : toText (utf8 s) = s := by
  rw [toText, utf8_eq, Utf8.decodeLossy_encode, String.ofList_toList]

theorem utf8_injective {s t : String} (h : utf8 s = utf8 t) : s = t := by
  rw [← toText_utf8 s, h, toText_utf8]

theorem utf8_ne_nil {s : String} (h : s ≠ "") : utf8 s ≠ [] := fun hnil => h (utf8_injective hnil)

theorem utf8_toText {bs : Bytes} (h : Utf8.replacement ∉ (toText bs).toList) : utf8 (toText bs) = bs := by
  rw [toText, String.toList_ofList] at h
  rw [utf8_eq, toText, String.toList_ofList, Utf8.encode_decodeLossy h]

/-! ### The key -/

theorem exists_decodeHex {cs : List Char} (h : cs.length % 2 = 0) (hhex : cs.all isHex = true) :
    ∃ bs, decodeHex cs = some bs := by
  fun_induction decodeHex cs with
  | case1 => exact ⟨[], rfl⟩
  | case2 => cases h
  | case3 c d rest ih =>
    simp only [List.all_cons, Bool.and_eq_true] at hhex
    obtain ⟨hc, hd, hrest⟩ := hhex
    simp only [List.length_cons] at h
    obtain ⟨m, hm⟩ := Option.isSome_iff_exists.1 hc
    obtain ⟨n, hn⟩ := Option.isSome_iff_exists.1 hd
    obtain ⟨bs, hbs⟩ := ih (by omega) hrest
    exact ⟨UInt8.ofNat (m * 16 + n) :: bs, by simp [hm, hn, hbs]⟩

theorem length_of_loadKey {env : Environ} {fresh : Drawn} {k : Key} (h : loadKey env fresh = .ok k) :
    k.length = 32 := by
  unfold loadKey at h
  dsimp only at h
  split at h
  · split at h
    · rename_i hlength
      cases h
      exact hlength
    · split at h
      · rename_i hhex
        cases h
        obtain ⟨bs, hbs⟩ := exists_decodeHex (by rw [hhex.1]) hhex.2
        have hlength := length_decodeHex hbs
        rw [hbs, Option.getD_some]
        omega
      · cases h
  · split at h
    · cases h
      exact fresh.2
    · cases h

theorem newCipher_of_loadKey {env : Environ} {fresh : Drawn} {k : Key} (h : loadKey env fresh = .ok k) :
    newCipher k = .ok () :=
  require_of (by rw [length_of_loadKey h]; rfl)

/-! ### Envelopes -/

/-- `Seal` appends a tag of 16 bytes. -/
def Tagged (g : Gcm) : Prop := ∀ k n p, (g.gcmSeal k n p).length = p.length + 16

theorem obfuscate_eq (g : Gcm) (k : Key) (nonce : Nonce) {p : String} (h : p ≠ "") :
    obfuscate g k nonce p = envelope g k "v1" nonce (utf8 p) := if_neg h

section

variable {g : Gcm} {k a : Key} {version : String} {nonce : Nonce} {p : Bytes}

/-- The parts of a sealed text are what `Seal` put together. -/
theorem revealEnvelope_encode (ct : Bytes) (hct : 16 ≤ ct.length) : revealEnvelope g k (encode (nonce.1 ++ ct)) =
    (found (g.gcmOpen k nonce.1 ct) "Unsupported state or unable to authenticate data").map toText := by
  have hraw : decodeLoose (encode (nonce.1 ++ ct)) = nonce.1 ++ ct := decodeLoose_of_decode (decode_encode _)
  have hnonce := nonce.2
  have hlength : (nonce.1 ++ ct).length = 12 + ct.length := by rw [List.length_append, hnonce]
  have htake : (nonce.1 ++ ct).take 12 = nonce.1 := by
    rw [List.take_append_of_le_length hnonce.ge, List.take_of_length_le hnonce.le]
  -- the ciphertext and the tag are next to each other
  have hdrop : (((nonce.1 ++ ct).take ((nonce.1 ++ ct).length - 16)).drop 12) ++
      (nonce.1 ++ ct).drop ((nonce.1 ++ ct).length - 16) = ct := by
    have hsplit := List.take_append_drop ((nonce.1 ++ ct).length - 16) (nonce.1 ++ ct)
    have hfront : 12 ≤ ((nonce.1 ++ ct).take ((nonce.1 ++ ct).length - 16)).length := by
      rw [List.length_take]
      omega
    rw [← List.drop_append_of_le_length hfront, hsplit, List.drop_append_of_le_length hnonce.ge,
      List.drop_of_length_le hnonce.le, List.nil_append]
  have htag : ((nonce.1 ++ ct).drop ((nonce.1 ++ ct).length - 16)).length = 16 := by
    rw [List.length_drop]
    omega
  have hshort : decide (12 + 16 ≤ (nonce.1 ++ ct).length) = true := decide_eq_true (by omega)
  simp only [revealEnvelope, hraw, htake, hdrop, htag, hshort, require, if_true, bind, Except.bind, beq_self_eq_true]
  cases g.gcmOpen k nonce.1 ct <;> rfl

theorem reveal_envelope (htag : Tagged g) (hversion : ':' ∉ version.toList) :
    reveal g k (envelope g a version nonce p) =
      (found (g.gcmOpen k nonce.1 (g.gcmSeal a nonce.1 p))
        "Unsupported state or unable to authenticate data").map toText := by
  have hcolon : ∀ c ∈ version.toList, (c != ':') = true := by
    intro c hc
    simpa using fun h : c = ':' => hversion (h ▸ hc)
  rw [reveal, if_neg Secrets.envelope_ne_empty, Secrets.toList_envelope, Secrets.isPrefixOf?_append]
  dsimp only
  rw [if_pos (by simp), List.dropWhile_append_of_pos hcolon]
  have hct : 16 ≤ (g.gcmSeal a nonce.1 p).length := by
    rw [htag]
    omega
  have hopen : revealEnvelope g k (encode (nonce.1 ++ g.gcmSeal a nonce.1 p)) = _ := revealEnvelope_encode _ hct
  simpa using hopen

end

end BookingSystem.Service.Credentials
