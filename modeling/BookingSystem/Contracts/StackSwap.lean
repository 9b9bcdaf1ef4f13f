import BookingSystem.Runs.KeyRotation
import BookingSystem.Service.Credentials

/-!
# Credentials across the two services

A process of the Go service and the Node service with one environment. The Node service reads what the Go process can
read, and the other way round, exactly when the Go process seals under the key of the Node service, finds that key for
the version `v1`, and unwraps the old records as with that key (`swap_iff`). This holds with the legacy key alone in one
of its usual spellings (`shared_of_legacy`), and fails once a key of another version is active, because the Node service
does not look at the version.
-/

namespace BookingSystem.Contracts.StackSwap

open Base Base.Base64 Service Service.Secrets
open Service.Credentials (Drawn loadKey Tagged toText isHex)

/-- The records that the table can have: what a Go process with the environment wrote, the old XOR records, and texts
that were never sealed. -/
inductive Stored (f : Cases) (g : Gcm) (env : Environ) : String → Prop
  | sealed {drawn : Bytes} {process : Process} {nonce : Nonce} {plaintext : Bytes} {stored : String} :
    boot f env drawn = .ok process → obfuscate g process nonce plaintext = .ok stored → Stored f g env stored
  | xored (b64 : String) : Stored f g env ("obf:" ++ b64)
  | plain {stored : String} : "enc:".toList.isPrefixOf? stored.toList = none →
    "obf:".toList.isPrefixOf? stored.toList = none → Stored f g env stored

/-- **The swap**: a text that the Go process reads in a record the Node service reads as well, and every text that the
Node service seals the Go process reads. -/
structure Swaps (f : Cases) (g : Gcm) (env : Environ) (process : Process) (k : Key) : Prop where
  revealed : ∀ stored s, Stored f g env stored → Secrets.reveal f g process stored = .ok (utf8 s) →
    Credentials.reveal g k stored = .ok s
  back : ∀ s nonce, Secrets.reveal f g process (Credentials.obfuscate g k nonce s) = .ok (utf8 s)

/-- The Go process has the key for `v1` and as its active key, unless no envelope of that key could be read, and its
legacy key does to a record what the key does. -/
structure Shared (process : Process) (k : Key) : Prop where
  first : (process.kmsProvider.bind fun ring => ring.keys.lookup "v1").or process.secretKey = some k
  active : ∀ ring ∈ process.kmsProvider, ∀ a, ring.keys.lookup ring.active = some a → a.length ∈ [16, 24, 32] →
    ':' ∉ ring.active.toList → a = k
  legacy : ∀ sk ∈ process.secretKey, ∀ i, sk.getD (i % sk.length) 0 = k.getD (i % k.length) 0

/-- A text that was sealed under one key is refused under another one, with some nonce at least. -/
def Separates (g : Gcm) : Prop := ∀ k k' p, newCipher k = .ok () → newCipher k' = .ok () → k ≠ k' → p ≠ [] →
  ∃ nonce : Nonce, g.gcmOpen k' nonce.1 (g.gcmSeal k nonce.1 p) = none

/-! ### The processes of an environment -/

section

variable {f : Cases} {g : Gcm} {env : Environ} {drawn drawn' : Bytes} {process process' : Process} {k a : Key}
  {ring : KeyRing} {version : String}

/-- Whatever random bytes are drawn, the provider is the same. -/
theorem kmsProvider_of_boot (h : boot f env drawn = .ok process) (h' : boot f env drawn' = .ok process') :
    process.kmsProvider = process'.kmsProvider := by
  obtain ⟨sk, hsk, h⟩ := bind_eq_ok.1 h
  obtain ⟨kms, hkms, h⟩ := bind_eq_ok.1 h
  obtain rfl := pure_eq_ok.1 h
  obtain ⟨sk', hsk', h'⟩ := bind_eq_ok.1 h'
  obtain ⟨kms', hkms', h'⟩ := bind_eq_ok.1 h'
  obtain rfl := pure_eq_ok.1 h'
  have hsome : sk.isSome = sk'.isSome := by
    unfold loadLegacySecretKey at hsk hsk'
    dsimp only at hsk hsk'
    split at hsk
    · rename_i hset
      rw [if_pos hset, hsk] at hsk'
      rw [Except.ok.inj hsk']
    · rename_i hunset
      rw [if_neg hunset] at hsk'
      split at hsk
      · rename_i hdraw
        rw [if_pos hdraw] at hsk'
        cases hsk
        cases hsk'
        rfl
      · rename_i hdraw
        rw [if_neg hdraw] at hsk'
        cases hsk
        cases hsk'
        rfl
  unfold loadKMSProvider at hkms hkms'
  rw [hsome] at hkms
  exact Except.ok.inj (hkms.symm.trans hkms')

/-- The provider comes from `load`, and without it there is a legacy key. -/
theorem of_boot (h : boot f env drawn = .ok process) :
    (∀ ring ∈ process.kmsProvider, load f env = .ok ring) ∧
      (process.kmsProvider = none → process.secretKey.isSome) := by
  obtain ⟨sk, -, h⟩ := bind_eq_ok.1 h
  obtain ⟨kms, hkms, h⟩ := bind_eq_ok.1 h
  obtain rfl := pure_eq_ok.1 h
  unfold loadKMSProvider at hkms
  split at hkms
  · rename_i hlegacy
    cases hkms
    exact ⟨nofun, fun _ => hlegacy.2⟩
  · split at hkms
    · rename_i ring hring
      cases hkms
      refine ⟨fun ring' hring' => ?_, nofun⟩
      obtain rfl := Option.mem_some.1 hring'
      unfold newProvider at hring
      generalize (if providerName f env = "" then "env" else providerName f env) = name at hring
      dsimp only at hring
      split at hring
      · exact hring
      · split at hring <;> cases hring
    · split at hkms
      · rename_i hsome
        cases hkms
        exact ⟨nofun, fun _ => hsome⟩
      · cases hkms

theorem toLower_active (hf : f.Sound) (h : load f env = .ok ring) :
    f.toLower ring.active = ring.active ∧ ring.active ≠ "" := by
  obtain ⟨legacy, -, h⟩ := bind_eq_ok.1 h
  obtain ⟨keys, -, h⟩ := bind_eq_ok.1 h
  dsimp only at h
  generalize hactive : (if activeVersion f env ≠ "" then activeVersion f env else if legacy = [] then "" else "v1") =
    active at h
  split at h
  · cases h
  · split at h
    · cases h
    · rename_i hne
      cases h
      rw [not_or] at hne
      refine ⟨?_, hne.1⟩
      dsimp only
      rw [← hactive]
      split
      · exact hf.toLower_toLower _
      · split
        · rename_i hnone hempty
          exact absurd (hactive.symm.trans (by rw [if_neg hnone, if_pos hempty])) hne.1
        · exact hf.toLower_v1

theorem keyForVersion_v1 (hf : f.Sound) : keyForVersion f process "v1" = .ok k ↔
    (process.kmsProvider.bind fun ring => ring.keys.lookup "v1").or process.secretKey = some k := by
  rw [keyForVersion, if_neg (by decide)]
  cases process.kmsProvider with
  | none => simp
  | some ring =>
    dsimp only
    rw [hf.toLower_v1]
    cases hlookup : ring.keys.lookup "v1" <;> simp [hlookup]

theorem active_of_process (hactive : activeKey process = .ok (a, version)) (hsize : newCipher a = .ok ()) :
    (process.kmsProvider = none ∧ process.secretKey = some a ∧ version = "v1") ∨
      ∃ ring ∈ process.kmsProvider, ring.keys.lookup ring.active = some a ∧ version = ring.active := by
  unfold activeKey at hactive
  split at hactive
  · rename_i ring hring
    cases hactive
    cases hlookup : ring.keys.lookup ring.active with
    | none =>
      rw [hlookup] at hsize
      cases hsize
    | some a => exact .inr ⟨ring, hring, hlookup, rfl⟩
  · rename_i hnone
    cases hsk : process.secretKey with
    | none =>
      rw [hsk] at hactive
      cases hactive
    | some sk =>
      rw [hsk] at hactive
      cases hactive
      exact .inl ⟨hnone, rfl, rfl⟩

theorem newCipher_iff : newCipher a = .ok () ↔ a.length ∈ [16, 24, 32] := by
  simp [newCipher, or_assoc]

theorem keyForVersion_active (hf : f.Sound) (hload : load f env = .ok ring) (hring : ring ∈ process.kmsProvider)
    (hlookup : ring.keys.lookup ring.active = some a) : keyForVersion f process ring.active = .ok a := by
  obtain ⟨hlower, hne⟩ := toLower_active hf hload
  rw [keyForVersion, if_neg hne, Option.mem_def.1 hring]
  dsimp only
  rw [hlower, hlookup]

theorem reveal_colon (hversion : ':' ∈ version.toList) {nonce : Nonce} {p bs : Bytes} :
    Secrets.reveal f g process (envelope g a version nonce p) ≠ .ok bs := by
  intro h
  rw [Secrets.reveal, if_neg envelope_ne_empty, toList_envelope, isPrefixOf?_append] at h
  dsimp only at h
  rw [if_pos (by simp)] at h
  obtain ⟨raw, hraw, -⟩ := bind_eq_ok.1 h
  rw [found_eq_ok] at hraw
  -- the second colon stands in what is taken for the base64 text
  obtain ⟨before, after, hsplit, hbefore⟩ := List.eq_append_cons_of_mem hversion
  have hcolon : ∀ c ∈ before, (c != ':') = true := by
    intro c hc
    simpa using fun heq : c = ':' => hbefore (heq ▸ hc)
  rw [hsplit, List.append_assoc, List.dropWhile_append_of_pos hcolon] at hraw
  obtain hbreak | hvalue | hpad := digits_of_decode hraw ':' (by simp)
  · cases hbreak
  · cases hvalue
  · cases hpad

/-! ### The old records -/

theorem length_xorWith (k : Key) (raw : Bytes) : (xorWith k raw).length = raw.length := by
  rw [xorWith, List.length_mapIdx]

theorem xorWith_congr (h : ∀ i, a.getD (i % a.length) 0 = k.getD (i % k.length) 0) (raw : Bytes) :
    xorWith a raw = xorWith k raw := by
  simp only [xorWith, h]

theorem xorWith_xorWith (k : Key) (raw : Bytes) : xorWith k (xorWith k raw) = raw := by
  refine List.ext_getElem (by rw [length_xorWith, length_xorWith]) fun i hi hi' => ?_
  simp only [xorWith, List.getElem_mapIdx]
  rw [UInt8.xor_assoc, UInt8.xor_self, UInt8.xor_zero]

theorem getD_of_xorWith {raw : Bytes} (h : xorWith a raw = xorWith k raw) {i : ℕ} (hi : i < raw.length) :
    a.getD (i % a.length) 0 = k.getD (i % k.length) 0 := by
  have hbyte := congrArg (fun bs : Bytes => bs.getD i 0) h
  simp only [xorWith, List.getD_eq_getElem?_getD, List.getElem?_mapIdx, List.getElem?_eq_getElem hi, Option.map_some,
    Option.getD_some] at hbyte ⊢
  exact (UInt8.xor_right_inj _).1 hbyte

theorem reveal_xored (b64 : String) : Secrets.reveal f g process ("obf:" ++ b64) = decryptXORLegacy process b64.toList ∧
    Credentials.reveal g k ("obf:" ++ b64) = .ok (toText (xorWith k (decodeLoose b64.toList))) := by
  have hlist : ("obf:" ++ b64).toList = "obf:".toList ++ b64.toList := String.toList_append
  have hne : "obf:" ++ b64 ≠ "" := by
    intro h
    have hempty := congrArg String.toList h
    rw [hlist] at hempty
    simp at hempty
  have hother : "enc:".toList.isPrefixOf? ("obf:".toList ++ b64.toList) = none := rfl
  refine ⟨?_, ?_⟩
  · rw [Secrets.reveal, if_neg hne, hlist, hother, isPrefixOf?_append]
  · rw [Credentials.reveal, if_neg hne, hlist, hother, isPrefixOf?_append]

theorem reveal_plain {stored : String} (henc : "enc:".toList.isPrefixOf? stored.toList = none)
    (hobf : "obf:".toList.isPrefixOf? stored.toList = none) :
    Secrets.reveal f g process stored = .ok (utf8 stored) ∧ Credentials.reveal g k stored = .ok stored := by
  refine ⟨?_, ?_⟩
  · rw [Secrets.reveal, henc, hobf]
    split
    · rename_i hempty
      rw [hempty]
      rfl
    · rfl
  · rw [Credentials.reveal, henc, hobf]
    split
    · rename_i hempty
      rw [hempty]
    · rfl

/-! ### Keys in common -/

theorem revealed_of_shared (hf : f.Sound) (htag : Tagged g) (h : boot f env drawn = .ok process)
    (hsize : newCipher k = .ok ()) (hshared : Shared process k) {stored s : String} (hstored : Stored f g env stored)
    (hreveal : Secrets.reveal f g process stored = .ok (utf8 s)) : Credentials.reveal g k stored = .ok s := by
  cases hstored with
  | @sealed drawn' process' nonce plaintext _ hboot hobf =>
    by_cases hempty : plaintext = []
    · rw [obfuscate, if_pos hempty] at hobf
      cases hobf
      obtain rfl : "" = s := Credentials.utf8_injective (Except.ok.inj hreveal)
      rfl
    · obtain ⟨a, version, hactive, hasize, rfl⟩ := obfuscate_ok hobf hempty
      by_cases hversion : ':' ∈ version.toList
      · exact absurd hreveal (reveal_colon hversion)
      · -- the process finds `k` for the version of the record
        have hkey : keyForVersion f process version = .ok k := by
          have hsame := kmsProvider_of_boot h hboot
          obtain ⟨hnone, -, rfl⟩ | ⟨ring, hring, hlookup, rfl⟩ := active_of_process hactive hasize
          · exact (keyForVersion_v1 hf).2 hshared.first
          · rw [← hsame] at hring
            obtain rfl := hshared.active ring hring a hlookup (newCipher_iff.1 hasize) hversion
            exact keyForVersion_active hf ((of_boot h).1 ring hring) hring hlookup
        rw [Secrets.reveal_envelope hversion, decryptGCM_encode hkey hsize, found_eq_ok] at hreveal
        rw [Credentials.reveal_envelope htag hversion, hreveal]
        exact congrArg Except.ok (Credentials.toText_utf8 s)
  | xored b64 =>
    rw [(reveal_xored (k := k) b64).1] at hreveal
    obtain ⟨sk, hsk, hreveal⟩ := bind_eq_ok.1 hreveal
    obtain ⟨raw, hraw, hreveal⟩ := bind_eq_ok.1 hreveal
    rw [found_eq_ok] at hsk hraw
    rw [(@reveal_xored f g process k b64).2, decodeLoose_of_decode hraw,
      ← xorWith_congr (hshared.legacy sk hsk), pure_eq_ok.1 hreveal]
    exact congrArg Except.ok (Credentials.toText_utf8 s)
  | plain henc hobf =>
    rw [(reveal_plain (k := k) henc hobf).1] at hreveal
    obtain rfl := Credentials.utf8_injective (Except.ok.inj hreveal)
    exact (@reveal_plain f g process k _ henc hobf).2

theorem back_of_shared (hf : f.Sound) (hg : g.Opens) (hsize : newCipher k = .ok ()) (hshared : Shared process k)
    (s : String) (nonce : Nonce) :
    Secrets.reveal f g process (Credentials.obfuscate g k nonce s) = .ok (utf8 s) := by
  by_cases hempty : s = ""
  · subst hempty
    rfl
  · rw [Credentials.obfuscate_eq g k nonce hempty, Secrets.reveal_envelope (by decide),
      decryptGCM_encode ((keyForVersion_v1 hf).2 hshared.first) hsize, hg]
    rfl

end

/-! ### What the swap needs -/

section

variable {f : Cases} {g : Gcm} {env : Environ} {drawn : Bytes} {process : Process} {k : Key}

theorem utf8_letter : utf8 "a" ≠ [] := Credentials.utf8_ne_nil (by decide)

theorem first_of_swaps (hf : f.Sound) (hsep : Separates g) (hsize : newCipher k = .ok ())
    (hswaps : Swaps f g env process k) :
    (process.kmsProvider.bind fun ring => ring.keys.lookup "v1").or process.secretKey = some k := by
  have hback : ∀ nonce : Nonce, decryptGCM f g process "v1"
      (encode (nonce.1 ++ g.gcmSeal k nonce.1 (utf8 "a"))) = .ok (utf8 "a") := by
    intro nonce
    have h := hswaps.back "a" nonce
    rwa [Credentials.obfuscate_eq g k nonce (by decide), Secrets.reveal_envelope (by decide)] at h
  obtain ⟨raw, -, h⟩ := bind_eq_ok.1 (hback ⟨List.replicate 12 0, rfl⟩)
  obtain ⟨k', hk', h⟩ := bind_eq_ok.1 h
  obtain ⟨u, hsize', -⟩ := bind_eq_ok.1 h
  rw [← keyForVersion_v1 hf, hk']
  by_contra hne
  obtain ⟨nonce, hnone⟩ := hsep k k' (utf8 "a") hsize hsize' (fun heq => hne (by rw [heq])) utf8_letter
  have hopen := hback nonce
  rw [decryptGCM_encode hk' hsize', hnone] at hopen
  cases hopen

theorem active_of_swaps (hf : f.Sound) (hg : g.Opens) (htag : Tagged g) (hsep : Separates g)
    (h : boot f env drawn = .ok process) (hsize : newCipher k = .ok ()) (hswaps : Swaps f g env process k)
    {ring : KeyRing} (hring : ring ∈ process.kmsProvider) {a : Key} (hlookup : ring.keys.lookup ring.active = some a)
    (hasize : newCipher a = .ok ()) (hversion : ':' ∉ ring.active.toList) : a = k := by
  by_contra hne
  obtain ⟨nonce, hnone⟩ := hsep a k (utf8 "a") hasize hsize hne utf8_letter
  have hactive : activeKey process = .ok (a, ring.active) := by
    rw [activeKey, Option.mem_def.1 hring]
    dsimp only
    rw [hlookup, Option.getD_some]
  have hobf : obfuscate g process nonce (utf8 "a") = .ok (envelope g a ring.active nonce (utf8 "a")) := by
    rw [obfuscate, if_neg utf8_letter, hactive]
    simp only [bind, Except.bind, hasize, pure, Except.pure]
  have hgo : Secrets.reveal f g process (envelope g a ring.active nonce (utf8 "a")) = .ok (utf8 "a") := by
    rw [Secrets.reveal_envelope hversion,
      decryptGCM_encode (keyForVersion_active hf ((of_boot h).1 ring hring) hring hlookup) hasize, hg]
    rfl
  have hnode := hswaps.revealed _ _ (.sealed h hobf) hgo
  rw [Credentials.reveal_envelope htag hversion, hnone] at hnode
  cases hnode

theorem legacy_of_swaps (hswaps : Swaps f g env process k) {sk : Key} (hsk : sk ∈ process.secretKey) (i : ℕ) :
    sk.getD (i % sk.length) 0 = k.getD (i % k.length) 0 := by
  -- a record that the process reads as a row of one letter
  let letters : String := String.ofList (List.replicate (i + 1) 'a')
  have hlength : i < (utf8 letters).length := by
    rw [Credentials.utf8_eq, String.toList_ofList, Utf8.encode]
    have hletter : 'a'.utf8Size = 1 := rfl
    simp [List.length_flatMap, hletter]
  have hread : Secrets.reveal f g process ("obf:" ++ String.ofList (encode (xorWith sk (utf8 letters)))) =
      .ok (utf8 letters) := by
    rw [(reveal_xored (k := k) _).1, String.toList_ofList, decryptXORLegacy, Option.mem_def.1 hsk, decode_encode]
    exact congrArg Except.ok (xorWith_xorWith sk (utf8 letters))
  have hnode := hswaps.revealed _ _ (.xored _) hread
  rw [(@reveal_xored f g process k _).2, String.toList_ofList,
    decodeLoose_of_decode (decode_encode _), Except.ok.injEq] at hnode
  have hletters : Utf8.replacement ∉ (toText (xorWith k (xorWith sk (utf8 letters)))).toList := by
    rw [hnode, String.toList_ofList]
    intro hmem
    exact absurd (List.eq_of_mem_replicate hmem) (by decide)
  have hbytes := Credentials.utf8_toText hletters
  rw [hnode] at hbytes
  have hsame : xorWith sk (xorWith sk (utf8 letters)) = xorWith k (xorWith sk (utf8 letters)) := by
    rw [← hbytes, xorWith_xorWith]
  exact getD_of_xorWith hsame (by rwa [length_xorWith])

end

/-! ### The legacy key alone -/

/-- The usual spellings of a key: 32 bytes as base64, or 64 hexadecimal digits. -/
def Usual (v : String) : Prop :=
  (∃ k, decode v.toList = some k ∧ k.length = 32) ∨ (v.toList.length = 64 ∧ v.toList.all isHex = true)

theorem toNat_of_isHex {c : Char} (h : isHex c = true) : 48 ≤ c.toNat ∧ c.toNat ≤ 102 := by
  have hrange : ∀ {a b : Char}, a ≤ c → c ≤ b → a.toNat ≤ c.toNat ∧ c.toNat ≤ b.toNat := fun ha hb => ⟨ha, hb⟩
  unfold isHex hexValue at h
  split at h
  · rename_i hdigit
    obtain ⟨hlow, hhigh⟩ := hrange hdigit.1 hdigit.2
    exact ⟨hlow, hhigh.trans (by decide)⟩
  · split at h
    · rename_i hlower
      obtain ⟨hlow, hhigh⟩ := hrange hlower.1 hlower.2
      exact ⟨le_trans (by decide) hlow, hhigh⟩
    · split at h
      · rename_i hupper
        obtain ⟨hlow, hhigh⟩ := hrange hupper.1 hupper.2
        exact ⟨le_trans (by decide) hlow, hhigh.trans (by decide)⟩
      · cases h

theorem isSpace_of_isHex {c : Char} (h : isHex c = true) : isSpace c = false := by
  obtain ⟨hlow, hhigh⟩ := toNat_of_isHex h
  simp only [isSpace, Bool.or_eq_false_iff, Bool.and_eq_false_iff, decide_eq_false_iff_not, beq_eq_false_iff_ne]
  omega

theorem utf8ByteSize_of_isHex {v : String} (h : v.toList.all isHex = true) : v.utf8ByteSize = v.toList.length := by
  have hsize : ∀ cs : List Char, cs.all isHex = true → (Utf8.encode cs).length = cs.length := by
    intro cs hcs
    induction cs with
    | nil => rfl
    | cons c cs ih =>
      simp only [List.all_cons, Bool.and_eq_true] at hcs
      have hc : c.utf8Size = 1 := by
        rw [Char.utf8Size_eq_one_iff, UInt32.le_iff_toNat_le]
        exact (toNat_of_isHex hcs.1).2.trans (by decide)
      have hrest : (Utf8.encode cs).length = cs.length := ih hcs.2
      rw [Utf8.encode, List.flatMap_cons, List.length_append, String.length_utf8EncodeChar, hc]
      change 1 + (Utf8.encode cs).length = cs.length + 1
      rw [hrest, Nat.add_comm]
  rw [← hsize v.toList h, ← Credentials.utf8_eq]
  rfl

theorem hexString_of_isHex {cs : List Char} (h : cs.all isHex = true) (heven : cs.length % 2 = 0) :
    hexString cs = decodeHex cs := by
  fun_induction decodeHex cs with
  | case1 => rfl
  | case2 => cases heven
  | case3 c d rest ih =>
    simp only [List.all_cons, Bool.and_eq_true] at h
    obtain ⟨m, hm⟩ := Option.isSome_iff_exists.1 h.1
    obtain ⟨n, hn⟩ := Option.isSome_iff_exists.1 h.2.1
    simp only [List.length_cons] at heven
    rw [hexString, hm, hn]
    dsimp only
    rw [ih h.2.2 (by omega)]
    cases decodeHex rest <;> rfl

/-- Both services read the same key from a usual text. -/
theorem loadKey_of_usual {f : Cases} {env : Environ} {drawn : Bytes} {fresh : Drawn} {sk : Option Key} {k : Key}
    (husual : Usual (getenv env "INTEGRATION_SECRET_KEY")) (hsk : loadLegacySecretKey f env drawn = .ok sk)
    (hk : loadKey env fresh = .ok k) : sk = some k := by
  have hset : getenv env "INTEGRATION_SECRET_KEY" ≠ "" := by
    intro hunset
    rw [hunset] at husual
    obtain ⟨bs, hbs, hlength⟩ | ⟨hlength, -⟩ := husual
    · cases hbs
      cases hlength
    · cases hlength
  rw [loadLegacySecretKey, if_pos hset] at hsk
  rw [loadKey, if_pos hset] at hk
  generalize getenv env "INTEGRATION_SECRET_KEY" = v at *
  obtain ⟨bs, hbs, hlength⟩ | ⟨hlength, hhex⟩ := husual
  · have hsized : sized (some bs) = some bs := by rw [sized, Option.filter_some_pos (by simpa using hlength)]
    rw [hbs, hsized] at hsk
    rw [decodeLoose_of_decode hbs] at hk
    dsimp only at hk
    rw [if_pos hlength] at hk
    exact (Except.ok.inj hsk).symm.trans (congrArg some (Except.ok.inj hk))
  · -- as base64 the digits would be 48 bytes
    have hloose : (decodeLoose v.toList).length = 48 := by
      rw [length_decodeLoose_hex fun c hc => List.all_eq_true.1 hhex c hc, hlength]
    have hsized : sized (decode v.toList) = none := by
      cases hdecode : decode v.toList with
      | none => rfl
      | some bs =>
        rw [decodeLoose_of_decode hdecode] at hloose
        rw [sized, Option.filter_some_neg (by simp [hloose])]
    obtain ⟨bs, hbs⟩ := Credentials.exists_decodeHex (by rw [hlength]) hhex
    have hspace : ∀ c ∈ v.toList, isSpace c = false := fun c hc => isSpace_of_isHex (List.all_eq_true.1 hhex c hc)
    have hdrop : v.toList.dropWhile isSpace = v.toList ∧ v.toList.takeWhile isSpace = [] := by
      cases hcs : v.toList with
      | nil => exact ⟨rfl, rfl⟩
      | cons c cs =>
        have hc := hspace c (hcs ▸ List.mem_cons_self)
        simp [hc]
    have hne : bs.isEmpty = false := by
      have hbytes := length_decodeHex hbs
      cases bs with
      | nil => cases hlength.symm.trans hbytes
      | cons => rfl
    have hkey : hexKey v = some bs := by
      rw [hexKey, if_pos (by rw [utf8ByteSize_of_isHex hhex, hlength]), sscanfHex, hdrop.2, if_neg List.not_mem_nil,
        hdrop.1, hexString_of_isHex hhex (by rw [hlength]), hbs]
      simp [hne]
    rw [hsized, hkey] at hsk
    dsimp only at hk
    rw [if_neg (by omega), if_pos ⟨hlength, hhex⟩, hbs] at hk
    exact (Except.ok.inj hsk).symm.trans (congrArg some (Except.ok.inj hk))

/-- **The common case.** Without a provider, and with the legacy key in a usual spelling, the services share it. -/
theorem shared_of_legacy {f : Cases} {env : Environ} {drawn : Bytes} {fresh : Drawn} {process : Process} {k : Key}
    (hname : providerName f env = "") (husual : Usual (getenv env "INTEGRATION_SECRET_KEY"))
    (h : boot f env drawn = .ok process) (hk : loadKey env fresh = .ok k) : Shared process k := by
  obtain ⟨sk, hsk, h⟩ := bind_eq_ok.1 h
  obtain ⟨kms, hkms, h⟩ := bind_eq_ok.1 h
  obtain rfl := pure_eq_ok.1 h
  obtain rfl := loadKey_of_usual husual hsk hk
  rw [loadKMSProvider, if_pos ⟨hname, rfl⟩] at hkms
  cases hkms
  refine ⟨rfl, (fun _ hring => by cases hring), fun sk hsk i => ?_⟩
  rw [Option.mem_some.1 hsk]

/-! ### Keys that leave a mark -/

open Runs.KeyRotation (lowerCase sound_lowerCase oneKey twoKeys)

def mark (k : Key) (n : Bytes) : UInt8 := if n.headD 0 = 255 then UInt8.ofNat k.length else k.getD (n.headD 0).toNat 0

def marked : Gcm where
  gcmSeal k n p := p ++ List.replicate 16 (mark k n)
  gcmOpen k n c :=
    if c.drop (c.length - 16) = List.replicate 16 (mark k n) then some (c.take (c.length - 16)) else none

theorem gcmOpen_marked (k k' : Key) (n p : Bytes) : marked.gcmOpen k' n (marked.gcmSeal k n p) =
    if mark k n = mark k' n then some p else none := by
  have hlength : (p ++ List.replicate 16 (mark k n)).length - 16 = p.length := by simp
  simp only [marked, hlength, List.drop_left, List.take_left, List.replicate_inj]
  simp

theorem opens_marked : marked.Opens := fun k n p => by rw [gcmOpen_marked, if_pos rfl]

theorem tagged_marked : Tagged marked := fun k n p => by simp [marked]

theorem separates_marked : Separates marked := by
  intro k k' p hk hk' hne _
  by_contra hall
  have hmark : ∀ b : UInt8, mark k (b :: List.replicate 11 0) = mark k' (b :: List.replicate 11 0) := by
    intro b
    by_contra hapart
    exact hall ⟨⟨b :: List.replicate 11 0, rfl⟩, by rw [gcmOpen_marked, if_neg hapart]⟩
  have hlength : k.length = k'.length := by
    have hsizes : UInt8.ofNat k.length = UInt8.ofNat k'.length := hmark 255
    rw [newCipher_iff] at hk hk'
    simp only [List.mem_cons, List.not_mem_nil, or_false] at hk hk'
    obtain hk | hk | hk := hk <;> obtain hk' | hk' | hk' := hk' <;> rw [hk, hk'] at hsizes ⊢ <;> cases hsizes
  have hshort : k.length ≤ 32 := by
    rw [newCipher_iff] at hk
    simp only [List.mem_cons, List.not_mem_nil, or_false] at hk
    omega
  refine hne (List.ext_getElem hlength fun i hi hi' => ?_)
  have hbyte := hmark (UInt8.ofNat i)
  have hi8 : (UInt8.ofNat i).toNat = i := by
    rw [UInt8.toNat_ofNat']
    omega
  have hplace : UInt8.ofNat i ≠ 255 := by
    intro h
    have hi := hi8.symm.trans (congrArg UInt8.toNat h)
    have h255 : (255 : UInt8).toNat = 255 := rfl
    omega
  simpa [mark, hplace, hi8, hi, hi'] using hbyte

def fresh : Drawn := ⟨List.replicate 32 1, rfl⟩

/-! ### The swap -/

/-- **The swap.** For an environment with which both services start: the Node service reads every record as the Go
process does, and the Go process what the Node service seals, if and only if they have their keys in common. -/
theorem swap_iff (f : Cases) (hf : f.Sound) (g : Gcm) (hg : g.Opens) (htag : Tagged g) (hsep : Separates g)
    (env : Environ) (drawn : Bytes) (fresh : Drawn) (process : Process) (k : Key)
    (h : boot f env drawn = .ok process) (hk : loadKey env fresh = .ok k) :
    Swaps f g env process k ↔ Shared process k := by
  have hsize := Credentials.newCipher_of_loadKey hk
  refine ⟨fun hswaps => ⟨first_of_swaps hf hsep hsize hswaps, fun ring hring a hlookup hasize hversion => ?_,
    fun sk hsk i => legacy_of_swaps hswaps hsk i⟩, fun hshared => ⟨fun stored s hstored hreveal => ?_, ?_⟩⟩
  · exact active_of_swaps hf hg htag hsep h hsize hswaps hring hlookup (newCipher_iff.2 hasize) hversion
  · exact revealed_of_shared hf htag h hsize hshared hstored hreveal
  · exact back_of_shared hf hg hsize hshared

theorem swap_iff_oneKey : ∃ process k, boot lowerCase (oneKey []) [] = .ok process ∧
    loadKey (oneKey []) fresh = .ok k ∧ Swaps lowerCase marked (oneKey []) process k := by
  obtain ⟨process, hprocess⟩ : ∃ process, (boot lowerCase (oneKey []) []).toOption = some process :=
    Option.isSome_iff_exists.1 (by decide +kernel)
  obtain ⟨k, hk⟩ : ∃ k, (loadKey (oneKey []) fresh).toOption = some k :=
    Option.isSome_iff_exists.1 (by decide +kernel)
  rw [toOption_eq_some] at hprocess hk
  have husual : Usual (getenv (oneKey []) "INTEGRATION_SECRET_KEY") :=
    .inl ⟨List.replicate 32 0, by decide +kernel, rfl⟩
  exact ⟨process, k, hprocess, hk, (swap_iff lowerCase sound_lowerCase marked opens_marked tagged_marked
    separates_marked (oneKey []) [] fresh process k hprocess hk).2
    (shared_of_legacy (by decide +kernel) husual hprocess hk)⟩

def rotated : Environ := twoKeys [("KMS_PROVIDER", "env")]

def sealedLetter (process : Process) : Except String String := obfuscate marked process ⟨List.replicate 12 0, rfl⟩ [97]

/-- The Go process reads the record that it sealed, and the Node service refuses it. -/
theorem rotated_unread : ∃ process k stored, boot lowerCase rotated [] = .ok process ∧
    loadKey rotated fresh = .ok k ∧ Stored lowerCase marked rotated stored ∧
    Secrets.reveal lowerCase marked process stored = .ok (utf8 "a") ∧
    (Credentials.reveal marked k stored).toOption = none := by
  obtain ⟨process, hprocess⟩ : ∃ process, (boot lowerCase rotated []).toOption = some process :=
    Option.isSome_iff_exists.1 (by decide +kernel)
  obtain ⟨k, hk⟩ : ∃ k, (loadKey rotated fresh).toOption = some k :=
    Option.isSome_iff_exists.1 (by decide +kernel)
  have hstored : ((boot lowerCase rotated []).toOption.bind fun process => (sealedLetter process).toOption) =
      some "enc:v2:AAAAAAAAAAAAAAAAYf////////////////////8=" := by decide +kernel
  have hgo : ((boot lowerCase rotated []).toOption.bind fun process =>
      (Secrets.reveal lowerCase marked process "enc:v2:AAAAAAAAAAAAAAAAYf////////////////////8=").toOption) =
        some (utf8 "a") := by decide +kernel
  have hnode : ((loadKey rotated fresh).toOption.bind fun k =>
      (Credentials.reveal marked k "enc:v2:AAAAAAAAAAAAAAAAYf////////////////////8=").toOption) = none := by
    decide +kernel
  rw [hprocess, Option.bind_some] at hstored hgo
  rw [hk, Option.bind_some] at hnode
  rw [toOption_eq_some] at hprocess hk hstored hgo
  exact ⟨process, k, _, hprocess, hk, .sealed hprocess hstored, hgo, hnode⟩

end BookingSystem.Contracts.StackSwap
