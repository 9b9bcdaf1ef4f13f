import BookingSystem.Base.Base64
import BookingSystem.Base.Outcome

/-!
# Sealed credentials of the Go service

The packages `integration` and `kms`. A process reads its keys from the environment when it starts: the legacy key, and
through the provider `env` the versioned ones. `obfuscate` seals a text under the active key and writes the version into
the envelope, `reveal` looks the version up. Without a provider there is the legacy key only.
-/

namespace BookingSystem.Service.Secrets

open Base Base.Base64

abbrev Key := Bytes

abbrev Environ := List (String × String)

/-- `os.Getenv`: a variable that is not set is empty. -/
def getenv (env : Environ) (name : String) : String := (env.lookup name).getD ""

/-- The functions of package `strings` that know the cases of letters. -/
structure Cases where
  toLower : String → String
  equalFold : String → String → Bool

/-- A text in lower case stays as it is. -/
structure Cases.Sound (f : Cases) : Prop where
  toLower_toLower : ∀ s, f.toLower (f.toLower s) = f.toLower s
  toLower_v1 : f.toLower "v1" = "v1"

/-- `unicode.IsSpace`. -/
def isSpace (c : Char) : Bool :=
  let n := c.toNat
  (9 ≤ n && n ≤ 13) || n == 0x20 || n == 0x85 || n == 0xA0 || n == 0x1680 || (0x2000 ≤ n && n ≤ 0x200A) ||
    n == 0x2028 || n == 0x2029 || n == 0x202F || n == 0x205F || n == 0x3000

def trimSpace (s : String) : String :=
  String.ofList ((s.toList.dropWhile isSpace).reverse.dropWhile isSpace).reverse

/-! ### Keys -/

/-- The pairs of hexadecimal digits up to something else; a pair has to be complete. -/
def hexString : List Char → Option Bytes
  | [] => some []
  | [c] => if (hexValue c).isSome then none else some []
  | c :: d :: rest =>
    match hexValue c with
    | none => some []
    | some m =>
      match hexValue d with
      | none => none
      | some n => (hexString rest).map (UInt8.ofNat (m * 16 + n) :: ·)

/-- `fmt.Sscanf(v, "%x", &k)`: blanks are skipped, though no line break, and there has to be a digit. -/
def sscanfHex (cs : List Char) : Option Bytes :=
  if '\n' ∈ cs.takeWhile isSpace then none
  else (hexString (cs.dropWhile isSpace)).filter fun k => !k.isEmpty

def sized (k : Option Bytes) : Option Key := k.filter fun k => k.length == 32

def hexKey (v : String) : Option Key := if v.utf8ByteSize = 64 then sscanfHex v.toList else none

/-- `loadLegacySecretKey`; `drawn` are random bytes. -/
def loadLegacySecretKey (f : Cases) (env : Environ) (drawn : Bytes) : Except String (Option Key) :=
  let v := getenv env "INTEGRATION_SECRET_KEY"
  if v ≠ "" then
    match (sized (decode v.toList)).or (hexKey v) with
    | some k => .ok (some k)
    | none => .error "INTEGRATION_SECRET_KEY must be a 32-byte key encoded as base64 or hex."
  else if f.equalFold (getenv env "ALLOW_DEV_INTEGRATION_EPHEMERAL") "true" then .ok (some drawn)
  else .ok none

/-- `decodeKey` of package `kms`. -/
def decodeKey (s : String) : Except String Key :=
  let s := trimSpace s
  match (sized (decode s.toList)).or ((sized (decodeRaw s.toList)).or (hexKey s)) with
  | some k => .ok k
  | none => .error "must be a 32-byte key as base64 or hex"

/-! ### The provider -/

/-- Keys by their version, with the latest in front, and the active version. -/
structure KeyRing where
  keys : List (String × Key)
  active : String

def versionOf (name : String) : Option String :=
  ("INTEGRATION_SECRET_KEY_".toList.isPrefixOf? name.toList).map String.ofList

/-- The versioned variables, which override the keys that are there. -/
def addKeys (f : Cases) : Environ → List (String × Key) → Except String (List (String × Key))
  | [], keys => .ok keys
  | (name, text) :: env, keys =>
    match versionOf name with
    | none => addKeys f env keys
    | some ver =>
      match decodeKey text with
      | .error e => .error ("kms env: " ++ name ++ ": " ++ e)
      | .ok k => addKeys f env ((f.toLower ver, k) :: keys)

/-- `KMS_ACTIVE_VERSION`. -/
def activeVersion (f : Cases) (env : Environ) : String := f.toLower (trimSpace (getenv env "KMS_ACTIVE_VERSION"))

/-- The unversioned variable, as version `v1`. -/
def unversioned (env : Environ) : Except String (List (String × Key)) :=
  let v := getenv env "INTEGRATION_SECRET_KEY"
  if v = "" then .ok []
  else
    match decodeKey v with
    | .error e => .error ("kms env: INTEGRATION_SECRET_KEY: " ++ e)
    | .ok k => .ok [("v1", k)]

/-- `load`. -/
def load (f : Cases) (env : Environ) : Except String KeyRing := do
  let legacy ← unversioned env
  let keys ← addKeys f env legacy
  let v := activeVersion f env
  if v ≠ "" ∧ keys.lookup v = none then
    .error ("kms env: KMS_ACTIVE_VERSION=" ++ v ++ " but no key by that name")
  else
    let active := if v ≠ "" then v else if legacy = [] then "" else "v1"
    if active = "" ∨ keys = [] then .error "kms env: no INTEGRATION_SECRET_KEY[_v*] variable set"
    else .ok ⟨keys, active⟩

/-- `KMS_PROVIDER`. -/
def providerName (f : Cases) (env : Environ) : String := f.toLower (trimSpace (getenv env "KMS_PROVIDER"))

/-- `kms.New`. -/
def newProvider (f : Cases) (env : Environ) : Except String KeyRing :=
  let name := if providerName f env = "" then "env" else providerName f env
  if name = "env" then load f env
  else if name ∈ ["vault", "aws", "azure", "gcp"] then
    .error ("kms: provider \"" ++ name ++ "\" wired in interface but not yet implemented — please configure " ++
      "KMS_PROVIDER=env or wait for the provider rollout")
  else .error ("kms: unknown provider \"" ++ name ++ "\"")

/-! ### The process -/

/-- What a process keeps of its environment. -/
structure Process where
  secretKey : Option Key
  kmsProvider : Option KeyRing

def loadKMSProvider (f : Cases) (env : Environ) (secretKey : Option Key) : Except String (Option KeyRing) :=
  if providerName f env = "" ∧ secretKey.isSome then .ok none
  else
    match newProvider f env with
    | .ok ring => .ok (some ring)
    | .error e => if secretKey.isSome then .ok none else .error ("integration secret: " ++ e)

def boot (f : Cases) (env : Environ) (drawn : Bytes) : Except String Process := do
  let secretKey ← loadLegacySecretKey f env drawn
  let kmsProvider ← loadKMSProvider f env secretKey
  pure ⟨secretKey, kmsProvider⟩

def keyForVersion (f : Cases) (s : Process) (version : String) : Except String Key :=
  if version = "" then
    found s.secretKey "integration secret: legacy record but INTEGRATION_SECRET_KEY is not configured"
  else
    match s.kmsProvider with
    | some ring =>
      match ring.keys.lookup (f.toLower version) with
      | some k => .ok k
      | none =>
        found (if version = "v1" then s.secretKey else none) ("kms: unknown key version: \"" ++ version ++ "\"")
    | none =>
      found (if version = "v1" then s.secretKey else none)
        ("integration secret: no key configured for version \"" ++ version ++ "\"")

def activeKey (s : Process) : Except String (Key × String) :=
  match s.kmsProvider with
  | some ring => .ok ((ring.keys.lookup ring.active).getD [], ring.active)
  | none => (found s.secretKey "integration secret: no encryption key available").map fun k => (k, "v1")

/-! ### Sealing -/

/-- AES-GCM: `Seal` and `Open` under a key with a nonce. -/
structure Gcm where
  gcmSeal : Key → Bytes → Bytes → Bytes
  gcmOpen : Key → Bytes → Bytes → Option Bytes

/-- `Open` under the key and nonce of `Seal` gives the text back. -/
def Gcm.Opens (g : Gcm) : Prop := ∀ k n p, g.gcmOpen k n (g.gcmSeal k n p) = some p

abbrev Nonce := { n : Bytes // n.length = 12 }

/-- `aes.NewCipher`. -/
def newCipher (k : Key) : Except String Unit :=
  require (k.length == 16 || k.length == 24 || k.length == 32) "crypto/aes: invalid key size"

def envelope (g : Gcm) (k : Key) (version : String) (nonce : Nonce) (plaintext : Bytes) : String :=
  "enc:" ++ version ++ ":" ++ String.ofList (encode (nonce.1 ++ g.gcmSeal k nonce.1 plaintext))

/-- `Obfuscate`. -/
def obfuscate (g : Gcm) (s : Process) (nonce : Nonce) (plaintext : Bytes) : Except String String :=
  if plaintext = [] then .ok ""
  else do
    let (key, version) ← activeKey s
    newCipher key
    pure (envelope g key version nonce plaintext)

def decryptGCM (f : Cases) (g : Gcm) (s : Process) (version : String) (b64 : List Char) : Except String Bytes := do
  let raw ← found (decode b64) "decode: illegal base64 data"
  let key ← keyForVersion f s version
  newCipher key
  require (12 ≤ raw.length) "ciphertext too short"
  found (g.gcmOpen key (raw.take 12) (raw.drop 12)) "open: cipher: message authentication failed"

def xorWith (key : Key) (raw : Bytes) : Bytes := raw.mapIdx fun i c => c ^^^ key.getD (i % key.length) 0

def decryptXORLegacy (s : Process) (b64 : List Char) : Except String Bytes := do
  let key ← found s.secretKey "legacy XOR record but INTEGRATION_SECRET_KEY is not configured"
  let raw ← found (decode b64) "illegal base64 data"
  pure (xorWith key raw)

def utf8 (s : String) : Bytes := s.toUTF8.data.toList

/-- `Reveal`. -/
def reveal (f : Cases) (g : Gcm) (s : Process) (stored : String) : Except String Bytes :=
  if stored = "" then .ok []
  else
    match "enc:".toList.isPrefixOf? stored.toList with
    | some rest =>
      if ':' ∈ rest then
        decryptGCM f g s (String.ofList (rest.takeWhile (· != ':'))) ((rest.dropWhile (· != ':')).drop 1)
      else .error "malformed enc envelope: missing version delimiter"
    | none =>
      match "obf:".toList.isPrefixOf? stored.toList with
      | some b64 => decryptXORLegacy s b64
      | none => .ok (utf8 stored)

/-! ### What the provider reads -/

def versioned (f : Cases) (env : Environ) : List (String × String) :=
  env.filterMap fun x => (versionOf x.1).map fun ver => (f.toLower ver, x.2)

/-- The keys of an environment as they are written in it; the unversioned one has the version `v1`. -/
def entries (f : Cases) (env : Environ) : List (String × String) :=
  (if getenv env "INTEGRATION_SECRET_KEY" = "" then [] else [("v1", getenv env "INTEGRATION_SECRET_KEY")]) ++
    versioned f env

/-- The keys stand for the texts: one for each, under the same version. -/
structure ReadFrom (texts : List (String × String)) (keys : List (String × Key)) : Prop where
  versions : (keys.map Prod.fst).Perm (texts.map Prod.fst)
  read : ∀ x ∈ texts, ∃ k, decodeKey x.2 = .ok k ∧ (x.1, k) ∈ keys

theorem ReadFrom.cons {texts : List (String × String)} {keys : List (String × Key)} (h : ReadFrom texts keys)
    {version text : String} {k : Key} (hk : decodeKey text = .ok k) :
    ReadFrom ((version, text) :: texts) ((version, k) :: keys) where
  versions := h.versions.cons version
  read x hx := by
    obtain rfl | hx := List.mem_cons.1 hx
    · exact ⟨k, hk, List.mem_cons_self⟩
    · obtain ⟨k', hk', hmem⟩ := h.read x hx
      exact ⟨k', hk', List.mem_cons_of_mem _ hmem⟩

section

variable {f : Cases} {env : Environ} {texts : List (String × String)} {keys keys' : List (String × Key)}

theorem ReadFrom.perm {texts' : List (String × String)} (h : ReadFrom texts keys) (hperm : texts.Perm texts') :
    ReadFrom texts' keys where
  versions := h.versions.trans (hperm.map _)
  read x hx := h.read x (hperm.mem_iff.2 hx)

theorem lookup_of_mem (hnodup : (keys.map Prod.fst).Nodup) {version : String} {k : Key} (h : (version, k) ∈ keys) :
    keys.lookup version = some k := by
  induction keys with
  | nil => cases h
  | cons x keys ih =>
    obtain ⟨hx, hnodup⟩ := List.nodup_cons.1 hnodup
    cases h with
    | head => exact List.lookup_cons_self
    | tail _ h =>
      have hne : version ≠ x.1 := by
        rintro rfl
        exact hx (List.mem_map.2 ⟨_, h, rfl⟩)
      rw [← ih hnodup h, List.lookup_cons, beq_false_of_ne hne]

theorem ReadFrom.lookup (h : ReadFrom texts keys) (hnodup : (texts.map Prod.fst).Nodup) {version text : String}
    {k : Key} (hmem : (version, text) ∈ texts) (hk : decodeKey text = .ok k) : keys.lookup version = some k := by
  obtain ⟨k', hk', hmem'⟩ := h.read _ hmem
  obtain rfl : k = k' := Except.ok.inj (hk.symm.trans hk')
  exact lookup_of_mem (h.versions.nodup_iff.2 hnodup) hmem'

theorem readFrom_addKeys (h : addKeys f env keys = .ok keys') (hkeys : ReadFrom texts keys) :
    ReadFrom (texts ++ versioned f env) keys' := by
  fun_induction addKeys f env keys generalizing texts with
  | case1 keys =>
    cases h
    simpa [versioned] using hkeys
  | case2 name text env keys hversion ih =>
    have hrest := ih h hkeys
    rwa [versioned, List.filterMap_cons_none (by simp [hversion])]
  | case3 => cases h
  | case4 name text env keys ver hversion k hk ih =>
    have hread : ReadFrom ((f.toLower ver, text) :: texts) ((f.toLower ver, k) :: keys) := hkeys.cons hk
    have hrest := ih h hread
    rw [versioned, List.filterMap_cons_some (b := (f.toLower ver, text)) (by simp [hversion])]
    exact hrest.perm List.perm_middle.symm

theorem readFrom_unversioned {legacy : List (String × Key)} (h : unversioned env = .ok legacy) :
    ReadFrom (if getenv env "INTEGRATION_SECRET_KEY" = "" then []
      else [("v1", getenv env "INTEGRATION_SECRET_KEY")]) legacy := by
  have hnone : ReadFrom [] [] := ⟨List.Perm.refl _, fun x hx => absurd hx List.not_mem_nil⟩
  unfold unversioned at h
  dsimp only at h
  split at h
  · rename_i hunset
    cases h
    rwa [if_pos hunset]
  · rename_i hset
    rw [if_neg hset]
    split at h
    · cases h
    · rename_i k hk
      cases h
      exact hnone.cons hk

/-- **What `load` reads**: a key for each text, and the version that is to be active. -/
theorem load_ok {ring : KeyRing} (h : load f env = .ok ring) :
    ReadFrom (entries f env) ring.keys ∧ (activeVersion f env ≠ "" → ring.active = activeVersion f env) := by
  obtain ⟨legacy, hlegacy, h⟩ := bind_eq_ok.1 h
  obtain ⟨keys, hkeys, h⟩ := bind_eq_ok.1 h
  dsimp only at h
  generalize hactive : (if activeVersion f env ≠ "" then activeVersion f env else if legacy = [] then "" else "v1") =
    active at h
  split at h
  · cases h
  · split at h
    · cases h
    · cases h
      exact ⟨readFrom_addKeys hkeys (readFrom_unversioned hlegacy), fun hne => hactive.symm.trans (if_pos hne)⟩

end

/-! ### Envelopes are opened again -/

theorem isPrefixOf?_append (l m : List Char) : l.isPrefixOf? (l ++ m) = some m := by
  induction l with
  | nil => rfl
  | cons c l ih => simp [List.isPrefixOf?, ih]

section

variable {f : Cases} {g : Gcm} {s : Process} {k : Key} {version : String} {nonce : Nonce} {plaintext : Bytes}

theorem toList_envelope : (envelope g k version nonce plaintext).toList =
    "enc:".toList ++ (version.toList ++ ':' :: encode (nonce.1 ++ g.gcmSeal k nonce.1 plaintext)) := by
  simp [envelope, String.toList_append]

theorem envelope_ne_empty : envelope g k version nonce plaintext ≠ "" := by
  intro h
  have hlist := congrArg String.toList h
  rw [toList_envelope] at hlist
  simp at hlist

theorem reveal_envelope (hversion : ':' ∉ version.toList) : reveal f g s (envelope g k version nonce plaintext) =
    decryptGCM f g s version (encode (nonce.1 ++ g.gcmSeal k nonce.1 plaintext)) := by
  have hcolon : ∀ c ∈ version.toList, (c != ':') = true := by
    intro c hc
    simpa using fun h : c = ':' => hversion (h ▸ hc)
  rw [reveal, if_neg envelope_ne_empty, toList_envelope, isPrefixOf?_append]
  dsimp only
  rw [if_pos (by simp), List.takeWhile_append_of_pos hcolon, List.dropWhile_append_of_pos hcolon]
  simp

/-- A sealed text comes down to what `Open` says under the key of its version. -/
theorem decryptGCM_encode (hkey : keyForVersion f s version = .ok k) (hsize : newCipher k = .ok ()) (ct : Bytes) :
    decryptGCM f g s version (encode (nonce.1 ++ ct)) =
      found (g.gcmOpen k nonce.1 ct) "open: cipher: message authentication failed" := by
  have hlength : 12 ≤ (nonce.1 ++ ct).length := by
    rw [List.length_append, nonce.2]
    omega
  have htake : (nonce.1 ++ ct).take 12 = nonce.1 := by
    rw [List.take_append_of_le_length nonce.2.ge, List.take_of_length_le nonce.2.le]
  have hdrop : (nonce.1 ++ ct).drop 12 = ct := by
    rw [List.drop_append_of_le_length nonce.2.ge, List.drop_of_length_le nonce.2.le, List.nil_append]
  simp only [decryptGCM, decode_encode, found, hkey, hsize, htake, hdrop, bind, Except.bind,
    require_of (e := "ciphertext too short") (decide_eq_true hlength)]

theorem obfuscate_ok {stored : String} (h : obfuscate g s nonce plaintext = .ok stored) (hne : plaintext ≠ []) :
    ∃ k version, activeKey s = .ok (k, version) ∧ newCipher k = .ok () ∧
      stored = envelope g k version nonce plaintext := by
  rw [obfuscate, if_neg hne, bind_eq_ok] at h
  obtain ⟨⟨k, version⟩, hactive, h⟩ := h
  obtain ⟨u, hsize, h⟩ := bind_eq_ok.1 h
  exact ⟨k, version, hactive, hsize, (pure_eq_ok.1 h).symm⟩

end

end BookingSystem.Service.Secrets
