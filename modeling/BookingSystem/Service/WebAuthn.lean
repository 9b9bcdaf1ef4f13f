import BookingSystem.Base.Cbor
import BookingSystem.Base.Utf8
import BookingSystem.Model.Entities
import Mathlib.Data.List.DropRight

/-!
# Passkeys

What an authenticator sends: the authenticator data, the attestation object and the key, read from bytes whose lengths
are the sender's. Numbers are those of a 64-bit machine, and a slice outside its bytes panics. Beside its outcome a
reading records how many maps were open at once and for how many entries each was made: a size that does not fit in the
memory of the process kills it.
-/

namespace BookingSystem.Service.WebAuthn

open Base (Keyed Table key)
open Base.Base64 (Bytes)
open Base.Cbor (bigEndian)
open Model (Instant Uuid)

/-! ### Readings -/

inductive Outcome (α : Type) where
  | ok (a : α)
  | error (message : String)
  | panic
  deriving DecidableEq

/-- Depth and sizes are not the program's: they are the number of maps that were open at once, and what `make` was asked
for, one map after the other. -/
structure Reading (α : Type) where
  outcome : Outcome α
  depth : ℕ := 0
  sizes : List ℕ := []
  deriving DecidableEq

namespace Reading

variable {α β : Type}

def ok (a : α) : Reading α := { outcome := .ok a }

def error (message : String) : Reading α := { outcome := .error message }

def panic : Reading α := { outcome := .panic }

def bind (x : Reading α) (f : α → Reading β) : Reading β :=
  match x.outcome with
  | .ok a => ⟨(f a).outcome, max x.depth (f a).depth, x.sizes ++ (f a).sizes⟩
  | .error message => ⟨.error message, x.depth, x.sizes⟩
  | .panic => ⟨.panic, x.depth, x.sizes⟩

instance : Monad Reading where
  pure := ok
  bind := bind

/-- An error gets a label in front. -/
def wrap (label : String) (x : Reading α) : Reading α :=
  match x.outcome with
  | .error message => ⟨.error (label ++ message), x.depth, x.sizes⟩
  | _ => x

/-- The reading of a map that is made for `n` entries: one more is open. -/
def nested (n : ℕ) (x : Reading α) : Reading α := ⟨x.outcome, x.depth + 1, n :: x.sizes⟩

end Reading

/-! ### Machine numbers -/

/-- A number as a machine word has it, signed. -/
def int64 (n : ℤ) : ℤ := (n + 2 ^ 63) % 2 ^ 64 - 2 ^ 63

def slice (b : Bytes) (lo hi : ℤ) : Reading Bytes :=
  if 0 ≤ lo ∧ lo ≤ hi ∧ hi ≤ b.length then .ok ((b.take hi.toNat).drop lo.toNat) else .panic

def index (b : Bytes) (i : ℕ) : Reading UInt8 :=
  match b[i]? with
  | some x => .ok x
  | none => .panic

/-! ### CBOR -/

inductive Value where
  | int (n : ℤ)
  | bytes (b : Bytes)
  | text (b : Bytes)
  | map (entries : List (ℤ × Value))

namespace Value

/-- `%T` of a value. -/
def typeName : Value → String
  | .int _ => "int64"
  | .bytes _ => "[]uint8"
  | .text _ => "string"
  | .map _ => "map[int64]interface \x7b\x7d"

def asInt : Value → Option ℤ
  | .int n => some n
  | _ => none

def asText : Value → Option Bytes
  | .text b => some b
  | _ => none

def asBytes : Value → Option Bytes
  | .bytes b => some b
  | _ => none

end Value

/-- The big-endian number after the first byte. -/
def fixedUint (b : Bytes) (width : ℕ) (short : String) : Reading (ℕ × ℤ) :=
  if b.length < 1 + width then .error short
  else do pure (bigEndian (← slice b 1 (1 + width)), (1 + width : ℤ))

def readCBORLen (b : Bytes) : Reading (ℕ × ℤ) :=
  match b with
  | [] => .error "cbor: empty"
  | x :: _ =>
    let low := x.toNat % 32
    if low < 24 then .ok (low, 1)
    else if low = 24 then fixedUint b 1 "cbor: short uint8"
    else if low = 25 then fixedUint b 2 "cbor: short uint16"
    else if low = 26 then fixedUint b 4 "cbor: short uint32"
    else if low = 27 then fixedUint b 8 "cbor: short uint64"
    else .error s!"cbor: indefinite-length not supported (low={low})"

/-- In what the two readers of maps differ. -/
structure Keys (κ : Type) where
  ofValue : Value → Option κ
  empty : String
  entry : String
  wrongKey : String

def intKeys : Keys ℤ := ⟨Value.asInt, "cbor: empty input", "cbor", "cbor: non-int map key "⟩

def textKeys : Keys Bytes := ⟨Value.asText, "cbor: empty", "attestation", "attestation: non-string key "⟩

section Maps

variable {κ : Type} (keys : Keys κ) (read : Bytes → Reading (Value × ℤ)) (b : Bytes)

/-- `n` more entries from `pos` on; `i` are read. A key's type is looked at when its value has been read. -/
def readEntries : ℕ → ℕ → ℤ → List (κ × Value) → Reading (List (κ × Value) × ℤ)
  | 0, _, pos, out => .ok (out, pos)
  | n + 1, i, pos, out => do
    let (key, kn) ← ((slice b pos b.length).bind read).wrap s!"{keys.entry} key {i}: "
    let pos := int64 (pos + kn)
    let (val, vn) ← ((slice b pos b.length).bind read).wrap s!"{keys.entry} val {i}: "
    let pos := int64 (pos + vn)
    match keys.ofValue key with
    | none => .error s!"{keys.wrongKey}{key.typeName}"
    | some k => readEntries n (i + 1) pos ((k, val) :: out)

/-- The entries of a map with the latest write of a key first, and where the map ends. -/
def readMap : Reading (List (κ × Value) × ℤ) :=
  match b with
  | [] => .error keys.empty
  | x :: _ =>
    let major := x.toNat / 32
    if major ≠ 5 then .error s!"cbor: expected map (major 5), got {major}"
    else do
      let (n, hdrLen) ← readCBORLen b
      (readEntries keys read b n 0 hdrLen []).nested n

end Maps

/-- `readCBORValue` on at most so many nested slices. Each is shorter than the one around it. -/
def readCBORValueIn : ℕ → Bytes → Reading (Value × ℤ)
  | 0, _ => .error "cbor: short input"
  | fuel + 1, b =>
    match b with
    | [] => .error "cbor: short input"
    | x :: _ =>
      let major := x.toNat / 32
      match major with
      | 0 => do
        let (n, hdrLen) ← readCBORLen b
        pure (.int (int64 n), hdrLen)
      | 1 => do
        let (n, hdrLen) ← readCBORLen b
        pure (.int (-1 - int64 n), hdrLen)
      | 2 | 3 => do
        let (n, hdrLen) ← readCBORLen b
        let stop := int64 (hdrLen + int64 n)
        if stop > b.length then .error "cbor: string length overruns buffer"
        else do
          let buf ← slice b hdrLen stop
          pure (if major = 2 then .bytes buf else .text buf, stop)
      | 5 => do
        let (m, total) ← readMap intKeys (readCBORValueIn fuel) b
        pure (.map m, total)
      | _ => .error s!"cbor: unsupported major {major}"

def readCBORValue (b : Bytes) : Reading (Value × ℤ) := readCBORValueIn b.length b

def readCBORMap (b : Bytes) : Reading (List (ℤ × Value) × ℤ) := readMap intKeys readCBORValue b

def readAttestationMap (b : Bytes) : Reading (List (Bytes × Value) × ℤ) := readMap textKeys readCBORValue b

/-! ### Authenticator data -/

structure AuthData where
  rpIDHash : Bytes
  flags : UInt8
  signCount : ℕ
  aaguid : Bytes
  credentialID : Bytes
  coseKey : Bytes
  deriving DecidableEq

/-- The bit for attested credential data. -/
def flagAT : UInt8 := 64

def parseAuthData (b : Bytes) : Reading AuthData :=
  if b.length < 37 then .error s!"authData too short: {b.length}"
  else do
    let rpIDHash ← slice b 0 32
    let flags ← index b 32
    let signCount := bigEndian (← slice b 33 37)
    if flags &&& flagAT ≠ 0 then
      if b.length < 55 then .error s!"authData attested-credential block too short: {b.length}"
      else do
        let aaguid ← slice b 37 53
        let credLen := bigEndian (← slice b 53 55)
        if 55 + credLen > b.length then .error s!"authData credential id length {credLen} exceeds remaining"
        else do
          let credentialID ← slice b 55 (55 + credLen)
          let coseKey ← slice b (55 + credLen) b.length
          pure ⟨rpIDHash, flags, signCount, aaguid, credentialID, coseKey⟩
    else pure ⟨rpIDHash, flags, signCount, [], [], []⟩

/-! ### Keys -/

/-- The coordinates of an ES256 key, modulus and exponent of an RS256 key. -/
structure PublicKey where
  algorithm : ℤ
  ecKey : Option (ℕ × ℕ)
  rsaKey : Option (ℕ × ℤ)
  deriving DecidableEq

/-- Zero where there is no integer. -/
def intAt (m : List (ℤ × Value)) (label : ℤ) : ℤ := ((m.lookup label).bind Value.asInt).getD 0

/-- Empty where there is no byte string. -/
def bytesAt (m : List (ℤ × Value)) (label : ℤ) : Bytes := ((m.lookup label).bind Value.asBytes).getD []

/-- The loop `e = e<<8 | int(byt)`; the eight bits that are shifted in are zero. -/
def exponent (eb : Bytes) : ℤ := eb.foldl (fun e byt => int64 (e * 256 + byt.toNat)) 0

def parseCOSEKey (b : Bytes) : Reading PublicKey := do
  let (m, _) ← readCBORMap b
  let kty := intAt m 1
  let alg := intAt m 3
  if alg = -7 then
    if kty ≠ 2 then .error s!"cose: ES256 expects kty=EC2 (2), got {kty}"
    else if bytesAt m (-2) = [] ∨ bytesAt m (-3) = [] then .error "cose: missing EC x/y"
    else pure ⟨alg, some (bigEndian (bytesAt m (-2)), bigEndian (bytesAt m (-3))), none⟩
  else if alg = -257 then
    if kty ≠ 3 then .error s!"cose: RS256 expects kty=RSA (3), got {kty}"
    else if bytesAt m (-1) = [] ∨ bytesAt m (-2) = [] then .error "cose: missing RSA n/e"
    else pure ⟨alg, none, some (bigEndian (bytesAt m (-1)), exponent (bytesAt m (-2)))⟩
  else .error s!"cose: unsupported alg {alg}"

/-! ### Registration -/

def b64URLDecode (s : List Char) : Option Bytes :=
  match Base.Base64.decodeRawUrl s with
  | some b => some b
  | none => Base.Base64.decodeUrl s

structure ClientData where
  type : List Char
  challenge : List Char
  origin : List Char
  deriving DecidableEq

/-- The fields of the body that the handler reads. -/
structure RegisterBody where
  clientDataJSON : List Char
  attestationObject : List Char
  nickname : List Char

/-- A row of `webauthn_challenges`. -/
structure Challenge where
  challenge : List Char
  userId : Option Uuid
  purpose : List Char
  expiresAt : Instant

instance : Keyed Challenge (List Char) where
  key := Challenge.challenge

/-- A row of `webauthn_credentials`. -/
structure Credential where
  tenantId : Uuid
  userId : Uuid
  credentialId : Bytes
  publicKey : Bytes
  signCount : ℕ
  aaguid : Option Bytes
  nickname : List Char

instance : Keyed Credential (Uuid × Bytes) where
  key c := (c.tenantId, c.credentialId)

structure Store where
  challenges : Table Challenge
  credentials : Table Credential

structure Response where
  status : ℕ
  text : String
  deriving DecidableEq

/-- The rows that the conditional delete finds. -/
def Challenge.consumable (purpose : List Char) (userId : Uuid) (now : Instant) (c : Challenge) : Bool :=
  c.purpose = purpose ∧ (c.userId = none ∨ c.userId = some userId) ∧ c.expiresAt > now

def consumeChallenge (s : Store) (challenge purpose : List Char) (userId : Uuid) (now : Instant) :
    Except String Store :=
  match s.challenges.find? challenge with
  | some c =>
    if c.consumable purpose userId now then .ok { s with challenges := s.challenges.delete challenge }
    else .error "unknown or expired challenge"
  | none => .error "unknown or expired challenge"

/-- `strings.TrimRight(s, "/")`. -/
def trimSlashes (s : List Char) : List Char := s.rdropWhile fun c => c = '/'

def originMatch (got expected : List Char) : Bool :=
  let g := trimSlashes got
  let e := trimSlashes expected
  g = e ∨ e.isPrefixOf g ∨ g.isPrefixOf e

/-- The credential that an attestation object holds, when its key can be read. -/
def attested (attest : Bytes) : Reading AuthData := do
  let (attMap, _) ← (readAttestationMap attest).wrap "attestation decode: "
  let authData := ((attMap.lookup (Base.Utf8.encode "authData".toList)).bind Value.asBytes).getD []
  if authData = [] then .error "attestationObject missing authData"
  else do
    let ad ← (parseAuthData authData).wrap "authData: "
    if ad.credentialID = [] ∨ ad.coseKey = [] then .error "authData missing attested credential"
    else do
      let _ ← (parseCOSEKey ad.coseKey).wrap "unsupported public key: "
      pure ad

/-- `INSERT … ON CONFLICT (tenant_id, credential_id) DO UPDATE SET nickname = EXCLUDED.nickname`. -/
def upsert (t : Table Credential) (c : Credential) : Table Credential :=
  match t.insert? c with
  | some t' => t'
  | none => t.update (fun r => key r = key c) fun r => { r with nickname := c.nickname }

/-- `parse` stands for `json.Unmarshal` into the client data, the body is what the decoder made of the request. The
texts are without what the libraries say. -/
def registerFinish (parse : Bytes → Option ClientData) (origin : List Char) (now : Instant) (uid : Uuid)
    (tid : Option Uuid) (body : Option RegisterBody) (s : Store) : Response × Store :=
  match tid with
  | none => (⟨401, "auth context missing"⟩, s)
  | some tid =>
    if uid = "" then (⟨401, "auth context missing"⟩, s)
    else
      match body with
      | none => (⟨400, "invalid body"⟩, s)
      | some body =>
        match b64URLDecode body.clientDataJSON, b64URLDecode body.attestationObject with
        | none, _ => (⟨400, "clientDataJSON decode: "⟩, s)
        | some _, none => (⟨400, "attestationObject decode: "⟩, s)
        | some clientData, some attest =>
          match parse clientData with
          | none => (⟨400, "bad clientData type"⟩, s)
          | some cd =>
            if cd.type ≠ "webauthn.create".toList then (⟨400, "bad clientData type"⟩, s)
            else
              match consumeChallenge s cd.challenge "register".toList uid now with
              | .error message => (⟨400, message⟩, s)
              | .ok s' =>
                if !originMatch cd.origin origin then (⟨400, "origin mismatch"⟩, s')
                else
                  match (attested attest).outcome with
                  -- The transaction of the request is rolled back.
                  | .panic => (⟨500, ""⟩, s)
                  | .error message => (⟨400, message⟩, s')
                  | .ok ad =>
                    let nickname := if body.nickname = [] then "Passkey".toList else body.nickname
                    let aaguid := if ad.aaguid.length = 16 then some ad.aaguid else none
                    (⟨204, ""⟩, { s' with
                      credentials := upsert s'.credentials
                        ⟨tid, uid, ad.credentialID, ad.coseKey, ad.signCount, aaguid, nickname⟩ })

end BookingSystem.Service.WebAuthn
