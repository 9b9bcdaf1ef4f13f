import BookingSystem.Base.Base64
import BookingSystem.Base.Utf8

/-!
# Encrypted push messages

`EncryptPayload` of the package `webpush`. The primitives are parameters; what the random source gives, a private key
and a salt, are arguments.
-/

namespace BookingSystem.Service.WebPush

open Base (Utf8.encode)
open Base.Base64 (Bytes)

/-! ### Primitives -/

/-- What HMAC-SHA-256 gives. -/
abbrev Digest := { b : Bytes // b.length = 32 }

/-- ECDH on P-256, HMAC-SHA-256 and AES-GCM without additional data. -/
structure Primitives where
  PrivateKey : Type
  publicKey : PrivateKey → Bytes
  isPoint : Bytes → Bool
  ecdh : PrivateKey → Bytes → Option Bytes
  hmac : Bytes → Bytes → Digest
  gcmSeal (key nonce plaintext : Bytes) : Bytes
  gcmOpen (key nonce ciphertext : Bytes) : Option Bytes

variable (P : Primitives)

/-! ### `hkdfExtract`, `hkdfExpand` -/

def hkdfExtract (salt ikm : Bytes) : Bytes := (P.hmac salt ikm).1

/-- The loop of `hkdfExpand`; the counter is one byte. -/
def hkdfBlocks (prk info : Bytes) (length : ℕ) (out prev : Bytes) (counter : UInt8) : Bytes :=
  if out.length < length then
    let next := (P.hmac prk (prev ++ info ++ [counter])).1
    hkdfBlocks prk info length (out ++ next) next (counter + 1)
  else out
termination_by length - out.length
decreasing_by
  rw [List.length_append, (P.hmac prk (prev ++ info ++ [counter])).2]
  omega

def hkdfExpand (prk info : Bytes) (length : ℕ) : Bytes := (hkdfBlocks P prk info length [] [] 1).take length

/-! ### `decodeURLOrStd`, `authBypadded` -/

/-- The first reader that takes the text. -/
def decodeURLOrStd (s : List Char) : Option Bytes :=
  if s = [] then none
  else
    (Base.Base64.decodeRawUrl s).or <| (Base.Base64.decodeUrl s).or <| (Base.Base64.decode s).or <|
      Base.Base64.decodeRaw s

/-- `len` of a text counts bytes. -/
def len (s : List Char) : ℕ := (Utf8.encode s).length

def paddingFor (n : ℕ) : List Char :=
  if n = 1 then "=".toList else if n = 2 then "==".toList else if n = 3 then "===".toList else []

def authBypadded (s : List Char) : List Char :=
  let pad := len s % 4
  if pad ≠ 0 then s ++ paddingFor (4 - pad) else s

/-! ### `EncryptPayload` -/

def recordSize : ℕ := 4096

def keyIDLen : ℕ := 65

def ascii (s : String) : Bytes := Utf8.encode s.toList

/-- The four bytes of `PutUint32`. -/
def putUint32 (n : ℕ) : Bytes :=
  [UInt8.ofNat (n / 2 ^ 24), UInt8.ofNat (n / 2 ^ 16), UInt8.ofNat (n / 2 ^ 8), UInt8.ofNat n]

/-- What `io.ReadFull` fills. -/
abbrev Salt := { b : Bytes // b.length = 16 }

/-- Why nothing is encrypted; the causes inside the packages are left out. -/
inductive EncryptError where
  | invalidP256dh
  | invalidAuth
  | p256dhParse
  | asPubLen (n : ℕ)
  | ecdh
  | tooLarge (size max : ℕ)
  | cipher

def require (ok : Bool) (e : EncryptError) : Except EncryptError Unit := if ok then .ok () else .error e

def orError {α : Type} (a : Option α) (e : EncryptError) : Except EncryptError α :=
  match a with
  | some a => .ok a
  | none => .error e

/-- The key and the nonce of the content. -/
def contentKeys (salt authSecret shared uaPub asPub : Bytes) : Bytes × Bytes :=
  let keyInfo := ascii "WebPush: info\x00" ++ uaPub ++ asPub
  let prk := hkdfExtract P authSecret shared
  let ikm := hkdfExpand P prk keyInfo 32
  let cekInfo := ascii "Content-Encoding: aes128gcm\x00"
  let nonceInfo := ascii "Content-Encoding: nonce\x00"
  let prk8188 := hkdfExtract P salt ikm
  (hkdfExpand P prk8188 cekInfo 16, hkdfExpand P prk8188 nonceInfo 12)

def overhead : ℕ := 16 + 1

/-- The plaintext with the delimiter and zeros, sealed. -/
def sealRecord (cek nonce plaintext : Bytes) : Except EncryptError Bytes := do
  require (decide (plaintext.length + overhead ≤ recordSize)) (.tooLarge (plaintext.length + overhead) recordSize)
  require ([16, 24, 32].contains cek.length) .cipher
  let padLen := recordSize - plaintext.length - overhead
  pure (P.gcmSeal cek nonce (plaintext ++ [2] ++ List.replicate padLen 0))

def encryptPayload (asPriv : P.PrivateKey) (salt : Salt) (p256dhB64 authB64 : List Char) (plaintext : Bytes) :
    Except EncryptError Bytes := do
  let uaPub ← orError (decodeURLOrStd p256dhB64) .invalidP256dh
  require (uaPub.length == keyIDLen) .invalidP256dh
  let authSecret ← orError (decodeURLOrStd (authBypadded authB64)) .invalidAuth
  require (decide (8 ≤ authSecret.length)) .invalidAuth
  require (P.isPoint uaPub) .p256dhParse
  let asPub := P.publicKey asPriv
  require (asPub.length == keyIDLen) (.asPubLen asPub.length)
  let shared ← orError (P.ecdh asPriv uaPub) .ecdh
  let keys := contentKeys P salt.1 authSecret shared uaPub asPub
  let ct ← sealRecord P keys.1 keys.2 plaintext
  pure (salt.1 ++ putUint32 recordSize ++ [UInt8.ofNat keyIDLen] ++ asPub ++ ct)

end BookingSystem.Service.WebPush
