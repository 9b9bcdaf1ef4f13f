import BookingSystem.Service.WebPush

/-!
# Push messages are read

A browser reads a message as RFC 8188 and RFC 8291 say: it takes the header apart, derives the keys from its own
private key, opens the records and takes the padding off. What `EncryptPayload` writes for its subscription it reads,
however the subscription's key and secret are spelled (`receive_encryptPayload`).
-/

namespace BookingSystem.Contracts.PushMessages

open Base.Base64 (Bytes Spelling spell)
open Service.WebPush

/-! ### The receiver -/

structure Header where
  salt : Bytes
  rs : ℕ
  keyId : Bytes
  records : Bytes

def bigEndian (bs : Bytes) : ℕ := bs.foldl (fun n b => 256 * n + b.toNat) 0

/-- The salt, the record size, the length of the key and the key. -/
def parseHeader (message : Bytes) : Option Header :=
  match message.drop 20 with
  | [] => none
  | idlen :: rest =>
    if rest.length < idlen.toNat then none
    else some ⟨message.take 16, bigEndian ((message.drop 16).take 4), rest.take idlen.toNat, rest.drop idlen.toNat⟩

def nonceOf (nonce : Bytes) (seq : ℕ) : Bytes :=
  List.zipWith (· ^^^ ·) nonce ((List.range 12).reverse.map fun i => UInt8.ofNat (seq / 256 ^ i))

/-- The zeros at the end go, and the delimiter before them. -/
def unpad (delimiter : UInt8) (padded : Bytes) : Option Bytes :=
  match padded.reverse.dropWhile (· == 0) with
  | [] => none
  | b :: rest => if b = delimiter then some rest.reverse else none

variable (P : Primitives)

/-- Records of one size, but for the last one; it alone has the delimiter 2. -/
def openRecords (cek nonce : Bytes) (rs seq : ℕ) (records : Bytes) : Option Bytes :=
  if rs < 18 then none
  else if records.length ≤ rs then do
    let padded ← P.gcmOpen cek (nonceOf nonce seq) records
    unpad 2 padded
  else do
    let padded ← P.gcmOpen cek (nonceOf nonce seq) (records.take rs)
    let content ← unpad 1 padded
    let rest ← openRecords cek nonce rs (seq + 1) (records.drop rs)
    pure (content ++ rest)
termination_by records.length
decreasing_by
  rw [List.length_drop]
  omega

def derive (prk info : Bytes) (n : ℕ) : Bytes := (P.hmac prk (info ++ [1])).1.take n

/-- What a browser with a private key and a secret reads. -/
def receive (uaPriv : P.PrivateKey) (authSecret message : Bytes) : Option Bytes := do
  let header ← parseHeader message
  let shared ← P.ecdh uaPriv header.keyId
  let prkKey := (P.hmac authSecret shared).1
  let ikm := derive P prkKey (ascii "WebPush: info" ++ [0] ++ P.publicKey uaPriv ++ header.keyId) 32
  let prk := (P.hmac header.salt ikm).1
  let cek := derive P prk (ascii "Content-Encoding: aes128gcm" ++ [0]) 16
  let nonce := derive P prk (ascii "Content-Encoding: nonce" ++ [0]) 12
  openRecords P cek nonce header.rs 0 header.records

/-- What the primitives do, with keys of 16 bytes and nonces of 12. -/
structure Laws : Prop where
  length_publicKey : ∀ k, (P.publicKey k).length = 65
  isPoint_publicKey : ∀ k, P.isPoint (P.publicKey k) = true
  ecdh_symm : ∀ a b, P.ecdh a (P.publicKey b) = P.ecdh b (P.publicKey a)
  ecdh_ne_none : ∀ a b, P.ecdh a (P.publicKey b) ≠ none
  open_seal : ∀ key nonce plaintext, key.length = 16 → nonce.length = 12 →
    P.gcmOpen key nonce (P.gcmSeal key nonce plaintext) = some plaintext
  length_seal : ∀ key nonce plaintext, key.length = 16 → nonce.length = 12 →
    (P.gcmSeal key nonce plaintext).length = plaintext.length + 16

/-! ### Subscriptions -/

theorem decodeURLOrStd_spell (s : Spelling) {bs : Bytes} (hbs : bs ≠ []) : decodeURLOrStd (spell s bs) = some bs := by
  have hown := Base.Base64.decode_spell s bs
  have hne : spell s bs ≠ [] := fun h => by
    rw [h] at hown
    obtain ⟨url, padded⟩ := s
    cases url <;> cases padded <;> exact hbs (Option.some.inj hown).symm
  have hread (s' : Spelling) : s'.decode (spell s bs) = none ∨ s'.decode (spell s bs) = some bs := by
    cases h : s'.decode (spell s bs) with
    | none => exact .inl rfl
    | some bs' => exact .inr (congrArg some (Base.Base64.eq_of_decode_spell h))
  rw [decodeURLOrStd, if_neg hne]
  change (Spelling.decode ⟨true, false⟩ _).or ((Spelling.decode ⟨true, true⟩ _).or
    ((Spelling.decode ⟨false, true⟩ _).or (Spelling.decode ⟨false, false⟩ _))) = some bs
  obtain h₁ | h₁ := hread ⟨true, false⟩
  · obtain h₂ | h₂ := hread ⟨true, true⟩
    · obtain h₃ | h₃ := hread ⟨false, true⟩
      · rw [h₁, h₂, h₃, Option.none_or, Option.none_or, Option.none_or]
        obtain ⟨url, padded⟩ := s
        cases url <;> cases padded
        · exact hown
        · rw [h₃] at hown
          cases hown
        · rw [h₁] at hown
          cases hown
        · rw [h₂] at hown
          cases hown
      · rw [h₁, h₂, h₃]
        rfl
    · rw [h₁, h₂]
      rfl
  · rw [h₁]
    rfl

theorem utf8Size_digit {c : Char} (hc : (Base.Base64.value c).isSome ∨ c = '=') : c.utf8Size = 1 := by
  have hle : c ≤ 'z' := by
    obtain hc | rfl := hc
    · unfold Base.Base64.value at hc
      split_ifs at hc with hupper hlower hdigit hplus hslash
      · exact Char.le_trans hupper.2 (by decide)
      · exact hlower.2
      · exact Char.le_trans hdigit.2 (by decide)
      · rw [hplus]
        decide
      · rw [hslash]
        decide
      · cases hc
    · decide
  exact Char.utf8Size_eq_one_iff.2 (UInt32.le_trans hle (by decide))

theorem len_spell (s : Spelling) (bs : Bytes) : len (spell s bs) = (spell s bs).length := by
  have hsize : ∀ c ∈ spell s bs, c.utf8Size = 1 := fun c hc => by
    obtain ⟨d, hd, rfl⟩ := List.mem_map.1 hc
    have hmem : d ∈ Base.Base64.encode bs := by
      split at hd
      · exact hd
      · exact (List.mem_filter.1 hd).1
    have hdigit := utf8Size_digit (Base.Base64.digits_encode bs d hmem)
    split
    · unfold Base.Base64.toUrl
      split_ifs
      · decide
      · decide
      · exact hdigit
    · exact hdigit
  have hlength {cs : List Char} (h : ∀ c ∈ cs, c.utf8Size = 1) : (Base.Utf8.encode cs).length = cs.length := by
    induction cs with
    | nil => rfl
    | cons c cs ih =>
      rw [Base.Utf8.encode, List.flatMap_cons, List.length_append, String.length_utf8EncodeChar, h c List.mem_cons_self,
        List.length_cons, Nat.add_comm]
      exact congrArg (· + 1) (ih fun d hd => h d (List.mem_cons_of_mem _ hd))
  exact hlength hsize

theorem authBypadded_spell (s : Spelling) (bs : Bytes) :
    authBypadded (spell s bs) = spell { s with padded := true } bs := by
  obtain ⟨url, padded⟩ := s
  rw [authBypadded, len_spell]
  cases padded with
  | true =>
    have hmod : (spell ⟨url, true⟩ bs).length % 4 = 0 := by
      rw [spell, List.length_map]
      exact Base.Base64.length_encode_mod bs
    rw [hmod]
    rfl
  | false =>
    have htext : spell ⟨url, true⟩ bs = spell ⟨url, false⟩ bs ++
        List.replicate ((4 - (spell ⟨url, false⟩ bs).length % 4) % 4) '=' := by
      have hpad : (if url then Base.Base64.toUrl '=' else '=') = '=' := by cases url <;> rfl
      simp only [spell, if_true, Bool.false_eq_true, if_false, List.length_map]
      rw [Base.Base64.encode_eq_append, List.map_append, List.map_replicate, hpad]
    rw [htext]
    have hlt : (spell ⟨url, false⟩ bs).length % 4 < 4 := Nat.mod_lt _ (by decide)
    generalize (spell ⟨url, false⟩ bs).length % 4 = pad at hlt
    obtain rfl | rfl | rfl | rfl : pad = 0 ∨ pad = 1 ∨ pad = 2 ∨ pad = 3 := by omega
    · exact (List.append_nil _).symm
    · rfl
    · rfl
    · rfl

/-! ### Keys -/

theorem hkdfExpand_eq (prk info : Bytes) {n : ℕ} (hn : 0 < n) (hn' : n ≤ 32) :
    hkdfExpand P prk info n = derive P prk info n := by
  have hlength : ¬ (P.hmac prk (info ++ [1])).1.length < n := by
    rw [(P.hmac prk (info ++ [1])).2]
    omega
  rw [hkdfExpand, hkdfBlocks, if_pos (show ([] : Bytes).length < n from hn), hkdfBlocks]
  dsimp only
  rw [List.nil_append, List.nil_append, if_neg hlength, derive]

theorem length_derive (prk info : Bytes) {n : ℕ} (hn : n ≤ 32) : (derive P prk info n).length = n := by
  rw [derive, List.length_take, (P.hmac prk (info ++ [1])).2]
  omega

/-! ### Records -/

theorem unpad_append (delimiter : UInt8) (h : delimiter ≠ 0) (plaintext : Bytes) (n : ℕ) :
    unpad delimiter (plaintext ++ [delimiter] ++ List.replicate n 0) = some plaintext := by
  have hdrop : (plaintext ++ [delimiter] ++ List.replicate n 0).reverse.dropWhile (· == 0) =
      delimiter :: plaintext.reverse := by
    have hzeros : ∀ b ∈ List.replicate n (0 : UInt8), (b == 0) = true := fun b hb => by
      rw [List.eq_of_mem_replicate hb]
      rfl
    rw [List.reverse_append, List.reverse_append, List.reverse_replicate, List.reverse_singleton, List.singleton_append,
      List.dropWhile_append_of_pos hzeros, List.dropWhile_cons_of_neg (by simpa using h)]
  rw [unpad, hdrop]
  dsimp only
  rw [if_pos rfl, List.reverse_reverse]

theorem nonceOf_zero {nonce : Bytes} (h : nonce.length = 12) : nonceOf nonce 0 = nonce := by
  have hzeros : ((List.range 12).reverse.map fun i => UInt8.ofNat (0 / 256 ^ i)) = List.replicate 12 0 := by decide
  have hsame (bs : Bytes) : List.zipWith (· ^^^ ·) bs (List.replicate bs.length 0) = bs := by
    induction bs with
    | nil => rfl
    | cons b bs ih => rw [List.length_cons, List.replicate_succ, List.zipWith_cons_cons, ih, UInt8.xor_zero]
  rw [nonceOf, hzeros, ← h]
  exact hsame nonce

/-! ### Messages -/

theorem parseHeader_message (salt : Salt) {key : Bytes} (hkey : key.length = 65) (records : Bytes) :
    parseHeader (salt.1 ++ putUint32 recordSize ++ [UInt8.ofNat keyIDLen] ++ key ++ records) =
      some ⟨salt.1, 4096, key, records⟩ := by
  have hassoc : salt.1 ++ putUint32 recordSize ++ [UInt8.ofNat keyIDLen] ++ key ++ records =
      salt.1 ++ (putUint32 recordSize ++ 65 :: (key ++ records)) := by
    simp only [List.append_assoc, List.singleton_append]
    rfl
  have hfirst : (salt.1 ++ putUint32 recordSize).length = 20 := by
    rw [List.length_append, salt.2]
    rfl
  have hdrop : (salt.1 ++ (putUint32 recordSize ++ 65 :: (key ++ records))).drop 20 = 65 :: (key ++ records) := by
    rw [← List.append_assoc]
    exact List.drop_left' hfirst
  have hsalt : (salt.1 ++ (putUint32 recordSize ++ 65 :: (key ++ records))).take 16 = salt.1 := List.take_left' salt.2
  have hsize : ((salt.1 ++ (putUint32 recordSize ++ 65 :: (key ++ records))).drop 16).take 4 =
      putUint32 recordSize := by
    rw [List.drop_left' salt.2]
    rfl
  have hlong : ¬ (key ++ records).length < (65 : UInt8).toNat := by
    rw [List.length_append, hkey]
    exact Nat.not_lt.2 (Nat.le_add_right _ _)
  rw [hassoc, parseHeader, hdrop]
  dsimp only
  have hidlen : (65 : UInt8).toNat = 65 := rfl
  rw [if_neg hlong, hsalt, hsize, hidlen, List.take_left' hkey, List.drop_left' hkey]
  rfl

theorem contentKeys_eq (salt authSecret shared uaPub asPub : Bytes) :
    contentKeys P salt authSecret shared uaPub asPub =
      let ikm := derive P (P.hmac authSecret shared).1 (ascii "WebPush: info" ++ [0] ++ uaPub ++ asPub) 32
      let prk := (P.hmac salt ikm).1
      (derive P prk (ascii "Content-Encoding: aes128gcm" ++ [0]) 16,
        derive P prk (ascii "Content-Encoding: nonce" ++ [0]) 12) := by
  rw [contentKeys]
  simp only [hkdfExpand_eq P _ _ (show 0 < 32 by decide) (show 32 ≤ 32 by decide),
    hkdfExpand_eq P _ _ (show 0 < 16 by decide) (show 16 ≤ 32 by decide),
    hkdfExpand_eq P _ _ (show 0 < 12 by decide) (show 12 ≤ 32 by decide)]
  have hkeyInfo : ascii "WebPush: info\x00" = ascii "WebPush: info" ++ [0] := by decide
  have hcekInfo : ascii "Content-Encoding: aes128gcm\x00" = ascii "Content-Encoding: aes128gcm" ++ [0] := by decide
  have hnonceInfo : ascii "Content-Encoding: nonce\x00" = ascii "Content-Encoding: nonce" ++ [0] := by decide
  rw [hkeyInfo, hcekInfo, hnonceInfo]
  rfl

def padded (plaintext : Bytes) : Bytes := plaintext ++ [2] ++ List.replicate (4096 - plaintext.length - 17) 0

theorem length_padded {plaintext : Bytes} (h : plaintext.length ≤ 4079) : (padded plaintext).length = 4080 := by
  rw [padded, List.length_append, List.length_append, List.length_replicate, List.length_singleton]
  omega

theorem openRecords_seal {P : Primitives} (h : Laws P) {cek nonce plaintext : Bytes} (hcek : cek.length = 16)
    (hnonce : nonce.length = 12) (hlength : plaintext.length ≤ 4079) :
    openRecords P cek nonce 4096 0 (P.gcmSeal cek nonce (padded plaintext)) = some plaintext := by
  have hrecord := h.length_seal cek nonce (padded plaintext) hcek hnonce
  rw [length_padded hlength] at hrecord
  rw [openRecords, if_neg (by decide), if_pos (by omega), nonceOf_zero hnonce, h.open_seal _ _ _ hcek hnonce]
  exact unpad_append 2 (by decide) plaintext _

/-- A plaintext that fits makes one full record. -/
theorem sealRecord_eq {cek : Bytes} (hcek : cek.length = 16) (nonce : Bytes) {plaintext : Bytes}
    (hlength : plaintext.length ≤ 4079) :
    sealRecord P cek nonce plaintext = .ok (P.gcmSeal cek nonce (padded plaintext)) := by
  have hfits : decide (plaintext.length + overhead ≤ recordSize) = true := by
    rw [decide_eq_true_eq, overhead, recordSize]
    omega
  have hkey : [16, 24, 32].contains cek.length = true := by
    rw [hcek]
    rfl
  rw [sealRecord, hfits, hkey]
  rfl

theorem sealRecord_error (cek nonce : Bytes) {plaintext : Bytes} (hlength : 4079 < plaintext.length) :
    ∃ e, sealRecord P cek nonce plaintext = .error e := by
  have hlarge : decide (plaintext.length + overhead ≤ recordSize) = false := by
    rw [decide_eq_false_iff_not, overhead, recordSize]
    omega
  rw [sealRecord, hlarge]
  exact ⟨_, rfl⟩

theorem error_bind {ε α β : Type} {f : α → Except ε β} (x : Except ε α) (h : ∀ a, ∃ e, f a = .error e) :
    ∃ e, x >>= f = .error e := by
  cases x with
  | error e => exact ⟨e, rfl⟩
  | ok a => exact h a

def messageOf (salt : Salt) (asPub record : Bytes) : Bytes :=
  salt.1 ++ putUint32 recordSize ++ [UInt8.ofNat keyIDLen] ++ asPub ++ record

section
variable {P : Primitives} (h : Laws P) (uaPriv asPriv : P.PrivateKey) (salt : Salt) {auth shared plaintext : Bytes}
  (hshared : P.ecdh asPriv (P.publicKey uaPriv) = some shared)
include h hshared

theorem encryptPayload_eq (hauth : auth.length = 16) (s s' : Spelling) {record : Bytes}
    (hrecord : let keys := contentKeys P salt.1 auth shared (P.publicKey uaPriv) (P.publicKey asPriv)
      sealRecord P keys.1 keys.2 plaintext = .ok record) :
    encryptPayload P asPriv salt (spell s (P.publicKey uaPriv)) (spell s' auth) plaintext =
      .ok (messageOf salt (P.publicKey asPriv) record) := by
  have hlength (k : P.PrivateKey) : ((P.publicKey k).length == keyIDLen) = true := by
    rw [h.length_publicKey]
    rfl
  have hauthLength : decide (8 ≤ auth.length) = true := by
    rw [hauth]
    rfl
  have hne : P.publicKey uaPriv ≠ [] := fun hnil => by
    have := h.length_publicKey uaPriv
    rw [hnil] at this
    cases this
  have hauthne : auth ≠ [] := by
    rintro rfl
    cases hauth
  dsimp only at hrecord
  simp only [encryptPayload, authBypadded_spell, decodeURLOrStd_spell s hne, decodeURLOrStd_spell _ hauthne, orError,
    require, hlength, hauthLength, h.isPoint_publicKey, hshared, hrecord, if_true, bind, Except.bind]
  rfl

theorem receive_messageOf (record : Bytes) :
    receive P uaPriv auth (messageOf salt (P.publicKey asPriv) record) =
      let keys := contentKeys P salt.1 auth shared (P.publicKey uaPriv) (P.publicKey asPriv)
      openRecords P keys.1 keys.2 4096 0 record := by
  have hread : P.ecdh uaPriv (P.publicKey asPriv) = some shared := by rw [← h.ecdh_symm, hshared]
  rw [receive, messageOf, parseHeader_message salt (h.length_publicKey asPriv), contentKeys_eq]
  change (P.ecdh uaPriv (P.publicKey asPriv)).bind _ = _
  rw [hread]
  rfl

end

/-- A payload that fits is read back from a message of one size, and a longer one is refused whatever the texts are. -/
theorem receive_encryptPayload {P : Primitives} (h : Laws P) (uaPriv asPriv : P.PrivateKey) (salt : Salt) {auth : Bytes}
    (hauth : auth.length = 16) (s s' : Spelling) (plaintext : Bytes) :
    (plaintext.length ≤ 4079 →
      ∃ message, encryptPayload P asPriv salt (spell s (P.publicKey uaPriv)) (spell s' auth) plaintext = .ok message ∧
        message.length = 86 + 4096 ∧ receive P uaPriv auth message = some plaintext) ∧
    (4079 < plaintext.length →
      ∀ p256dhB64 authB64, ∃ e, encryptPayload P asPriv salt p256dhB64 authB64 plaintext = .error e) := by
  constructor
  · intro hlength
    obtain ⟨shared, hshared⟩ := Option.ne_none_iff_exists'.1 (h.ecdh_ne_none asPriv uaPriv)
    obtain ⟨⟨cek, nonce⟩, hkeys⟩ : ∃ keys, contentKeys P salt.1 auth shared (P.publicKey uaPriv)
      (P.publicKey asPriv) = keys := ⟨_, rfl⟩
    have hderived := (contentKeys_eq P salt.1 auth shared (P.publicKey uaPriv) (P.publicKey asPriv)).symm.trans hkeys
    have hcek : cek.length = 16 := (Prod.mk.inj hderived).1 ▸ length_derive P _ _ (by decide)
    have hnonce : nonce.length = 12 := (Prod.mk.inj hderived).2 ▸ length_derive P _ _ (by decide)
    refine ⟨messageOf salt (P.publicKey asPriv) (P.gcmSeal cek nonce (padded plaintext)), ?_, ?_, ?_⟩
    · refine encryptPayload_eq h uaPriv asPriv salt hshared hauth s s' ?_
      rw [hkeys]
      exact sealRecord_eq P hcek nonce hlength
    · simp only [messageOf, List.length_append, salt.2, h.length_publicKey, h.length_seal _ _ _ hcek hnonce,
        length_padded hlength, List.length_singleton]
      rfl
    · rw [receive_messageOf h uaPriv asPriv salt hshared, hkeys]
      exact openRecords_seal h hcek hnonce hlength
  · intro hlength p256dhB64 authB64
    rw [encryptPayload]
    refine error_bind _ fun uaPub => error_bind _ fun _ => error_bind _ fun authSecret => error_bind _ fun _ =>
      error_bind _ fun _ => error_bind _ fun _ => error_bind _ fun shared => ?_
    obtain ⟨e, he⟩ := sealRecord_error P (contentKeys P salt.1 authSecret shared uaPub (P.publicKey asPriv)).1
      (contentKeys P salt.1 authSecret shared uaPub (P.publicKey asPriv)).2 hlength
    exact ⟨e, by simp only [he]; rfl⟩

/-- Keys of one byte that are multiplied, and a seal of sixteen zeros. -/
def small : Primitives where
  PrivateKey := UInt8
  publicKey k := 4 :: k :: List.replicate 63 0
  isPoint b := b.length == 65
  ecdh k
    | _ :: b :: _ => some [k * b]
    | _ => none
  hmac _ _ := ⟨List.replicate 32 0, rfl⟩
  gcmSeal _ _ plaintext := plaintext ++ List.replicate 16 0
  gcmOpen _ _ ciphertext := some (ciphertext.take (ciphertext.length - 16))

theorem small_laws : Laws small where
  length_publicKey _ := rfl
  isPoint_publicKey _ := rfl
  ecdh_symm a b := congrArg (fun c => some [c]) (UInt8.mul_comm a b)
  ecdh_ne_none _ _ := Option.some_ne_none _
  open_seal key nonce plaintext _ _ := by
    change some ((plaintext ++ List.replicate 16 0).take ((plaintext ++ List.replicate 16 0).length - 16)) =
      some plaintext
    rw [List.length_append, List.length_replicate, Nat.add_sub_cancel, List.take_left]
  length_seal _ _ _ _ _ := List.length_append

/-- A payload that ends like padding, for a subscription whose texts are spelled in two ways. -/
theorem receive_small :
    ∃ message, encryptPayload small (5 : UInt8) ⟨List.replicate 16 1, rfl⟩
        (spell ⟨true, false⟩ (small.publicKey (3 : UInt8))) (spell ⟨false, true⟩ (List.replicate 16 7)) [104, 2, 0] =
          .ok message ∧
      message.length = 86 + 4096 ∧
      receive small (3 : UInt8) (List.replicate 16 7) message = some [104, 2, 0] :=
  (receive_encryptPayload small_laws (3 : UInt8) (5 : UInt8) ⟨List.replicate 16 1, rfl⟩ rfl ⟨true, false⟩ ⟨false, true⟩
    [104, 2, 0]).1 (by decide)

end BookingSystem.Contracts.PushMessages
