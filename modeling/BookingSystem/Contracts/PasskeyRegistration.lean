import BookingSystem.Service.WebAuthn

/-!
# What a registered passkey is bound to

When a registration is answered with 204, the client's origin begins with the configured one or the other way round, the
challenge was one for this user or for none, and a credential that is there already keeps its user and its key. Together
with three conditions on what was there and what was sent this is what a registration should promise (`bound_iff`).
-/

namespace BookingSystem.Contracts.PasskeyRegistration

open Base (Keyed Table key)
open Base.Base64 (Bytes)
open Model (Instant Uuid)
open Service.WebAuthn (AuthData Challenge ClientData Credential RegisterBody Response Store attested b64URLDecode
  consumeChallenge originMatch registerFinish trimSlashes upsert)

/-! ### Origins -/

/-- A configured origin `scheme://host[:port]`. -/
structure Origin where
  scheme : List Char
  host : List Char
  port : Option (List Char)
  host_ne : host ≠ []
  host_slash : '/' ∉ host
  port_digits : ∀ p ∈ port, ∀ c ∈ p, c.isDigit = true

namespace Origin

variable (o : Origin)

def base : List Char := o.scheme ++ "://".toList ++ o.host

def portText : List Char :=
  match o.port with
  | none => []
  | some p => ':' :: p

def text : List Char := o.base ++ o.portText

end Origin

/-- What may follow the host. -/
def IsPort (r : List Char) : Prop := r = [] ∨ ∃ ds : List Char, r = ':' :: ds ∧ ∀ c ∈ ds, c.isDigit = true

theorem isPort_portText (o : Origin) : IsPort o.portText := by
  unfold Origin.portText
  cases hp : o.port with
  | none => exact .inl rfl
  | some p => exact .inr ⟨p, rfl, fun c hc => o.port_digits p hp c hc⟩

theorem IsPort.of_append {r r' : List Char} (h : IsPort (r ++ r')) : IsPort r := by
  obtain hnil | ⟨ds, hds, hdigits⟩ := h
  · exact .inl (List.append_eq_nil_iff.1 hnil).1
  · cases r with
    | nil => exact .inl rfl
    | cons c r =>
      rw [List.cons_append, List.cons.injEq] at hds
      obtain ⟨rfl, rfl⟩ := hds
      exact .inr ⟨r, rfl, fun c hc => hdigits c (List.mem_append_left _ hc)⟩

theorem trimSlashes_text (o : Origin) : trimSlashes o.text = o.text := by
  have hmem : ∀ c ∈ o.host ++ o.portText, c ≠ '/' := by
    rintro c hc rfl
    obtain hhost | hport := List.mem_append.1 hc
    · exact o.host_slash hhost
    · obtain hnil | ⟨ds, hds, hdigits⟩ := isPort_portText o
      · simp [hnil] at hport
      · rw [hds] at hport
        obtain h | h := List.mem_cons.1 hport
        · exact absurd h (by decide)
        · exact absurd (hdigits _ h) (by decide)
  have hne : o.host ++ o.portText ≠ [] := by simp [o.host_ne]
  rw [trimSlashes, List.rdropWhile_eq_self_iff]
  intro htext
  have htail : o.text = o.scheme ++ "://".toList ++ (o.host ++ o.portText) := by
    rw [Origin.text, Origin.base, List.append_assoc]
  simp only [htail, List.getLast_append_of_ne_nil _ hne, decide_eq_true_eq]
  exact hmem _ (List.getLast_mem hne)

theorem originMatch_iff (o : Origin) (got : List Char) :
    originMatch got o.text = true ↔ o.text <+: trimSlashes got ∨ trimSlashes got <+: o.text := by
  unfold originMatch
  rw [trimSlashes_text]
  simp only [List.isPrefixOf_iff_prefix, decide_eq_true_eq]
  constructor
  · rintro (h | h)
    · exact .inl (h ▸ List.prefix_rfl)
    · exact h
  · exact .inr

/-- The origin has the scheme and the host, with any port. -/
def Origin.Admits (o : Origin) (got : List Char) : Prop := ∃ r, IsPort r ∧ trimSlashes got = o.base ++ r

/-- What the origin has beyond the configured one goes on with the port, and what it lacks is no more than the port. -/
def Origin.DiffersInPort (o : Origin) (got : List Char) : Prop :=
  (∀ rest, trimSlashes got = o.text ++ rest → IsPort (o.portText ++ rest)) ∧
    ∀ rest, o.text = trimSlashes got ++ rest → rest.length ≤ o.portText.length

theorem differsInPort_of_admits {o : Origin} {got : List Char} (h : o.Admits got) : o.DiffersInPort got := by
  obtain ⟨r, hr, hgot⟩ := h
  refine ⟨fun rest hrest => ?_, fun rest hrest => ?_⟩
  · rw [hgot, Origin.text, List.append_assoc] at hrest
    exact List.append_cancel_left hrest ▸ hr
  · rw [hgot, Origin.text, List.append_assoc] at hrest
    rw [List.append_cancel_left hrest, List.length_append]
    exact Nat.le_add_left _ _

theorem admits_of_differsInPort {o : Origin} {got : List Char} (hmatch : originMatch got o.text = true)
    (h : o.DiffersInPort got) : o.Admits got := by
  obtain ⟨hmore, hless⟩ := h
  obtain ⟨rest, hrest⟩ | ⟨rest, hrest⟩ := (originMatch_iff o got).1 hmatch
  · exact ⟨_, hmore rest hrest.symm, by rw [← hrest, Origin.text, List.append_assoc]⟩
  · -- The base is a part of what is left.
    have hlen := hless rest hrest.symm
    have hbase : o.base <+: trimSlashes got := by
      refine List.prefix_of_prefix_length_le ⟨o.portText, rfl⟩ ⟨rest, hrest⟩ ?_
      have hlengths := congrArg List.length hrest
      rw [List.length_append, Origin.text, List.length_append] at hlengths
      omega
    obtain ⟨r, hr⟩ := hbase
    refine ⟨r, ?_, hr.symm⟩
    have hport : o.portText = r ++ rest := by
      rw [← hr, Origin.text, List.append_assoc] at hrest
      exact (List.append_cancel_left hrest).symm
    exact (hport ▸ isPort_portText o).of_append

/-! ### What was presented -/

def clientDataOf (parse : Bytes → Option ClientData) (body : RegisterBody) : Option ClientData :=
  (b64URLDecode body.clientDataJSON).bind parse

def authDataOf (body : RegisterBody) : Option AuthData :=
  (b64URLDecode body.attestationObject).bind fun attest =>
    match (attested attest).outcome with
    | .ok ad => some ad
    | _ => none

/-- The tenant of the request, and what its body says of the client and the authenticator. -/
def presented (parse : Bytes → Option ClientData) (tid : Option Uuid) (body : Option RegisterBody) :
    Option (Uuid × ClientData × AuthData) := do
  let tid ← tid
  let body ← body
  let cd ← clientDataOf parse body
  let ad ← authDataOf body
  pure (tid, cd, ad)

def registerPurpose : List Char := "register".toList

/-- The challenge was issued to the user for a registration. -/
def Issued (uid : Uuid) (now : Instant) (s : Store) (challenge : List Char) : Prop :=
  ∃ c, s.challenges.find? challenge = some c ∧ c.userId = some uid ∧ c.purpose = registerPurpose ∧ now < c.expiresAt

/-- The stored credential is the user's and has the key. -/
def Held (uid tid : Uuid) (ad : AuthData) (s : Store) : Prop :=
  ∃ c, s.credentials.find? (tid, ad.credentialID) = some c ∧ c.userId = uid ∧ c.publicKey = ad.coseKey

section

variable (parse : Bytes → Option ClientData) (o : Origin) (now : Instant) (uid : Uuid) (tid : Option Uuid)
  (body : Option RegisterBody) (s : Store)

/-- What a registration promises. -/
def Bound : Prop :=
  ∃ t cd ad, presented parse tid body = some (t, cd, ad) ∧ o.Admits cd.origin ∧ Issued uid now s cd.challenge ∧
    (registerFinish parse o.text now uid tid body s).2.challenges.find? cd.challenge = none ∧
    Held uid t ad (registerFinish parse o.text now uid tid body s).2

/-- What it relies on: an origin that differs in its port only, a challenge that has a user, and no credential with the
presented id but the user's own with the presented key. -/
def Sound : Prop :=
  ∀ t cd ad, presented parse tid body = some (t, cd, ad) → o.DiffersInPort cd.origin ∧
    (∀ c, s.challenges.find? cd.challenge = some c → c.userId ≠ none) ∧
    ∀ c, s.credentials.find? (t, ad.credentialID) = some c → c.userId = uid ∧ c.publicKey = ad.coseKey

end

theorem clientData_of_presented {parse : Bytes → Option ClientData} {tid : Option Uuid} {body : RegisterBody} {t : Uuid}
    {cd : ClientData} {ad : AuthData} (h : presented parse tid (some body) = some (t, cd, ad)) :
    clientDataOf parse body = some cd := by
  simp only [presented, Option.bind_eq_bind, Option.bind_eq_some_iff, Option.pure_def, Option.some.injEq] at h
  obtain ⟨t', -, body', rfl, cd', hcd, ad', -, heq⟩ := h
  cases heq
  exact hcd

/-! ### An answer with 204 -/

theorem find?_upsert (t : Table Credential) (c : Credential) :
    (upsert t c).find? (key c) =
      some (match t.find? (key c) with | none => c | some old => { old with nickname := c.nickname }) := by
  unfold upsert
  cases hinsert : t.insert? c with
  | some t' =>
    rw [Table.find?_insert? hinsert, if_pos rfl, (Table.insert?_eq_some_iff.1 hinsert).1]
  | none =>
    cases hfind : t.find? (key c) with
    | none =>
      obtain ⟨t', ht'⟩ := Table.insert?_of_find? hfind
      simp [hinsert] at ht'
    | some old =>
      rw [Table.find?_update, hfind, Option.map_some, if_pos (decide_eq_true (Table.key_of_find? hfind))]

theorem consumeChallenge_eq_ok {s s' : Store} {challenge purpose : List Char} {uid : Uuid} {now : Instant} :
    consumeChallenge s challenge purpose uid now = .ok s' ↔
      ∃ c, s.challenges.find? challenge = some c ∧ c.purpose = purpose ∧ (c.userId = none ∨ c.userId = some uid) ∧
        now < c.expiresAt ∧ s' = { s with challenges := s.challenges.delete challenge } := by
  unfold consumeChallenge
  cases s.challenges.find? challenge with
  | none => simp
  | some c =>
    simp only [Challenge.consumable, decide_eq_true_eq, Option.some.injEq, exists_eq_left']
    split
    · rename_i hc
      simp [hc, eq_comm]
    · rename_i hc
      simp only [reduceCtorEq, false_iff, not_and]
      intro hp hu he
      exact absurd ⟨hp, hu, he⟩ hc

theorem registerFinish_noContent {parse : Bytes → Option ClientData} {origin : List Char} {now : Instant} {uid : Uuid}
    {tid : Option Uuid} {body : Option RegisterBody} {s : Store}
    (h : (registerFinish parse origin now uid tid body s).1.status = 204) :
    ∃ t cd ad s' c, presented parse tid body = some (t, cd, ad) ∧
      consumeChallenge s cd.challenge registerPurpose uid now = .ok s' ∧ originMatch cd.origin origin = true ∧
      key c = (t, ad.credentialID) ∧ c.userId = uid ∧ c.publicKey = ad.coseKey ∧
      (registerFinish parse origin now uid tid body s).2 = { s' with credentials := upsert s'.credentials c } := by
  unfold registerFinish at h ⊢
  cases tid with
  | none => cases h
  | some t =>
    dsimp only at h ⊢
    split at h
    · cases h
    · rename_i huid
      rw [if_neg huid]
      cases body with
      | none => cases h
      | some body =>
        dsimp only at h ⊢
        cases hclient : b64URLDecode body.clientDataJSON with
        | none => simp [hclient] at h
        | some clientData =>
          cases hattest : b64URLDecode body.attestationObject with
          | none => simp [hclient, hattest] at h
          | some attest =>
            rw [hclient, hattest] at h
            dsimp only at h ⊢
            cases hparse : parse clientData with
            | none => simp [hparse] at h
            | some cd =>
              rw [hparse] at h
              dsimp only at h ⊢
              split at h
              · cases h
              · rename_i htype
                rw [if_neg htype]
                cases hconsume : consumeChallenge s cd.challenge "register".toList uid now with
                | error message =>
                  rw [hconsume] at h
                  cases h
                | ok s' =>
                  rw [hconsume] at h
                  dsimp only at h ⊢
                  split at h
                  · cases h
                  · rename_i horigin
                    rw [if_neg horigin]
                    cases hattested : (attested attest).outcome with
                    | panic => simp [hattested] at h
                    | error message => simp [hattested] at h
                    | ok ad =>
                      refine ⟨t, cd, ad, s', _, ?_, hconsume, by simpa using horigin, rfl, rfl, rfl, rfl⟩
                      simp [presented, clientDataOf, authDataOf, hclient, hparse, hattest, hattested]

/-- A registration that is answered with 204 keeps its promise where the three conditions hold. -/
theorem bound_iff (parse : Bytes → Option ClientData) (o : Origin) (now : Instant) (uid : Uuid) (tid : Option Uuid)
    (body : Option RegisterBody) (s : Store) (h : (registerFinish parse o.text now uid tid body s).1.status = 204) :
    Bound parse o now uid tid body s ↔ Sound parse o uid tid body s := by
  obtain ⟨t, cd, ad, s', c, hpresented, hconsume, horigin, hkey, huser, hpublic, hstore⟩ := registerFinish_noContent h
  obtain ⟨ch, hch, hpurpose, hch', hexpires, rfl⟩ := consumeChallenge_eq_ok.1 hconsume
  have hfind := find?_upsert s.credentials c
  rw [hkey] at hfind
  unfold Bound Sound
  rw [hpresented, hstore]
  constructor
  · rintro ⟨t', cd', ad', heq, hadmits, ⟨ch', hch'', huser', -, -⟩, -, cred, hcred, hown, hkey'⟩ t'' cd'' ad'' heq'
    obtain ⟨rfl, rfl, rfl⟩ : t = t' ∧ cd = cd' ∧ ad = ad' := by simpa using heq
    obtain ⟨rfl, rfl, rfl⟩ : t = t'' ∧ cd = cd'' ∧ ad = ad'' := by simpa using heq'
    refine ⟨differsInPort_of_admits hadmits, fun x hx => ?_, fun old hold => ?_⟩
    · obtain rfl : x = ch' := Option.some.inj (hx.symm.trans hch'')
      simp [huser']
    · rw [hold] at hfind
      obtain rfl : _ = cred := Option.some.inj (hfind.symm.trans hcred)
      exact ⟨hown, hkey'⟩
  · intro hsound
    obtain ⟨hport, hissued, hfree⟩ := hsound t cd ad rfl
    refine ⟨t, cd, ad, rfl, admits_of_differsInPort horigin hport, ?_, ?_, ?_⟩
    · exact ⟨ch, hch, hch'.resolve_left (hissued ch hch), hpurpose, hexpires⟩
    · exact (Table.find?_delete _ _ _).trans (if_pos rfl)
    · refine ⟨_, hfind, ?_⟩
      cases hold : s.credentials.find? (t, ad.credentialID) with
      | none => exact ⟨huser, hpublic⟩
      | some old => exact hfree old hold

/-! ### Two registrations -/

def site : Origin := ⟨"https".toList, "rooms".toList, none, by decide, by decide, by simp⟩

/-- Authenticator data with the credential id 7 and an ES256 key. -/
def authenticator : Bytes :=
  List.replicate 32 0 ++ [0x41, 0, 0, 0, 0] ++ List.replicate 16 0 ++ [0, 1, 7] ++
    [0xA4, 0x01, 0x02, 0x03, 0x26, 0x21, 0x41, 0x01, 0x22, 0x41, 0x01]

def attestation : Bytes := [0xA1, 0x68] ++ Base.Utf8.encode "authData".toList ++ [0x58, 67] ++ authenticator

def clientJSON (origin : List Char) : Bytes :=
  Base.Utf8.encode ("\x7b\"type\":\"webauthn.create\",\"challenge\":\"Yw\",\"origin\":\"".toList ++ origin ++
    "\"\x7d".toList)

def parseClient (origin : List Char) (b : Bytes) : Option ClientData :=
  if b = clientJSON origin then some ⟨"webauthn.create".toList, "Yw".toList, origin⟩ else none

def b64 (b : Bytes) : List Char := (Base.Base64.encode b).filter fun c => c ≠ '='

def registration (origin : List Char) : RegisterBody := ⟨b64 (clientJSON origin), b64 attestation, []⟩

/-- One challenge for the user `u`, and no credentials. -/
def issued : Store := ⟨⟨[⟨"Yw".toList, some "u", registerPurpose, 300⟩], by simp⟩, Table.empty⟩

theorem bound_site : Bound (parseClient "https://rooms".toList) site 0 "u" (some "t")
    (some (registration "https://rooms".toList)) issued := by
  refine (bound_iff _ _ _ _ _ _ _ (by decide +kernel)).2 fun t cd ad h => ?_
  have hclient : clientDataOf (parseClient "https://rooms".toList) (registration "https://rooms".toList) =
      some ⟨"webauthn.create".toList, "Yw".toList, "https://rooms".toList⟩ := by decide +kernel
  obtain rfl := Option.some.inj (hclient.symm.trans (clientData_of_presented h))
  refine ⟨differsInPort_of_admits ⟨[], .inl rfl, by decide⟩, fun c hfind => ?_, nofun⟩
  obtain rfl : _ = c := Option.some.inj hfind
  nofun

/-- A host that begins with the configured one is taken for it. -/
theorem other_host_registers :
    (registerFinish (parseClient "https://rooms.evil".toList) site.text 0 "u" (some "t")
      (some (registration "https://rooms.evil".toList)) issued).1.status = 204 ∧
      ¬ Bound (parseClient "https://rooms.evil".toList) site 0 "u" (some "t")
        (some (registration "https://rooms.evil".toList)) issued := by
  refine ⟨by decide +kernel, ?_⟩
  rintro ⟨t, cd, ad, h, ⟨r, hr, hgot⟩, -⟩
  have hclient : clientDataOf (parseClient "https://rooms.evil".toList) (registration "https://rooms.evil".toList) =
      some ⟨"webauthn.create".toList, "Yw".toList, "https://rooms.evil".toList⟩ := by decide +kernel
  obtain rfl := Option.some.inj (hclient.symm.trans (clientData_of_presented h))
  have hrest : site.base ++ ".evil".toList = site.base ++ r := (hgot.symm.trans (by decide)).symm
  rw [← List.append_cancel_left hrest] at hr
  obtain hnil | ⟨ds, hds, -⟩ := hr
  · exact absurd hnil (by decide)
  · exact absurd hds (by simp)

end BookingSystem.Contracts.PasskeyRegistration
