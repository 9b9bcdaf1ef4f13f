import BookingSystem.Base.Utf8
import BookingSystem.Model.Saml

/-!
# What a SAML signature binds

The signed bytes are those of the `Signature` element itself, and nothing in the code ties them to the assertion that is
read (`extractSignature_of_signatureOf`). So a `Signature` that verifies can be put after any assertion
(`forged_accepted`), and it binds what is returned only if it verifies nowhere (`binds_iff`).
-/

namespace BookingSystem.Contracts.SamlBinding

open Base Model.XmlC14n Model.Saml

/-- The `Signature` element of a response. -/
def signatureOf (raw : List RawToken) : Option (List RawToken) := firstElement signature raw

section

variable {κ : Type} (rt : SamlRuntime κ) (idpCerts : List (Option κ)) (now : ℤ) (expectedAudience : List Char)

/-- **A `Signature` binds the attributes**: two responses that contain it and are both accepted, with the same audience
and clock, return the same ones. -/
def Binds (sig : List RawToken) : Prop :=
  ∀ order order' raw raw' a a', signatureOf raw = some sig → signatureOf raw' = some sig →
    handleResponse rt order idpCerts now expectedAudience raw = .ok a →
    handleResponse rt order' idpCerts now expectedAudience raw' = .ok a' → a = a'

/-- A configured certificate verifies the element. -/
def Verifies (sig : List RawToken) : Prop := ∃ order, verifyResponseSignature rt order idpCerts sig = .ok ()

/-- The text can stand in a document. -/
def Legal (text : List Char) : Prop := text.all isInCharacterRange = true

end

/-! ### The signature is read from its element alone -/

section

variable {quote : List Char → List Char} {st : Extraction} {ts sig : List RawToken}

theorem extract_of_untilClosed {n : ℕ} {inside : List RawToken} (h : untilClosed n ts = some inside)
    (hin : st.inSignature = true) (hpos : 0 < st.depth) (hle : st.depth ≤ n + 1) :
    extract quote st ts = extract quote st inside := by
  induction n, ts using untilClosed.induct generalizing st inside with
  | case1 n => cases h
  | case2 n name attrs ts ih =>
    obtain ⟨inside, hinside, rfl⟩ := Option.map_eq_some_iff.1 h
    by_cases hname : name.localName = signature
    · simp only [extract, if_pos hname, if_true]
      exact ih hinside rfl (by simp) (by simp)
    · simp only [extract, if_neg hname, hin, if_true]
      exact ih hinside rfl (by simp) (by simpa using hle)
  | case3 name ts =>
    cases h
    have hone : st.depth - 1 = 0 := by omega
    simp only [extract, hin, if_true, hone]
  | case4 n name ts ih =>
    obtain ⟨inside, hinside, rfl⟩ := Option.map_eq_some_iff.1 h
    simp only [extract, hin, if_true]
    split
    · rfl
    · rename_i hdepth
      refine ih hinside rfl (Nat.pos_of_ne_zero hdepth) ?_
      change st.depth - 1 ≤ n + 1
      omega
  | case5 n t ts ih =>
    obtain ⟨inside, hinside, rfl⟩ := Option.map_eq_some_iff.1 h
    simp only [extract, hin, if_true]
    exact ih hinside rfl hpos hle
  | case6 n ts ih =>
    obtain ⟨inside, hinside, rfl⟩ := Option.map_eq_some_iff.1 h
    simp only [extract]
    exact ih hinside hin hpos hle

theorem extract_of_signatureOf (h : signatureOf ts = some sig) (hin : st.inSignature = false) :
    extract quote st ts = extract quote st sig := by
  unfold signatureOf at h
  induction ts using firstElement.induct signature with
  | case1 => cases h
  | case2 name attrs ts hname =>
    rw [firstElement, if_pos hname] at h
    obtain ⟨inside, hinside, rfl⟩ := Option.map_eq_some_iff.1 h
    simp only [extract, if_pos hname, if_true]
    exact extract_of_untilClosed hinside rfl (by simp) (by simp)
  | case3 name attrs ts hname ih =>
    rw [firstElement, if_neg hname] at h
    simp only [extract, if_neg hname, hin]
    exact ih h
  | case4 name ts ih | case5 t ts ih =>
    simp only [extract, hin]
    exact ih h
  | case6 ts ih => exact ih h

/-- **What is verified depends on the `Signature` element alone.** -/
theorem extractSignature_of_signatureOf (h : signatureOf ts = some sig) :
    extractSignature quote ts = extractSignature quote sig := extract_of_signatureOf h rfl

end

/-! ### What an accepted response has shown -/

section

variable {κ : Type} {rt : SamlRuntime κ} {order : ℕ → ℕ} {idpCerts : List (Option κ)} {now : ℤ}
  {expectedAudience : List Char} {raw sig : List RawToken} {a : SAMLAttributes}

theorem verify_of_signatureOf (h : signatureOf raw = some sig) :
    verifyResponseSignature rt order idpCerts raw = verifyResponseSignature rt order idpCerts sig := by
  rw [verifyResponseSignature, verifyResponseSignature, extractSignature_of_signatureOf h]

theorem handleResponse_ok_iff : handleResponse rt order idpCerts now expectedAudience raw = .ok a ↔
    idpCerts ≠ [] ∧ ∃ resp, decode rt.parseTime raw = some resp ∧
      ":Success".toList <:+ resp.status.statusCode.value.chars ∧
      verifyResponseSignature rt order idpCerts raw = .ok () ∧ resp.assertion.subject.nameId.chars ≠ [] ∧
      insideTimeWindow now resp.assertion.conditions.notBefore resp.assertion.conditions.notOnOrAfter = true ∧
      (expectedAudience = [] ∨ includesAudience expectedAudience resp.assertion.conditions = true) ∧
      attributesOf resp.assertion = a := by
  simp only [handleResponse, bind_eq_ok, require_eq_ok, found_eq_ok, mapError_eq_ok, pure_eq_ok, exists_const,
    Bool.or_eq_true, List.isEmpty_iff, Bool.not_eq_true', List.isEmpty_eq_false_iff, List.isSuffixOf_iff_suffix]
  constructor
  · rintro ⟨hcerts, resp, hresp, hstatus, _, hverify, hname, hwindow, haudience, ha⟩
    exact ⟨hcerts, resp, hresp, hstatus, hverify, hname, hwindow, haudience, ha⟩
  · rintro ⟨hcerts, resp, hresp, hstatus, hverify, hname, hwindow, haudience, ha⟩
    exact ⟨hcerts, resp, hresp, hstatus, (), hverify, hname, hwindow, haudience, ha⟩

theorem verifies_of_ok (hsig : signatureOf raw = some sig)
    (h : handleResponse rt order idpCerts now expectedAudience raw = .ok a) : Verifies rt idpCerts sig := by
  obtain ⟨-, -, -, -, hverify, -⟩ := handleResponse_ok_iff.1 h
  exact ⟨order, (verify_of_signatureOf hsig).symm.trans hverify⟩

theorem legal_of_ok (h : handleResponse rt order idpCerts now expectedAudience raw = .ok a) :
    Legal expectedAudience := by
  obtain ⟨-, resp, -, -, -, -, -, haudience, -⟩ := handleResponse_ok_iff.1 h
  rcases haudience with rfl | hincludes
  · rfl
  · simp only [includesAudience, List.any_eq_true, decide_eq_true_eq] at hincludes
    obtain ⟨-, -, au, -, rfl⟩ := hincludes
    exact au.legal

end

/-! ### A response around a signature -/

def element (localName : String) (children : List XmlNode) : XmlNode := .element ⟨[], localName.toList⟩ [] children

def success : XmlText := ⟨"urn:oasis:names:tc:SAML:2.0:status:Success".toList, by decide⟩

/-- A successful response for an audience that names someone, without a signature. -/
def unsigned (nameId audience : XmlText) : XmlNode :=
  element "Response"
    [element "Status" [.element ⟨[], "StatusCode".toList⟩ [⟨⟨[], "Value".toList⟩, success⟩] []],
     element "Assertion"
       [element "Subject" [element "NameID" [.text nameId]],
        element "Conditions" [element "AudienceRestriction" [element "Audience" [.text audience]]]]]

def forged (nameId audience : XmlText) (sig : List RawToken) : List RawToken := (unsigned nameId audience).tokens ++ sig

section

variable {κ : Type} {rt : SamlRuntime κ} {order : ℕ → ℕ} {idpCerts : List (Option κ)} {now : ℤ}
  {sig : List RawToken} {nameId audience : XmlText}

theorem signatureOf_forged : signatureOf (forged nameId audience sig) = signatureOf sig := by
  have hlacks : (unsigned nameId audience).lacks signature = true := rfl
  exact firstElement_append (XmlNode.startsOther_tokens _ hlacks)

def forgedAssertion (nameId audience : XmlText) : SamlAssertion where
  subject := ⟨nameId⟩
  conditions := { audienceRestriction := [⟨[audience]⟩] }

theorem decode_forged (parseTime : List Char → Option ℤ) :
    decode parseTime (forged nameId audience sig) = some ⟨⟨⟨success⟩⟩, forgedAssertion nameId audience⟩ := by
  rw [decode, forged, unsigned, element, readRoot_root]
  rfl

/-- **A signature that verifies lets anyone in**: the response is accepted with any name. -/
theorem forged_accepted (hsig : signatureOf sig = some sig)
    (hverify : verifyResponseSignature rt order idpCerts sig = .ok ()) (hname : nameId.chars ≠ []) :
    handleResponse rt order idpCerts now audience.chars (forged nameId audience sig) =
      .ok (attributesOf (forgedAssertion nameId audience)) := by
  refine handleResponse_ok_iff.2 ⟨?_, _, decode_forged _, ?_, ?_, hname, ?_, .inr ?_, rfl⟩
  · rintro rfl
    simp [verifyResponseSignature, bind_eq_ok] at hverify
  · exact ⟨"urn:oasis:names:tc:SAML:2.0:status".toList, rfl⟩
  · rw [verify_of_signatureOf (signatureOf_forged.trans hsig)]
    exact hverify
  · simp [insideTimeWindow, forgedAssertion]
  · simp [includesAudience, forgedAssertion]

end

/-- **A signature binds the attributes iff no certificate verifies it**, or no response can name the audience; then
nothing with the signature is accepted. -/
theorem binds_iff {κ : Type} (rt : SamlRuntime κ) (idpCerts : List (Option κ)) (now : ℤ) (expectedAudience : List Char)
    (sig : List RawToken) : Binds rt idpCerts now expectedAudience sig ↔
      ¬ (signatureOf sig = some sig ∧ Verifies rt idpCerts sig ∧ Legal expectedAudience) := by
  constructor
  · rintro hbinds ⟨hsig, ⟨order, hverify⟩, hlegal⟩
    have haccepted (nameId : XmlText) (hname : nameId.chars ≠ []) :
        handleResponse rt order idpCerts now expectedAudience (forged nameId ⟨expectedAudience, hlegal⟩ sig) =
          .ok (attributesOf (forgedAssertion nameId ⟨expectedAudience, hlegal⟩)) := forged_accepted hsig hverify hname
    have hamy := haccepted ⟨"amy".toList, by decide⟩ (by decide)
    have hbob := haccepted ⟨"bob".toList, by decide⟩ (by decide)
    have hsame := hbinds order order _ _ _ _ (signatureOf_forged.trans hsig) (signatureOf_forged.trans hsig) hamy hbob
    have hnames : "amy".toList = "bob".toList := congrArg SAMLAttributes.nameId hsame
    exact absurd hnames (by decide)
  · intro h order order' raw raw' a a' hraw hraw' ha ha'
    exact absurd ⟨firstElement_self hraw, verifies_of_ok hraw ha, legal_of_ok ha⟩ h

/-! ### Two names under one signature -/

def idpSignature : XmlNode :=
  element "Signature"
    [element "SignedInfo"
       [.element ⟨[], "SignatureMethod".toList⟩
          [⟨⟨[], "Algorithm".toList⟩, ⟨"http://www.w3.org/2001/04/xmldsig-more#rsa-sha256".toList, by decide⟩⟩] [],
        element "Reference" [element "DigestValue" [.text ⟨"AAAA".toList, by decide⟩]]],
     element "SignatureValue" [.text ⟨"BBBB".toList, by decide⟩]]

def signedResponse (nameId : XmlText) : List RawToken :=
  match unsigned nameId ⟨"sp".toList, by decide⟩ with
  | .element name attrs children => (XmlNode.element name attrs (idpSignature :: children)).tokens
  | .text _ => []

/-- The library on the texts of the signature; every signature is one of the key. -/
def idpRuntime : SamlRuntime Unit where
  sha256 := id
  sha1 := id
  verifyPKCS1v15 := fun _ _ _ _ => true
  decodeString := fun s => if s = "AAAA".toList then some (List.replicate 3 (Char.ofNat 0)) else none
  quote := fun s => '"' :: s ++ ['"']
  parseTime := fun _ => none
  rawTokens := fun text =>
    if text = "<Signature><SignedInfo><SignatureMethod ".toList ++
        "Algorithm=\"http://www.w3.org/2001/04/xmldsig-more#rsa-sha256\"></SignatureMethod>".toList ++
        "<Reference><DigestValue>AAAA</DigestValue></Reference></SignedInfo>".toList ++
        "<SignatureValue>BBBB</SignatureValue></Signature>".toList
    then some idpSignature.tokens else none

theorem signatureOf_signed (nameId : XmlText) :
    signatureOf (signedResponse nameId) = some idpSignature.tokens := rfl

theorem verify_idpSignature : verifyResponseSignature idpRuntime id [some ()] idpSignature.tokens = .ok () := by
  simp only [idpRuntime, idpSignature, element, Utf8.toList_eq_chars]
  decide +kernel

theorem signed_accepted (nameId : XmlText) (hname : nameId.chars ≠ []) :
    handleResponse idpRuntime id [some ()] 0 "sp".toList (signedResponse nameId) =
      .ok (attributesOf (forgedAssertion nameId ⟨"sp".toList, by decide⟩)) := by
  refine handleResponse_ok_iff.2 ⟨by simp, ⟨⟨⟨success⟩⟩, _⟩, rfl, ?_, ?_, hname, ?_, .inr ?_, rfl⟩
  · exact ⟨"urn:oasis:names:tc:SAML:2.0:status".toList, rfl⟩
  · rw [verify_of_signatureOf (signatureOf_signed nameId)]
    exact verify_idpSignature
  · rfl
  · rfl

/-- **The assertion is not bound**: with the same signature one response is for one user and one for another. -/
theorem name_unbound :
    (∃ a a', handleResponse idpRuntime id [some ()] 0 "sp".toList (signedResponse ⟨"amy".toList, by decide⟩) = .ok a ∧
      handleResponse idpRuntime id [some ()] 0 "sp".toList (signedResponse ⟨"bob".toList, by decide⟩) = .ok a' ∧
      a.nameId = "amy".toList ∧ a'.nameId = "bob".toList) ∧
    ¬ Binds idpRuntime [some ()] 0 "sp".toList idpSignature.tokens := by
  have hamy := signed_accepted ⟨"amy".toList, by decide⟩ (by decide)
  have hbob := signed_accepted ⟨"bob".toList, by decide⟩ (by decide)
  refine ⟨⟨_, _, hamy, hbob, rfl, rfl⟩, fun hbinds => ?_⟩
  have hsame := hbinds id id _ _ _ _ (signatureOf_signed _) (signatureOf_signed _) hamy hbob
  have hnames : "amy".toList = "bob".toList := congrArg SAMLAttributes.nameId hsame
  exact absurd hnames (by decide)

end BookingSystem.Contracts.SamlBinding
