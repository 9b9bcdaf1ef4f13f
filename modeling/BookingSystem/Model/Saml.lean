import Mathlib.Logic.Function.Basic
import BookingSystem.Base.Outcome
import BookingSystem.Model.XmlC14n

/-!
# `SAMLProvider.HandleResponse`

A response is the stream of raw tokens that the XML decoder makes of the posted text. It is read twice: `xml.Decode`
matches the tags of its root element and fills `samlResponse`, by local names, an element that comes twice into the same
struct; `extractSignature` looks for the first `Signature` in the tokens, wherever they stand. The library of Go is a
parameter where the two readings do not depend on it; a time is in nanoseconds after the zero time.
-/

namespace BookingSystem.Model.Saml

open Base Model.XmlC14n

inductive HashAlg
  | sha256
  | sha1
  deriving DecidableEq, Repr

/-- What is called of the library, for public keys `κ`. -/
structure SamlRuntime (κ : Type) where
  sha256 : List Char → List Char
  sha1 : List Char → List Char
  verifyPKCS1v15 : κ → HashAlg → List Char → List Char → Bool
  /-- `base64.StdEncoding.DecodeString`. -/
  decodeString : List Char → Option (List Char)
  /-- The verb `%q`. -/
  quote : List Char → List Char
  /-- `time.Time.UnmarshalText`. -/
  parseTime : List Char → Option ℤ
  /-- The raw tokens of a text up to its end, unless there is a syntax error in it. -/
  rawTokens : List Char → Option (List RawToken)

/-! ### `samlResponse` -/

structure SamlStatusCode where
  value : XmlText := .empty

structure SamlStatus where
  statusCode : SamlStatusCode := {}

structure SamlSubject where
  nameId : XmlText := .empty

structure SamlAudienceRestrict where
  audience : List XmlText := []

structure SamlConditions where
  notBefore : ℤ := 0
  notOnOrAfter : ℤ := 0
  audienceRestriction : List SamlAudienceRestrict := []

structure SamlAttribute where
  name : XmlText := .empty
  values : List XmlText := []

structure SamlAttributeStatement where
  attributes : List SamlAttribute := []

structure SamlAssertion where
  issueInstant : ℤ := 0
  subject : SamlSubject := {}
  conditions : SamlConditions := {}
  attributeStatement : SamlAttributeStatement := {}

structure SamlResponse where
  status : SamlStatus := {}
  assertion : SamlAssertion := {}

/-! ### `xml.Decode` -/

/-- The text right inside of an element. -/
def charsOf (children : List XmlNode) : XmlText :=
  children.foldl (fun s x => match x with
    | .text t => s.append t
    | .element .. => s) .empty

section

variable {α : Type}

/-- Fills a struct from its attributes, one after the other. -/
def eachAttr (attrs : List XmlAttr) (v : α) (fill : α → List Char → XmlText → Option α) : Option α :=
  attrs.foldlM (fun v a => fill v a.name.localName a.value) v

/-- Fills a struct from its elements, one after the other. -/
def eachElement (children : List XmlNode) (v : α) (fill : α → List Char → List XmlAttr → List XmlNode → Option α) :
    Option α :=
  children.foldlM (fun v x => match x with
    | .element name attrs inner => fill v name.localName attrs inner
    | .text _ => some v) v

end

def unmarshalStatusCode (v : SamlStatusCode) (attrs : List XmlAttr) : Option SamlStatusCode :=
  eachAttr attrs v fun v name value => if name = "Value".toList then some { v with value } else some v

def unmarshalStatus (v : SamlStatus) (children : List XmlNode) : Option SamlStatus :=
  eachElement children v fun v name attrs _ =>
    if name = "StatusCode".toList then do
      let statusCode ← unmarshalStatusCode v.statusCode attrs
      some { v with statusCode }
    else some v

def unmarshalSubject (v : SamlSubject) (children : List XmlNode) : Option SamlSubject :=
  eachElement children v fun v name _ inner =>
    if name = "NameID".toList then some { v with nameId := charsOf inner } else some v

def unmarshalAudienceRestrict (v : SamlAudienceRestrict) (children : List XmlNode) : Option SamlAudienceRestrict :=
  eachElement children v fun v name _ inner =>
    if name = "Audience".toList then some { v with audience := v.audience ++ [charsOf inner] } else some v

def unmarshalAttribute (v : SamlAttribute) (attrs : List XmlAttr) (children : List XmlNode) : Option SamlAttribute := do
  let v ← eachAttr attrs v fun v name value => if name = "Name".toList then some { v with name := value } else some v
  eachElement children v fun v name _ inner =>
    if name = "AttributeValue".toList then some { v with values := v.values ++ [charsOf inner] } else some v

def unmarshalAttributeStatement (v : SamlAttributeStatement) (children : List XmlNode) :
    Option SamlAttributeStatement :=
  eachElement children v fun v name attrs inner =>
    if name = "Attribute".toList then do
      let attr ← unmarshalAttribute {} attrs inner
      some { v with attributes := v.attributes ++ [attr] }
    else some v

section

variable (parseTime : List Char → Option ℤ)

def unmarshalConditions (v : SamlConditions) (attrs : List XmlAttr) (children : List XmlNode) :
    Option SamlConditions := do
  let v ← eachAttr attrs v fun v name value =>
    if name = "NotBefore".toList then do
      let notBefore ← parseTime value.chars
      some { v with notBefore }
    else if name = "NotOnOrAfter".toList then do
      let notOnOrAfter ← parseTime value.chars
      some { v with notOnOrAfter }
    else some v
  eachElement children v fun v name _ inner =>
    if name = "AudienceRestriction".toList then do
      let ar ← unmarshalAudienceRestrict {} inner
      some { v with audienceRestriction := v.audienceRestriction ++ [ar] }
    else some v

def unmarshalAssertion (v : SamlAssertion) (attrs : List XmlAttr) (children : List XmlNode) :
    Option SamlAssertion := do
  let v ← eachAttr attrs v fun v name value =>
    if name = "IssueInstant".toList then do
      let issueInstant ← parseTime value.chars
      some { v with issueInstant }
    else some v
  eachElement children v fun v name attrs inner =>
    if name = "Subject".toList then do
      let subject ← unmarshalSubject v.subject inner
      some { v with subject }
    else if name = "Conditions".toList then do
      let conditions ← unmarshalConditions parseTime v.conditions attrs inner
      some { v with conditions }
    else if name = "AttributeStatement".toList then do
      let attributeStatement ← unmarshalAttributeStatement v.attributeStatement inner
      some { v with attributeStatement }
    else some v

/-- `dec.Decode(&resp)`. -/
def decode (raw : List RawToken) : Option SamlResponse := do
  let root ← readRoot [] raw
  if root.name.localName ≠ "Response".toList then none
  eachElement root.children {} fun v name attrs inner =>
    if name = "Status".toList then do
      let status ← unmarshalStatus v.status inner
      some { v with status }
    else if name = "Assertion".toList then do
      let assertion ← unmarshalAssertion parseTime v.assertion attrs inner
      some { v with assertion }
    else some v

end

/-! ### `verifyResponseSignature` -/

structure ExtractedSignature where
  algorithm : List Char
  signatureValue : List Char
  signedElement : List Char
  deriving DecidableEq, Repr

/-- The variables of the loop. -/
structure Extraction where
  inSignature : Bool := false
  depth : ℕ := 0
  buf : List Char := []
  alg : List Char := []
  sigValue : List Char := []

def signature : List Char := "Signature".toList

section

variable (quote : List Char → List Char)

/-- A start tag as it is written to the buffer. -/
def startTag (name : XmlName) (attrs : List XmlAttr) : List Char :=
  '<' :: name.localName ++ (attrs.flatMap fun a => ' ' :: a.name.localName ++ '=' :: quote a.value.chars) ++ ['>']

def endTag (name : XmlName) : List Char := "</".toList ++ name.localName ++ ['>']

/-- The last `Algorithm` of a `SignatureMethod`. -/
def algorithmOf (alg : List Char) (name : XmlName) (attrs : List XmlAttr) : List Char :=
  attrs.foldl (fun alg a =>
    if name.localName = "SignatureMethod".toList ∧ a.name.localName = "Algorithm".toList then a.value.chars
    else alg) alg

/-- The loop over the tokens. A `Signature` inside of another one starts the count again. -/
def extract : Extraction → List RawToken → Option ExtractedSignature
  | _, [] => none
  | st, .startElement name attrs :: ts =>
    let st := if name.localName = signature then { st with inSignature := true, depth := 0 } else st
    if st.inSignature then
      extract { st with
        depth := st.depth + 1, buf := st.buf ++ startTag quote name attrs, alg := algorithmOf st.alg name attrs } ts
    else extract st ts
  | st, .endElement name :: ts =>
    if st.inSignature then
      let st := { st with buf := st.buf ++ endTag name, depth := st.depth - 1 }
      if st.depth = 0 then some ⟨st.alg, st.sigValue, st.buf⟩ else extract st ts
    else extract st ts
  | st, .charData t :: ts =>
    if st.inSignature then
      let txt := trimSpace t.chars
      let sigValue := if txt ≠ [] ∧ st.sigValue = [] ∧ 2 ≤ st.depth then txt else st.sigValue
      extract { st with sigValue, buf := st.buf ++ t.chars } ts
    else extract st ts
  | st, .other :: ts => extract st ts

def extractSignature (raw : List RawToken) : Option ExtractedSignature := extract quote {} raw

end

inductive SignatureError
  | extract
  | c14n
  | unsupportedAlgorithm (alg : List Char)
  | decodeValue
  | notVerified
  deriving DecidableEq, Repr

section

variable {κ : Type} (rt : SamlRuntime κ) (order : ℕ → ℕ)

def canonicalize (text : List Char) : Option (List Char) := do
  let tokens ← rt.rawTokens text
  canonicalizeExclusive order [] tokens

/-- The digest of the signed bytes, by the name of the algorithm. -/
def hashed (alg signedBytes : List Char) : Option (HashAlg × List Char) :=
  if alg = "http://www.w3.org/2001/04/xmldsig-more#rsa-sha256".toList then some (.sha256, rt.sha256 signedBytes)
  else if alg = "http://www.w3.org/2000/09/xmldsig#rsa-sha1".toList then some (.sha1, rt.sha1 signedBytes)
  else none

/-- The certificates are given by their keys; `none` is a key of another kind than RSA. -/
def verifyResponseSignature (idpCerts : List (Option κ)) (raw : List RawToken) : Except SignatureError Unit := do
  let sig ← found (extractSignature rt.quote raw) .extract
  let signedBytes ← found (canonicalize rt order sig.signedElement) .c14n
  let (hashAlg, digest) ← found (hashed rt sig.algorithm signedBytes) (.unsupportedAlgorithm sig.algorithm)
  let sigBytes ← found (rt.decodeString (trimSpace sig.signatureValue)) .decodeValue
  require (idpCerts.any fun cert => cert.any fun pub => rt.verifyPKCS1v15 pub hashAlg digest sigBytes) .notVerified

/-! ### `HandleResponse` -/

abbrev RawMap := List Char → Option (List (List Char))

structure SAMLAttributes where
  nameId : List Char
  email : List Char
  givenName : List Char
  familyName : List Char
  roles : List (List Char)
  raw : RawMap

inductive SamlError
  | noCertificate
  | parse
  | status (value : List Char)
  | signature (e : SignatureError)
  | missingNameId
  | outsideTimeWindow
  | audience
  deriving DecidableEq, Repr

def halfMinute : ℤ := 30 * 1000000000

/-- The zero time is no bound. -/
def insideTimeWindow (now notBefore notOnOrAfter : ℤ) : Bool :=
  !(decide (notBefore ≠ 0 ∧ now < notBefore - halfMinute) ||
    decide (notOnOrAfter ≠ 0 ∧ notOnOrAfter + halfMinute ≤ now))

def includesAudience (expectedAudience : List Char) (c : SamlConditions) : Bool :=
  c.audienceRestriction.any fun ar => ar.audience.any fun au => decide (au.chars = expectedAudience)

def appendValues (raw : RawMap) (attr : SamlAttribute) : RawMap :=
  Function.update raw attr.name.chars (some ((raw attr.name.chars).getD [] ++ attr.values.map XmlText.chars))

def first (m : RawMap) : List String → List Char
  | [] => []
  | k :: keys =>
    match (m k.toList).getD [] with
    | [] => first m keys
    | v :: _ => if v ≠ [] then v else first m keys

/-- The projection of an assertion. -/
def attributesOf (a : SamlAssertion) : SAMLAttributes :=
  let raw := a.attributeStatement.attributes.foldl appendValues fun _ => none
  let email := first raw
    ["email", "Email", "mail", "http://schemas.xmlsoap.org/ws/2005/05/identity/claims/emailaddress"]
  { nameId := a.subject.nameId.chars
    email := if email = [] then a.subject.nameId.chars else email
    givenName := first raw ["givenName", "http://schemas.xmlsoap.org/ws/2005/05/identity/claims/givenname"]
    familyName := first raw ["sn", "surname", "http://schemas.xmlsoap.org/ws/2005/05/identity/claims/surname"]
    roles := (raw "http://schemas.microsoft.com/ws/2008/06/identity/claims/role".toList).getD []
    raw }

def handleResponse (idpCerts : List (Option κ)) (now : ℤ) (expectedAudience : List Char) (raw : List RawToken) :
    Except SamlError SAMLAttributes := do
  require (!idpCerts.isEmpty) .noCertificate
  let resp ← found (decode rt.parseTime raw) .parse
  let value := resp.status.statusCode.value.chars
  require (":Success".toList.isSuffixOf value) (.status value)
  (verifyResponseSignature rt order idpCerts raw).mapError .signature
  let a := resp.assertion
  require (!a.subject.nameId.chars.isEmpty) .missingNameId
  require (insideTimeWindow now a.conditions.notBefore a.conditions.notOnOrAfter) .outsideTimeWindow
  require (expectedAudience.isEmpty || includesAudience expectedAudience a.conditions) .audience
  return attributesOf a

end

end BookingSystem.Model.Saml
