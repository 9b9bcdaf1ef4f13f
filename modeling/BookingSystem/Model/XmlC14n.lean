import Mathlib.Data.List.Lex
import Mathlib.Data.List.Sort
import BookingSystem.Base.Xml
import Mathlib.Data.Char

/-!
# `CanonicalizeExclusive`

The exclusive canonical form of a fragment. `xml.Decoder` resolves the names of its raw tokens, and `c14nWriter` writes
the tokens with sorted attributes and with the namespace declarations that are used and not visible yet. Ranging over a
Go map comes in any order: the `i`-th range of a run starts where `order i` says.
-/

namespace BookingSystem.Model.XmlC14n

open Base

/-- Prefixes with their URIs, or URIs of prefixes as declared. -/
abbrev NsMap := List (List Char × List Char)

def NsMap.set (m : NsMap) (key value : List Char) : NsMap := (key, value) :: m.filter fun p => decide (p.1 ≠ key)

/-- What a Go map gives for a key that is missing, too. -/
def NsMap.get (m : NsMap) (key : List Char) : List Char := (m.lookup key).getD []

/-! ### `xml.Decoder.Token` -/

structure Attr where
  name : XmlName
  value : List Char
  deriving DecidableEq

inductive Token
  | startElement (name : XmlName) (attrs : List Attr)
  | endElement (name : XmlName)
  | charData (text : List Char)
  | other
  deriving DecidableEq

def xmlns : List Char := "xmlns".toList

def xmlURL : List Char := "http://www.w3.org/XML/1998/namespace".toList

/-- Puts the URI in the place of the prefix. -/
def translate (ns : NsMap) (n : XmlName) (isElementName : Bool) : XmlName :=
  if n.space = xmlns ∨ n.space = [] ∧ (isElementName = false ∨ n.localName = xmlns) then n
  else
    let space := if n.space = "xml".toList then xmlURL else n.space
    { n with space := (ns.lookup space).getD space }

/-- The declarations of a start tag. -/
def declare (ns : NsMap) (attrs : List XmlAttr) : NsMap :=
  attrs.foldl (fun ns a =>
    if a.name.space = xmlns then ns.set a.name.localName a.value.chars
    else if a.name.space = [] ∧ a.name.localName = xmlns then ns.set [] a.value.chars
    else ns) ns

/-- The tokens of a stream that ended well, each open element with the translations around it; `none` is a syntax
error. -/
def resolve : (opened : List (XmlName × NsMap)) → (ns : NsMap) → List RawToken → Option (List Token)
  | [], _, [] => some []
  | _ :: _, _, [] => none
  | opened, ns, .startElement name attrs :: ts =>
    let inner := declare ns attrs
    let attrs := attrs.map fun a => ⟨translate inner a.name false, a.value.chars⟩
    (resolve ((name, ns) :: opened) inner ts).map (.startElement (translate inner name true) attrs :: ·)
  | [], _, .endElement _ :: _ => none
  | (raw, outer) :: opened, ns, .endElement name :: ts =>
    if name = raw then (resolve opened outer ts).map (.endElement (translate ns name true) :: ·) else none
  | opened, ns, .charData t :: ts => (resolve opened ns ts).map (.charData t.chars :: ·)
  | opened, ns, .other :: ts => (resolve opened ns ts).map (.other :: ·)

/-! ### `c14nWriter` -/

def escapeText (s : List Char) : List Char :=
  s.flatMap fun r =>
    if r = '&' then "&amp;".toList
    else if r = '<' then "&lt;".toList
    else if r = '>' then "&gt;".toList
    else if r = '\r' then "&#xD;".toList
    else [r]

def escapeAttr (s : List Char) : List Char :=
  s.flatMap fun r =>
    if r = '&' then "&amp;".toList
    else if r = '<' then "&lt;".toList
    else if r = '"' then "&quot;".toList
    else if r = '\r' then "&#xD;".toList
    else if r = '\n' then "&#xA;".toList
    else if r = '\t' then "&#x9;".toList
    else [r]

/-- `unicode.IsSpace`. -/
def isSpace (c : Char) : Bool :=
  decide (0x09 ≤ c.toNat ∧ c.toNat ≤ 0x0D ∨ 0x2000 ≤ c.toNat ∧ c.toNat ≤ 0x200A ∨
    c.toNat ∈ [0x20, 0x85, 0xA0, 0x1680, 0x2028, 0x2029, 0x202F, 0x205F, 0x3000])

/-- `strings.TrimSpace`. -/
def trimSpace (s : List Char) : List Char := ((s.dropWhile isSpace).reverse.dropWhile isSpace).reverse

def setOf (names : List (List Char)) : List (List Char) := ((names.map trimSpace).filter fun s => s ≠ []).dedup

/-- The two stacks, the innermost first, and how many maps have been ranged over. -/
structure C14nWriter where
  out : List Char := []
  scope : List NsMap := [[]]
  rendered : List NsMap := [[]]
  ranges : ℕ := 0

def writeString (s : List Char) : StateM C14nWriter Unit := modify fun w => { w with out := w.out ++ s }

def top (stack : List NsMap) : NsMap := stack.head?.getD []

section

variable (order : ℕ → ℕ)

/-- The first prefix of the URI that the range comes by. -/
def prefixFor (uri : List Char) (scope : NsMap) : StateM C14nWriter (List Char) := do
  if uri = scope.get [] then return []
  let bound := scope.filter fun p => decide (p.1 ≠ [] ∧ p.2 = uri)
  let w ← get
  set { w with ranges := w.ranges + 1 }
  match bound[order w.ranges % bound.length]? with
  | some p => return p.1
  | none => return uri

def qname (n : XmlName) (scope : NsMap) : StateM C14nWriter (List Char) := do
  if n.space = [] then return n.localName
  let p ← prefixFor order n.space scope
  if p = [] then return n.localName else return p ++ ':' :: n.localName

/-- The default namespace comes first. -/
def prefixLe (a b : List Char) : Prop := a = [] ∨ b ≠ [] ∧ a ≤ b

instance : DecidableRel prefixLe := fun a b => inferInstanceAs (Decidable (a = [] ∨ b ≠ [] ∧ a ≤ b))

def attrLe (a b : Attr) : Prop :=
  a.name.space < b.name.space ∨ a.name.space = b.name.space ∧ a.name.localName ≤ b.name.localName

instance : DecidableRel attrLe := fun a b =>
  inferInstanceAs (Decidable (a.name.space < b.name.space ∨
    a.name.space = b.name.space ∧ a.name.localName ≤ b.name.localName))

def isDeclaration (a : Attr) : Bool := decide (a.name.space = xmlns ∨ a.name.localName = xmlns)

def declared (scope : NsMap) (attrs : List Attr) : NsMap :=
  attrs.foldl (fun scope a =>
    if a.name.space = xmlns then scope.set a.name.localName a.value
    else if a.name.localName = xmlns then scope.set [] a.value
    else scope) scope

def writeStart (inclusive : List (List Char)) (name : XmlName) (attrs : List Attr) : StateM C14nWriter Unit := do
  let w ← get
  let parentRendered := top w.rendered
  let scope := declared (top w.scope) attrs
  let attrs := attrs.filter fun a => !isDeclaration a
  set { w with scope := scope :: w.scope }
  let own ← if name.space = [] then pure [] else prefixFor order name.space scope
  let ofAttrs ← (attrs.filter fun a => decide (a.name.space ≠ [])).mapM fun a => prefixFor order a.name.space scope
  let usedPrefixes := (own :: (ofAttrs ++ inclusive)).dedup
  let elemQName ← qname order name scope
  writeString ('<' :: elemQName)
  let emit := usedPrefixes.filterMap fun p =>
    (scope.lookup p).bind fun uri => if parentRendered.get p = uri then none else some (p, uri)
  (emit.insertionSort fun a b => prefixLe a.1 b.1).forM fun p =>
    if p.1 = [] then writeString (" xmlns=\"".toList ++ escapeAttr p.2 ++ "\"".toList)
    else writeString (" xmlns:".toList ++ p.1 ++ "=\"".toList ++ escapeAttr p.2 ++ "\"".toList)
  modify fun w => { w with rendered := emit.foldl (fun m p => m.set p.1 p.2) parentRendered :: w.rendered }
  (attrs.insertionSort attrLe).forM fun a => do
    let name ← if a.name.space = [] then pure a.name.localName else do
      let p ← prefixFor order a.name.space scope
      pure (p ++ ':' :: a.name.localName)
    writeString (' ' :: name ++ "=\"".toList ++ escapeAttr a.value ++ "\"".toList)
  writeString ['>']

def writeEnd (name : XmlName) : StateM C14nWriter Unit := do
  let w ← get
  let elemQName ← qname order name (top w.scope)
  writeString ("</".toList ++ elemQName ++ ['>'])
  modify fun w => { w with scope := w.scope.tail, rendered := w.rendered.tail }

def write (inclusive : List (List Char)) : Token → StateM C14nWriter Unit
  | .startElement name attrs => writeStart order inclusive name attrs
  | .endElement name => writeEnd order name
  | .charData text => writeString (escapeText text)
  | .other => pure ()

/-- The canonical form of a stream of tokens, if it is well formed. -/
def canonicalizeExclusive (inclusive : List (List Char)) (tokens : List RawToken) : Option (List Char) :=
  (resolve [] [] tokens).map fun tokens =>
    ((tokens.forM (write order (setOf inclusive))).run {}).2.out

end

end BookingSystem.Model.XmlC14n
