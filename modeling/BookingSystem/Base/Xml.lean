import Mathlib.Tactic.Common

/-!
# Tokens and elements of XML

A document is the stream of raw tokens that a decoder makes of its text: an empty element is a start and an end, names
are not resolved, and nothing is matched. `readRoot` matches the tags and gives the tree of the first element, and
`firstElement` the tokens of the first element that bears a name.
-/

namespace BookingSystem.Base

/-- A name as it is written, before and after the colon. -/
structure XmlName where
  space : List Char
  localName : List Char
  deriving DecidableEq

/-- The characters that a document may hold. -/
def isInCharacterRange (c : Char) : Bool :=
  decide (c.toNat = 0x09 ∨ c.toNat = 0x0A ∨ c.toNat = 0x0D ∨ 0x20 ≤ c.toNat ∧ c.toNat ≤ 0xD7FF ∨
    0xE000 ≤ c.toNat ∧ c.toNat ≤ 0xFFFD ∨ 0x10000 ≤ c.toNat ∧ c.toNat ≤ 0x10FFFF)

/-- A text of a document, with its entities resolved. -/
structure XmlText where
  chars : List Char
  legal : chars.all isInCharacterRange = true
  deriving DecidableEq

def XmlText.empty : XmlText := ⟨[], rfl⟩

def XmlText.append (s t : XmlText) : XmlText := ⟨s.chars ++ t.chars, by rw [List.all_append, s.legal, t.legal]; rfl⟩

structure XmlAttr where
  name : XmlName
  value : XmlText
  deriving DecidableEq

/-- A token; a comment, a processing instruction and a directive are `other`. -/
inductive RawToken
  | startElement (name : XmlName) (attrs : List XmlAttr)
  | endElement (name : XmlName)
  | charData (text : XmlText)
  | other
  deriving DecidableEq

/-! ### Trees -/

inductive XmlNode
  | element (name : XmlName) (attrs : List XmlAttr) (children : List XmlNode)
  | text (t : XmlText)

namespace XmlNode

mutual

def tokens : XmlNode → List RawToken
  | element name attrs children => .startElement name attrs :: (tokensOf children ++ [.endElement name])
  | text t => [.charData t]

def tokensOf : List XmlNode → List RawToken
  | [] => []
  | x :: xs => tokens x ++ tokensOf xs

end

end XmlNode

/-- An element that is not closed yet. -/
structure OpenElement where
  name : XmlName
  attrs : List XmlAttr
  children : List XmlNode

namespace OpenElement

def add (e : OpenElement) (x : XmlNode) : OpenElement := { e with children := e.children ++ [x] }

def close (e : OpenElement) : XmlNode := .element e.name e.attrs e.children

end OpenElement

/-- The first element, read with the elements that are open, the innermost first. Nothing after it is read. -/
def readRoot : List OpenElement → List RawToken → Option OpenElement
  | _, [] => none
  | opened, .other :: ts => readRoot opened ts
  | opened, .startElement name attrs :: ts => readRoot (⟨name, attrs, []⟩ :: opened) ts
  | [], .charData _ :: ts => readRoot [] ts
  | e :: opened, .charData t :: ts => readRoot (e.add (.text t) :: opened) ts
  | [], .endElement _ :: _ => none
  | e :: opened, .endElement name :: ts =>
    if name = e.name then
      match opened with
      | [] => some e
      | parent :: opened => readRoot (parent.add e.close :: opened) ts
    else none

mutual

/-- The tokens of a tree are read as the tree. -/
theorem readRoot_tokens (e : OpenElement) (opened : List OpenElement) (ts : List RawToken) :
    ∀ x : XmlNode, readRoot (e :: opened) (x.tokens ++ ts) = readRoot (e.add x :: opened) ts
  | .text t => rfl
  | .element name attrs children => by
    rw [XmlNode.tokens, List.cons_append, List.append_assoc, readRoot,
      readRoot_tokensOf ⟨name, attrs, []⟩ (e :: opened) _ children]
    rw [List.singleton_append, readRoot, if_pos rfl]
    rfl

theorem readRoot_tokensOf (e : OpenElement) (opened : List OpenElement) (ts : List RawToken) :
    ∀ xs : List XmlNode, readRoot (e :: opened) (XmlNode.tokensOf xs ++ ts) =
      readRoot ({ e with children := e.children ++ xs } :: opened) ts
  | [] => by simp [XmlNode.tokensOf]
  | x :: xs => by
    rw [XmlNode.tokensOf, List.append_assoc, readRoot_tokens e opened _ x, readRoot_tokensOf (e.add x) opened ts xs]
    simp [OpenElement.add]

end

theorem readRoot_root (name : XmlName) (attrs : List XmlAttr) (children : List XmlNode) (ts : List RawToken) :
    readRoot [] ((XmlNode.element name attrs children).tokens ++ ts) = some ⟨name, attrs, children⟩ := by
  rw [XmlNode.tokens, List.cons_append, List.append_assoc, readRoot, readRoot_tokensOf, List.singleton_append, readRoot,
    if_pos rfl]
  rfl

/-! ### The first element of a name -/

/-- The tokens up to the end of the outermost of `n + 1` elements that are open. -/
def untilClosed : (n : ℕ) → List RawToken → Option (List RawToken)
  | _, [] => none
  | n, .startElement name attrs :: ts => (untilClosed (n + 1) ts).map (.startElement name attrs :: ·)
  | 0, .endElement name :: _ => some [.endElement name]
  | n + 1, .endElement name :: ts => (untilClosed n ts).map (.endElement name :: ·)
  | n, .charData t :: ts => (untilClosed n ts).map (.charData t :: ·)
  | n, .other :: ts => (untilClosed n ts).map (.other :: ·)

def firstElement (localName : List Char) : List RawToken → Option (List RawToken)
  | [] => none
  | .startElement name attrs :: ts =>
    if name.localName = localName then (untilClosed 0 ts).map (.startElement name attrs :: ·)
    else firstElement localName ts
  | .endElement _ :: ts | .charData _ :: ts | .other :: ts => firstElement localName ts

/-- The token does not start an element of the name. -/
def RawToken.StartsOther (localName : List Char) : RawToken → Prop
  | .startElement name _ => name.localName ≠ localName
  | .endElement _ | .charData _ | .other => True

namespace XmlNode

mutual

/-- No element of the tree bears the name. -/
def lacks (localName : List Char) : XmlNode → Bool
  | element name _ children => decide (name.localName ≠ localName) && lacksAll localName children
  | text _ => true

def lacksAll (localName : List Char) : List XmlNode → Bool
  | [] => true
  | x :: xs => lacks localName x && lacksAll localName xs

end

mutual

theorem startsOther_tokens {localName : List Char} :
    ∀ x : XmlNode, x.lacks localName = true → ∀ t ∈ x.tokens, t.StartsOther localName
  | text _, _ => by simp [tokens, RawToken.StartsOther]
  | element name attrs children, h => by
    rw [lacks, Bool.and_eq_true, decide_eq_true_eq] at h
    intro t ht
    rw [tokens, List.mem_cons, List.mem_append, List.mem_singleton] at ht
    rcases ht with rfl | ht | rfl
    · exact h.1
    · exact startsOther_tokensOf children h.2 t ht
    · trivial

theorem startsOther_tokensOf {localName : List Char} :
    ∀ xs : List XmlNode, lacksAll localName xs = true → ∀ t ∈ tokensOf xs, t.StartsOther localName
  | [], _ => by simp [tokensOf]
  | x :: xs, h => by
    rw [lacksAll, Bool.and_eq_true] at h
    intro t ht
    rw [tokensOf, List.mem_append] at ht
    rcases ht with ht | ht
    · exact startsOther_tokens x h.1 t ht
    · exact startsOther_tokensOf xs h.2 t ht

end

end XmlNode

theorem untilClosed_self {n : ℕ} {ts inside : List RawToken} (h : untilClosed n ts = some inside) :
    untilClosed n inside = some inside := by
  induction n, ts using untilClosed.induct generalizing inside with
  | case1 n => cases h
  | case2 n name attrs ts ih | case4 n name ts ih | case5 n t ts ih | case6 n ts ih =>
    obtain ⟨inside, hinside, rfl⟩ := Option.map_eq_some_iff.1 h
    rw [untilClosed, ih hinside]
    rfl
  | case3 name ts =>
    cases h
    rfl

variable {localName : List Char} {pre ts e : List RawToken}

theorem firstElement_self (h : firstElement localName ts = some e) : firstElement localName e = some e := by
  induction ts using firstElement.induct localName with
  | case1 => cases h
  | case2 name attrs ts hname =>
    rw [firstElement, if_pos hname] at h
    obtain ⟨inside, hinside, rfl⟩ := Option.map_eq_some_iff.1 h
    rw [firstElement, if_pos hname, untilClosed_self hinside]
    rfl
  | case3 name attrs ts hname ih =>
    rw [firstElement, if_neg hname] at h
    exact ih h
  | case4 | case5 | case6 => simp_all [firstElement]

theorem firstElement_append (hpre : ∀ t ∈ pre, t.StartsOther localName) :
    firstElement localName (pre ++ ts) = firstElement localName ts := by
  induction pre with
  | nil => rfl
  | cons t pre ih =>
    have hrest := ih fun u hu => hpre u (List.mem_cons_of_mem _ hu)
    cases t with
    | startElement name attrs =>
      have hname : name.localName ≠ localName := hpre _ List.mem_cons_self
      rw [List.cons_append, firstElement, if_neg hname, hrest]
    | endElement | charData | other => exact hrest

end BookingSystem.Base
