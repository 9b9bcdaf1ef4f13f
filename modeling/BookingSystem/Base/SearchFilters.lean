import BookingSystem.Base.Folding
import BookingSystem.Base.Utf8

/-!
# Search filters of directories

The texts of RFC 4515: filters between parentheses, that are items or are made of filters with and, or and not. A forest
(`Filters`) has the filters that stand one after another. Whatever is read from a text, its items are the pieces between
the parentheses (`pieces_text`), and there are as many filters as parentheses (`count_open_text`).
-/

namespace BookingSystem.Base.SearchFilters

/-! ### Values -/

def nul : Char := Char.ofNat 0

/-- A character that stands for itself in a value. -/
def isNormal (c : Char) : Bool := !(['(', ')', '*', '\\', nul].contains c)

def isHexDigit (c : Char) : Bool := c.isDigit || 'a' ≤ c && c ≤ 'f' || 'A' ≤ c && c ≤ 'F'

def hexValue (c : Char) : ℕ :=
  if c.isDigit then c.toNat - '0'.toNat
  else if 'a' ≤ c then c.toNat - 'a'.toNat + 10
  else c.toNat - 'A'.toNat + 10

/-- Characters that stand for themselves, and backslashes with two hexadecimal digits. -/
def isValue : List Char → Bool
  | [] => true
  | c :: s =>
    if c = '\\' then
      match s with
      | a :: b :: s => isHexDigit a && isHexDigit b && isValue s
      | _ => false
    else isNormal c && isValue s

def Value := { s : List Char // isValue s = true }

/-- The octets that a value stands for. -/
def octets : List Char → List UInt8
  | [] => []
  | c :: s =>
    if c = '\\' then
      match s with
      | a :: b :: s => UInt8.ofNat (16 * hexValue a + hexValue b) :: octets s
      | _ => []
    else String.utf8EncodeChar c ++ octets s

/-! ### Attributes -/

def isKeyChar (c : Char) : Bool := c.isAlphanum || c == '-'

def isDescriptor : List Char → Bool
  | [] => false
  | c :: s => c.isAlpha && s.all isKeyChar

def isNumber : List Char → Bool
  | [] => false
  | c :: s => c.isDigit && s.all Char.isDigit && (c != '0' || s == [])

def isOid (s : List Char) : Bool :=
  isDescriptor s || decide (2 ≤ (s.splitOn '.').length) && (s.splitOn '.').all isNumber

/-- A type and its options. -/
def isAttribute (s : List Char) : Bool :=
  match s.splitOn ';' with
  | [] => false
  | type :: options => isOid type && options.all fun p => p != [] && p.all isKeyChar

def Oid := { s : List Char // isOid s = true }

def Attribute := { s : List Char // isAttribute s = true }

/-! ### Items -/

inductive Relation where
  | equal
  | approx
  | greaterOrEqual
  | lessOrEqual

def Relation.text : Relation → List Char
  | .equal => "=".toList
  | .approx => "~=".toList
  | .greaterOrEqual => ">=".toList
  | .lessOrEqual => "<=".toList

/-- Items by their values, as texts or as octets; a substring that is empty is not there. -/
inductive Item (ν : Type) where
  | simple (a : Attribute) (rel : Relation) (value : ν)
  | present (a : Attribute)
  | substrings (a : Attribute) (initial : ν) (any : List ν) (final : ν)
  | extensible (a : Attribute) (dn : Bool) (rule : Option Oid) (value : ν)
  | byRule (dn : Bool) (rule : Oid) (value : ν)

namespace Item

def map {ν ν' : Type} (f : ν → ν') : Item ν → Item ν'
  | simple a rel v => simple a rel (f v)
  | present a => present a
  | substrings a initial any final => substrings a (f initial) (any.map f) (f final)
  | extensible a dn rule v => extensible a dn rule (f v)
  | byRule dn rule v => byRule dn rule (f v)

def dnText (dn : Bool) : List Char := if dn then ":dn".toList else []

def text : Item Value → List Char
  | simple a rel v => a.1 ++ rel.text ++ v.1
  | present a => a.1 ++ "=*".toList
  | substrings a initial any final =>
    a.1 ++ "=".toList ++ initial.1 ++ "*".toList ++ any.flatMap (fun v => v.1 ++ "*".toList) ++ final.1
  | extensible a dn rule v => a.1 ++ dnText dn ++ rule.elim [] (fun r => ':' :: r.1) ++ ":=".toList ++ v.1
  | byRule dn rule v => dnText dn ++ ':' :: rule.1 ++ ":=".toList ++ v.1

/-- A star alone is no substring, it asks for presence. -/
def Meaningful : Item Value → Prop
  | substrings _ initial any final => initial.1 ≠ [] ∨ any ≠ [] ∨ final.1 ≠ []
  | _ => True

def tree : Item Value → Item (List UInt8) := map fun v => octets v.1

end Item

/-! ### Filters -/

inductive Op where
  | and
  | or
  | not

def Op.char : Op → Char
  | .and => '&'
  | .or => '|'
  | .not => '!'

/-- Filters one after another, by their items. -/
inductive Filters (ι : Type) where
  | nil
  | item (i : ι) (rest : Filters ι)
  | node (op : Op) (inner rest : Filters ι)

namespace Filters

variable {ι κ : Type}

def map (f : ι → κ) : Filters ι → Filters κ
  | nil => nil
  | item i rest => item (f i) (rest.map f)
  | node op inner rest => node op (inner.map f) (rest.map f)

/-- The items from left to right. -/
def items : Filters ι → List ι
  | nil => []
  | item i rest => i :: rest.items
  | node _ inner rest => inner.items ++ rest.items

/-- How many filters stand side by side. -/
def length : Filters ι → ℕ
  | nil => 0
  | item _ rest => rest.length + 1
  | node _ _ rest => rest.length + 1

/-- How many filters there are at any depth. -/
def size : Filters ι → ℕ
  | nil => 0
  | item _ rest => rest.size + 1
  | node _ inner rest => inner.size + rest.size + 1

/-- And and or have filters in them, not has one. -/
def WellFormed (P : ι → Prop) : Filters ι → Prop
  | nil => True
  | item i rest => P i ∧ rest.WellFormed P
  | node op inner rest =>
    (if op matches .not then inner.length = 1 else 1 ≤ inner.length) ∧ inner.WellFormed P ∧ rest.WellFormed P

def text : Filters (List Char) → List Char
  | nil => []
  | item i rest => '(' :: i ++ ')' :: rest.text
  | node op inner rest => '(' :: op.char :: inner.text ++ ')' :: rest.text

end Filters

/-- One filter of RFC 4515. -/
def IsFilter (fs : Filters (Item Value)) : Prop := fs.length = 1 ∧ fs.WellFormed Item.Meaningful

/-! ### Characters of items -/

/-- Neither a parenthesis nor NUL, which items do not have. -/
def Plain (c : Char) : Prop := c ∉ ['(', ')', nul]

instance (c : Char) : Decidable (Plain c) := inferInstanceAs (Decidable (c ∉ _))

theorem plain_of_test {p : Char → Bool} (h : ['(', ')', nul].all (fun c => !p c) = true) {c : Char} (hc : p c = true) :
    Plain c := fun hmem => by
  have := List.all_eq_true.1 h c hmem
  rw [hc] at this
  cases this

theorem plain_of_mem_value {s : List Char} (h : isValue s = true) {c : Char} (hc : c ∈ s) : Plain c := by
  fun_induction isValue s with
  | case1 => cases hc
  | case2 a b s ih =>
    simp only [Bool.and_eq_true] at h
    obtain ⟨⟨ha, hb⟩, hs⟩ := h
    simp only [List.mem_cons] at hc
    obtain rfl | rfl | rfl | hc := hc
    · exact plain_of_test (p := (· == '\\')) (by decide) rfl
    · exact plain_of_test (p := isHexDigit) (by decide) ha
    · exact plain_of_test (p := isHexDigit) (by decide) hb
    · exact ih hs hc
  | case3 => cases h
  | case4 d s hd ih =>
    rw [Bool.and_eq_true] at h
    obtain rfl | hc := List.mem_cons.1 hc
    · exact plain_of_test (p := isNormal) (by decide) h.1
    · exact ih h.2 hc

theorem plain_of_mem_oid {s : List Char} (h : isOid s = true) {c : Char} (hc : c ∈ s) : Plain c := by
  rw [isOid, Bool.or_eq_true, Bool.and_eq_true, List.all_eq_true] at h
  obtain h | ⟨-, h⟩ := h
  · cases s with
    | nil => cases hc
    | cons d s =>
      rw [isDescriptor, Bool.and_eq_true, List.all_eq_true] at h
      obtain rfl | hc := List.mem_cons.1 hc
      · exact plain_of_test (p := Char.isAlpha) (by decide) h.1
      · exact plain_of_test (p := isKeyChar) (by decide) (h.2 c hc)
  · obtain rfl | ⟨p, hp, hc⟩ := Coding.mem_or_mem_splitOn (a := '.') hc
    · exact plain_of_test (p := (· == '.')) (by decide) rfl
    · have hnumber := h p hp
      cases p with
      | nil => cases hc
      | cons d p =>
        simp only [isNumber, Bool.and_eq_true, List.all_eq_true] at hnumber
        obtain rfl | hc := List.mem_cons.1 hc
        · exact plain_of_test (p := Char.isDigit) (by decide) hnumber.1.1
        · exact plain_of_test (p := Char.isDigit) (by decide) (hnumber.1.2 c hc)

theorem plain_of_mem_attribute {s : List Char} (h : isAttribute s = true) {c : Char} (hc : c ∈ s) : Plain c := by
  unfold isAttribute at h
  obtain rfl | ⟨p, hp, hc⟩ := Coding.mem_or_mem_splitOn (a := ';') hc
  · exact plain_of_test (p := (· == ';')) (by decide) rfl
  · split at h
    · cases h
    · rename_i type options hsplit
      rw [hsplit] at hp
      rw [Bool.and_eq_true, List.all_eq_true] at h
      obtain rfl | hp := List.mem_cons.1 hp
      · exact plain_of_mem_oid h.1 hc
      · have hoption := h.2 p hp
        rw [Bool.and_eq_true, List.all_eq_true] at hoption
        exact plain_of_test (p := isKeyChar) (by decide) (hoption.2 c hc)

theorem Attribute.ne_nil (a : Attribute) : a.1 ≠ [] := fun h => by
  have := a.2
  rw [h] at this
  cases this

namespace Item

theorem plain_of_mem_text {i : Item Value} {c : Char} (hc : c ∈ i.text) : Plain c := by
  have hword {s : List Char} (hs : ['(', ')', nul].all (fun c => !s.contains c) = true) (hc : c ∈ s) : Plain c :=
    plain_of_test (p := s.contains) hs (List.contains_iff_mem.2 hc)
  have hdn {dn : Bool} (hc : c ∈ dnText dn) : Plain c := by
    cases dn with
    | false => cases hc
    | true => exact hword (by decide) hc
  cases i with
  | simple a rel v =>
    simp only [text, List.mem_append] at hc
    obtain (hc | hc) | hc := hc
    · exact plain_of_mem_attribute a.2 hc
    · cases rel <;> exact hword (by decide) hc
    · exact plain_of_mem_value v.2 hc
  | present a =>
    simp only [text, List.mem_append] at hc
    obtain hc | hc := hc
    · exact plain_of_mem_attribute a.2 hc
    · exact hword (by decide) hc
  | substrings a initial any final =>
    simp only [text, List.mem_append, List.mem_flatMap] at hc
    obtain ((((hc | hc) | hc) | hc) | ⟨v, -, hc | hc⟩) | hc := hc
    · exact plain_of_mem_attribute a.2 hc
    · exact hword (by decide) hc
    · exact plain_of_mem_value initial.2 hc
    · exact hword (by decide) hc
    · exact plain_of_mem_value v.2 hc
    · exact hword (by decide) hc
    · exact plain_of_mem_value final.2 hc
  | extensible a dn rule v =>
    simp only [text, List.mem_append] at hc
    obtain (((hc | hc) | hc) | hc) | hc := hc
    · exact plain_of_mem_attribute a.2 hc
    · exact hdn hc
    · cases rule with
      | none => cases hc
      | some r =>
        obtain rfl | hc := List.mem_cons.1 hc
        · exact hword (s := [':']) (by decide) (List.mem_singleton_self _)
        · exact plain_of_mem_oid r.2 hc
    · exact hword (by decide) hc
    · exact plain_of_mem_value v.2 hc
  | byRule dn rule v =>
    simp only [text, List.mem_append, List.mem_cons] at hc
    obtain ((hc | rfl | hc) | hc) | hc := hc
    · exact hdn hc
    · exact hword (s := [':']) (by decide) (List.mem_singleton_self _)
    · exact plain_of_mem_oid rule.2 hc
    · exact hword (by decide) hc
    · exact plain_of_mem_value v.2 hc

/-- An item is longer than the sign of an operation. -/
theorem two_le_length_text (i : Item Value) : 2 ≤ i.text.length := by
  have hattribute (a : Attribute) : 1 ≤ a.1.length := List.length_pos_iff.2 a.ne_nil
  cases i with
  | simple a rel v =>
    have := hattribute a
    have hrel : 1 ≤ rel.text.length := by cases rel <;> decide
    simp only [text, List.length_append]
    omega
  | present a =>
    simp [text]
  | substrings a initial any final =>
    simp [text]
    omega
  | extensible a dn rule v =>
    simp [text]
    omega
  | byRule dn rule v =>
    simp [text]
    omega

end Item

/-! ### Forests -/

namespace Filters

variable {ι κ μ : Type}

theorem items_map (f : ι → κ) (fs : Filters ι) : (fs.map f).items = fs.items.map f := by
  induction fs with
  | nil => rfl
  | item i rest ih => rw [map, items, items, ih, List.map_cons]
  | node op inner rest ihinner ihrest => rw [map, items, items, ihinner, ihrest, List.map_append]

theorem size_map (f : ι → κ) (fs : Filters ι) : (fs.map f).size = fs.size := by
  induction fs with
  | nil => rfl
  | item i rest ih => rw [map, size, size, ih]
  | node op inner rest ihinner ihrest => rw [map, size, size, ihinner, ihrest]

theorem length_map (f : ι → κ) (fs : Filters ι) : (fs.map f).length = fs.length := by
  induction fs with
  | nil => rfl
  | item i rest ih => rw [map, length, length, ih]
  | node op inner rest ihinner ihrest => rw [map, length, length, ihrest]

theorem map_map (f : ι → κ) (g : κ → μ) (fs : Filters ι) : (fs.map f).map g = fs.map (g ∘ f) := by
  induction fs with
  | nil => rfl
  | item i rest ih => rw [map, map, map, ih, Function.comp_apply]
  | node op inner rest ihinner ihrest => rw [map, map, map, ihinner, ihrest]

theorem map_congr {f g : ι → κ} {fs : Filters ι} (h : ∀ i ∈ fs.items, f i = g i) : fs.map f = fs.map g := by
  induction fs with
  | nil => rfl
  | item i rest ih =>
    rw [map, map, h i List.mem_cons_self, ih fun j hj => h j (List.mem_cons_of_mem _ hj)]
  | node op inner rest ihinner ihrest =>
    rw [map, map, ihinner fun j hj => h j (List.mem_append_left _ hj),
      ihrest fun j hj => h j (List.mem_append_right _ hj)]

theorem wellFormed_map {P : κ → Prop} {f : ι → κ} (fs : Filters ι) :
    (fs.map f).WellFormed P ↔ fs.WellFormed (fun i => P (f i)) := by
  induction fs with
  | nil => rfl
  | item i rest ih => rw [map, WellFormed, WellFormed, ih]
  | node op inner rest ihinner ihrest => simp only [map, WellFormed, ihinner, ihrest, length_map]

theorem mem_text {fs : Filters (List Char)} {c : Char} (h : c ∈ fs.text) :
    c ∈ ['(', ')', '&', '|', '!'] ∨ ∃ i ∈ fs.items, c ∈ i := by
  induction fs with
  | nil => cases h
  | item i rest ih =>
    simp only [text, List.cons_append, List.mem_cons, List.mem_append] at h
    obtain rfl | h | rfl | h := h
    · exact .inl (by decide)
    · exact .inr ⟨i, List.mem_cons_self, h⟩
    · exact .inl (by decide)
    · obtain h | ⟨j, hj, h⟩ := ih h
      · exact .inl h
      · exact .inr ⟨j, List.mem_cons_of_mem _ hj, h⟩
  | node op inner rest ihinner ihrest =>
    simp only [text, List.cons_append, List.mem_cons, List.mem_append] at h
    obtain rfl | rfl | h | rfl | h := h
    · exact .inl (by decide)
    · cases op <;> exact .inl (by decide)
    · obtain h | ⟨j, hj, h⟩ := ihinner h
      · exact .inl h
      · exact .inr ⟨j, List.mem_append_left _ hj, h⟩
    · exact .inl (by decide)
    · obtain h | ⟨j, hj, h⟩ := ihrest h
      · exact .inl h
      · exact .inr ⟨j, List.mem_append_right _ hj, h⟩

/-- There are as many parentheses that open, and that close, as filters. -/
theorem count_text {fs : Filters (List Char)} {c : Char} (hc : c = '(' ∨ c = ')') (h : ∀ i ∈ fs.items, c ∉ i) :
    fs.text.count c = fs.size := by
  induction fs with
  | nil => rfl
  | item i rest ih =>
    have hi : i.count c = 0 := List.count_eq_zero_of_not_mem (h i List.mem_cons_self)
    have hrest := ih fun j hj => h j (List.mem_cons_of_mem _ hj)
    rw [text, List.cons_append, List.count_cons, List.count_append, List.count_cons, hi, hrest, size]
    obtain rfl | rfl := hc <;> simp
  | node op inner rest ihinner ihrest =>
    have hinner := ihinner fun j hj => h j (List.mem_append_left _ hj)
    have hrest := ihrest fun j hj => h j (List.mem_append_right _ hj)
    have hop : (op.char == c) = false := by
      cases op <;> obtain rfl | rfl := hc <;> decide
    rw [text, List.cons_append, List.cons_append, List.count_cons, List.count_cons, List.count_append, List.count_cons,
      hinner, hrest, hop, size]
    obtain rfl | rfl := hc <;> simp [Nat.add_assoc]

def isParen (c : Char) : Bool := c == '(' || c == ')'

/-- What stands between parentheses, without the signs of operations. -/
def pieces (s : List Char) : List (List Char) := (s.splitOnP isParen).filter fun p => decide (2 ≤ p.length)

theorem pieces_append {c : Char} (hc : isParen c = true) (s t : List Char) :
    pieces (s ++ c :: t) = pieces s ++ pieces t := by
  rw [pieces, List.splitOnP_append_cons s t hc, List.filter_append]
  rfl

theorem pieces_cons {c : Char} (hc : isParen c = true) (s : List Char) : pieces (c :: s) = pieces s :=
  pieces_append hc [] s

theorem isParen_eq_false {s : List Char} (h : '(' ∉ s ∧ ')' ∉ s) : ∀ c ∈ s, isParen c = false := by
  intro c hc
  rw [← Bool.not_eq_true, isParen, Bool.or_eq_true, beq_iff_eq, beq_iff_eq]
  rintro (rfl | rfl)
  · exact h.1 hc
  · exact h.2 hc

theorem pieces_item {i : List Char} (hlength : 2 ≤ i.length) (h : '(' ∉ i ∧ ')' ∉ i) : pieces i = [i] := by
  rw [pieces, List.splitOnP_eq_singleton (isParen_eq_false h), List.filter_singleton, decide_eq_true hlength]
  rfl

theorem pieces_op (op : Op) (fs : Filters (List Char)) : pieces (op.char :: fs.text) = pieces fs.text := by
  have hop : pieces [op.char] = [] := by cases op <;> decide
  have hsign {s : List Char} : pieces (op.char :: '(' :: s) = pieces ('(' :: s) := by
    have := pieces_append (show isParen '(' = true from rfl) [op.char] s
    rw [hop, List.nil_append] at this
    exact this.trans (pieces_cons rfl s).symm
  cases fs with
  | nil => exact hop
  | item i rest => exact hsign
  | node op inner rest => exact hsign

/-- **The items of a text.** However a text is read as filters, the items are the same. -/
theorem pieces_text {fs : Filters (List Char)} (h : ∀ i ∈ fs.items, 2 ≤ i.length ∧ '(' ∉ i ∧ ')' ∉ i) :
    pieces fs.text = fs.items := by
  induction fs with
  | nil => rfl
  | item i rest ih =>
    obtain ⟨hlength, hi⟩ := h i List.mem_cons_self
    rw [text, List.cons_append, pieces_cons rfl, pieces_append rfl, pieces_item hlength hi,
      ih fun j hj => h j (List.mem_cons_of_mem _ hj)]
    rfl
  | node op inner rest ihinner ihrest =>
    rw [text, List.cons_append, pieces_cons rfl, pieces_append rfl, pieces_op,
      ihinner fun j hj => h j (List.mem_append_left _ hj), ihrest fun j hj => h j (List.mem_append_right _ hj)]
    rfl

end Filters

end BookingSystem.Base.SearchFilters
