import Mathlib.Data.List.Sort
import BookingSystem.Base.Fields

/-!
# JSON texts

Values and their texts in any style: how a character of a string is spelt, and what stands between a key and its value
and between two items. `byteaIn` reads a text as the escape format of a byte string, in which a backslash stands for
itself only when it is doubled. What it makes of a JSON text is read off the value (`reads_print`): each string as it
is, or an error when one of them holds a character with another escape than that.
-/

namespace BookingSystem.Base

/-- The literal of a number. -/
structure JsonNumber where
  literal : List Char
  nonempty : literal ≠ []
  digits : ∀ c ∈ literal, c ∈ "0123456789+-.eE".toList

inductive Json
  | null
  | bool (b : Bool)
  | num (n : JsonNumber)
  | str (s : List Char)
  | arr (xs : List Json)
  | obj (members : List (List Char × Json))

structure JsonStyle where
  esc : Char → List Char
  comma : List Char
  colon : List Char

namespace Json

/-! ### Printing -/

def quoted (style : JsonStyle) (s : List Char) : List Char := '"' :: s.flatMap style.esc ++ ['"']

mutual

def print (style : JsonStyle) : Json → List Char
  | .null => "null".toList
  | .bool true => "true".toList
  | .bool false => "false".toList
  | .num n => n.literal
  | .str s => quoted style s
  | .arr xs => '[' :: printItems style [] xs ++ [']']
  | .obj members => '{' :: printMembers style [] members ++ ['}']

/-- The items of an array, the first one after `lead` and the others after a comma. -/
def printItems (style : JsonStyle) (lead : List Char) : List Json → List Char
  | [] => []
  | x :: xs => lead ++ print style x ++ printItems style style.comma xs

def printMembers (style : JsonStyle) (lead : List Char) : List (List Char × Json) → List Char
  | [] => []
  | (k, x) :: members =>
    lead ++ (quoted style k ++ style.colon ++ print style x) ++ printMembers style style.comma members

end

mutual

/-- The value with the members of its objects in order, and its numbers in normal form. -/
def arrange (le : List Char → List Char → Bool) (numeric : JsonNumber → JsonNumber) : Json → Json
  | .null => .null
  | .bool b => .bool b
  | .num n => .num (numeric n)
  | .str s => .str s
  | .arr xs => .arr (arrangeItems le numeric xs)
  | .obj members => .obj ((arrangeMembers le numeric members).insertionSort fun a b => le a.1 b.1 = true)

def arrangeItems (le : List Char → List Char → Bool) (numeric : JsonNumber → JsonNumber) : List Json → List Json
  | [] => []
  | x :: xs => arrange le numeric x :: arrangeItems le numeric xs

def arrangeMembers (le : List Char → List Char → Bool) (numeric : JsonNumber → JsonNumber) :
    List (List Char × Json) → List (List Char × Json)
  | [] => []
  | (k, x) :: members => (k, arrange le numeric x) :: arrangeMembers le numeric members

end

mutual

/-- All characters of all strings and keys. -/
def all (p : Char → Bool) : Json → Bool
  | .null | .bool _ | .num _ => true
  | .str s => s.all p
  | .arr xs => allItems p xs
  | .obj members => allMembers p members

def allItems (p : Char → Bool) : List Json → Bool
  | [] => true
  | x :: xs => all p x && allItems p xs

def allMembers (p : Char → Bool) : List (List Char × Json) → Bool
  | [] => true
  | (k, x) :: members => (k.all p && all p x) && allMembers p members

end

variable {p : Char → Bool}

theorem all_of_mem_keys {k : List Char} {members : List (List Char × Json)} (h : allMembers p members = true)
    (hmem : k ∈ members.map Prod.fst) : k.all p = true := by
  induction members with
  | nil => cases hmem
  | cons member members ih =>
    obtain ⟨k', x'⟩ := member
    simp only [allMembers, Bool.and_eq_true] at h
    rcases List.mem_cons.1 hmem with rfl | hmem
    · exact h.1.1
    · exact ih h.2 hmem

@[simp] theorem keys_arrangeMembers (le : List Char → List Char → Bool) (numeric : JsonNumber → JsonNumber)
    (members : List (List Char × Json)) : (arrangeMembers le numeric members).map Prod.fst = members.map Prod.fst := by
  induction members with
  | nil => rfl
  | cons member members ih => simp [arrangeMembers, ih]

theorem arrange_obj (le : List Char → List Char → Bool) (numeric : JsonNumber → JsonNumber)
    (members : List (List Char × Json)) :
    ∃ members', (Json.obj members).arrange le numeric = .obj members' ∧
      (members'.map Prod.fst).Perm (members.map Prod.fst) := by
  refine ⟨_, rfl, ?_⟩
  rw [← keys_arrangeMembers le numeric members]
  exact (List.perm_insertionSort _ _).map _

mutual

theorem all_of_forall (h : ∀ c, p c = true) : ∀ v : Json, v.all p = true
  | .null | .bool _ | .num _ => rfl
  | .str _ => List.all_eq_true.2 fun c _ => h c
  | .arr xs => allItems_of_forall h xs
  | .obj members => allMembers_of_forall h members

theorem allItems_of_forall (h : ∀ c, p c = true) : ∀ xs : List Json, allItems p xs = true
  | [] => rfl
  | x :: xs => by rw [allItems, all_of_forall h x, allItems_of_forall h xs, Bool.and_self]

theorem allMembers_of_forall (h : ∀ c, p c = true) : ∀ members : List (List Char × Json), allMembers p members = true
  | [] => rfl
  | (k, x) :: members => by
    have hk : k.all p = true := List.all_eq_true.2 fun c _ => h c
    rw [allMembers, hk, all_of_forall h x, allMembers_of_forall h members, Bool.and_self, Bool.and_self]

end

/-! ### The characters of a text -/

section Chars

variable {style : JsonStyle} {P : Char → Prop}

theorem forall_mem_quoted (hquote : P '"') (hesc : ∀ c, p c = true → ∀ d ∈ style.esc c, P d) {s : List Char}
    (hs : s.all p = true) : ∀ d ∈ quoted style s, P d := by
  intro d hd
  simp only [quoted, List.cons_append, List.mem_cons, List.mem_append, List.mem_flatMap, List.not_mem_nil,
    or_false] at hd
  rcases hd with rfl | ⟨c, hc, hd⟩ | rfl
  · exact hquote
  · exact hesc c (List.all_eq_true.1 hs c hc) d hd
  · exact hquote

mutual

/-- What holds of the characters of literals, of the style and of the allowed escapes holds of the whole text. -/
theorem forall_mem_print (hplain : ∀ d ∈ "nulltruefalse[]{}\"0123456789+-.eE".toList, P d)
    (hcomma : ∀ d ∈ style.comma, P d) (hcolon : ∀ d ∈ style.colon, P d)
    (hesc : ∀ c, p c = true → ∀ d ∈ style.esc c, P d) :
    ∀ v : Json, v.all p = true → ∀ d ∈ v.print style, P d
  | .null, _, d, hd => hplain d (by simp [print] at hd; rcases hd with rfl | rfl | rfl <;> decide)
  | .bool true, _, d, hd => hplain d (by simp [print] at hd; rcases hd with rfl | rfl | rfl | rfl <;> decide)
  | .bool false, _, d, hd => hplain d (by simp [print] at hd; rcases hd with rfl | rfl | rfl | rfl | rfl <;> decide)
  | .num n, _, d, hd => by
    refine hplain d (List.mem_of_mem_drop (i := 18) ?_)
    exact n.digits d hd
  | .str s, h, d, hd => forall_mem_quoted (hplain _ (by decide)) hesc h d hd
  | .arr xs, h, d, hd => by
    simp only [print, List.cons_append, List.mem_cons, List.mem_append, List.not_mem_nil, or_false] at hd
    rcases hd with rfl | hd | rfl
    · exact hplain _ (by decide)
    · exact forall_mem_printItems hplain hcomma hcolon hesc xs h [] (fun _ hd => by cases hd) d hd
    · exact hplain _ (by decide)
  | .obj members, h, d, hd => by
    simp only [print, List.cons_append, List.mem_cons, List.mem_append, List.not_mem_nil, or_false] at hd
    rcases hd with rfl | hd | rfl
    · exact hplain _ (by decide)
    · exact forall_mem_printMembers hplain hcomma hcolon hesc members h [] (fun _ hd => by cases hd) d hd
    · exact hplain _ (by decide)

theorem forall_mem_printItems (hplain : ∀ d ∈ "nulltruefalse[]{}\"0123456789+-.eE".toList, P d)
    (hcomma : ∀ d ∈ style.comma, P d) (hcolon : ∀ d ∈ style.colon, P d)
    (hesc : ∀ c, p c = true → ∀ d ∈ style.esc c, P d) :
    ∀ xs : List Json, allItems p xs = true → ∀ lead, (∀ d ∈ lead, P d) → ∀ d ∈ printItems style lead xs, P d
  | [], _, _, _, d, hd => by cases hd
  | x :: xs, h, lead, hlead, d, hd => by
    simp only [allItems, Bool.and_eq_true] at h
    simp only [printItems, List.mem_append] at hd
    rcases hd with (hd | hd) | hd
    · exact hlead d hd
    · exact forall_mem_print hplain hcomma hcolon hesc x h.1 d hd
    · exact forall_mem_printItems hplain hcomma hcolon hesc xs h.2 style.comma hcomma d hd

theorem forall_mem_printMembers (hplain : ∀ d ∈ "nulltruefalse[]{}\"0123456789+-.eE".toList, P d)
    (hcomma : ∀ d ∈ style.comma, P d) (hcolon : ∀ d ∈ style.colon, P d)
    (hesc : ∀ c, p c = true → ∀ d ∈ style.esc c, P d) :
    ∀ members : List (List Char × Json), allMembers p members = true → ∀ lead, (∀ d ∈ lead, P d) →
      ∀ d ∈ printMembers style lead members, P d
  | [], _, _, _, d, hd => by cases hd
  | (k, x) :: members, h, lead, hlead, d, hd => by
    simp only [allMembers, Bool.and_eq_true] at h
    simp only [printMembers, List.mem_append] at hd
    rcases hd with (hd | (hd | hd) | hd) | hd
    · exact hlead d hd
    · exact forall_mem_quoted (hplain _ (by decide)) hesc h.1.1 d hd
    · exact hcolon d hd
    · exact forall_mem_print hplain hcomma hcolon hesc x h.1.2 d hd
    · exact forall_mem_printMembers hplain hcomma hcolon hesc members h.2 style.comma hcomma d hd

end

end Chars

/-- A text starts with a character that is no blank. -/
theorem head_print (style : JsonStyle) (v : Json) : ∃ c t, v.print style = c :: t ∧ c ≠ ' ' := by
  cases v with
  | null => exact ⟨_, _, rfl, by decide⟩
  | bool b => cases b <;> exact ⟨_, _, rfl, by decide⟩
  | num n =>
    obtain ⟨c, t, hn⟩ := List.exists_cons_of_ne_nil n.nonempty
    refine ⟨c, t, hn, fun hc => ?_⟩
    have hdigit := n.digits c (hn ▸ List.mem_cons_self)
    rw [hc] at hdigit
    exact absurd hdigit (by decide)
  | str s => exact ⟨_, _, rfl, by decide⟩
  | arr xs => exact ⟨_, _, rfl, by decide⟩
  | obj members => exact ⟨_, _, rfl, by decide⟩

end Json

/-! ### The escape format of a byte string -/

/-- A text read as a byte string: a backslash has to be doubled. The octal escapes and the hexadecimal format are not
there; neither can occur in a JSON text, which does not start with a backslash nor has a digit after one. -/
def byteaIn : List Char → Option (List Char)
  | [] => some []
  | '\\' :: '\\' :: t => (byteaIn t).map ('\\' :: ·)
  | '\\' :: _ => none
  | c :: t => (byteaIn t).map (c :: ·)

attribute [local grind =] byteaIn

def double (c : Char) : List Char := if c = '\\' then ['\\', '\\'] else [c]

theorem byteaIn_cons {c : Char} (hc : c ≠ '\\') (t : List Char) : byteaIn (c :: t) = (byteaIn t).map (c :: ·) := by
  rw [byteaIn.eq_4]
  · exact fun _ h => absurd h hc
  · exact fun h => absurd h hc

/-- The text is known from what was read. -/
theorem eq_of_byteaIn {t b : List Char} (h : byteaIn t = some b) : t = b.flatMap double := by
  induction t using byteaIn.induct generalizing b with
  | case1 =>
    cases h
    rfl
  | case2 t ih =>
    simp only [byteaIn, Option.map_eq_some_iff] at h
    obtain ⟨b', hb', rfl⟩ := h
    rw [ih hb']
    rfl
  | case3 t hne => simp [byteaIn] at h
  | case4 c t _ hc ih =>
    rw [byteaIn_cons hc, Option.map_eq_some_iff] at h
    obtain ⟨b', hb', rfl⟩ := h
    rw [ih hb', List.flatMap_cons, double, if_neg hc]
    rfl

/-- A part of a text that is read as `b`, or that makes the whole text an error. -/
def Reads (t : List Char) (ok : Bool) (b : List Char) : Prop :=
  ∀ rest, byteaIn (t ++ rest) = if ok then (byteaIn rest).map (b ++ ·) else none

namespace Reads

variable {t t' b b' : List Char} {ok ok' : Bool}

theorem nil : Reads [] true [] := fun rest => by simp

theorem append (h : Reads t ok b) (h' : Reads t' ok' b') : Reads (t ++ t') (ok && ok') (b ++ b') := by
  intro rest
  rw [List.append_assoc, h, h']
  cases ok <;> cases ok' <;> simp [Function.comp_def]

theorem plain (h : '\\' ∉ t) : Reads t true t := by
  induction t with
  | nil => exact nil
  | cons c t ih =>
    intro rest
    have hc : c ≠ '\\' := fun hc => h (hc ▸ List.mem_cons_self)
    rw [List.cons_append, byteaIn_cons hc, ih (fun hmem => h (List.mem_cons_of_mem _ hmem)) rest]
    simp [Function.comp_def]

theorem backslash : Reads ['\\', '\\'] true ['\\'] := fun rest => by simp [byteaIn]

theorem error {c : Char} (hc : c ≠ '\\') (b : List Char) : Reads ('\\' :: c :: t) false b := by
  intro rest
  simp only [List.cons_append]
  rw [byteaIn.eq_3]
  · rfl
  · exact fun rest heq => hc (List.cons.inj heq).1

theorem eq (h : Reads t ok b) : byteaIn t = if ok then some b else none := by
  have hnil := h []
  rw [List.append_nil] at hnil
  rw [hnil]
  simp [byteaIn]

end Reads

/-- The style in which the strings stand as they are. -/
def JsonStyle.raw (style : JsonStyle) : JsonStyle := { style with esc := fun c => [c] }

/-- A style whose escapes are read as the characters that are `readable`, and as errors for the others. -/
structure JsonStyle.Legible (style : JsonStyle) (readable : Char → Bool) : Prop where
  esc : ∀ c, Reads (style.esc c) (readable c) [c]
  comma : '\\' ∉ style.comma
  colon : '\\' ∉ style.colon

namespace Json

variable {style : JsonStyle} {readable : Char → Bool}

theorem reads_quoted (h : style.Legible readable) (s : List Char) :
    Reads (quoted style s) (s.all readable) (quoted style.raw s) := by
  have hchars : Reads (s.flatMap style.esc) (s.all readable) (s.flatMap style.raw.esc) := by
    induction s with
    | nil => exact .nil
    | cons c s ih => exact (h.esc c).append ih
  have hall := ((Reads.plain (t := ['"']) (by decide)).append hchars).append (Reads.plain (t := ['"']) (by decide))
  simpa [quoted] using hall

mutual

/-- **A JSON text read as a byte string**: its strings stand there as they are. -/
theorem reads_print (h : style.Legible readable) :
    ∀ v : Json, Reads (v.print style) (v.all readable) (v.print style.raw)
  | .null => .plain (by simp [print])
  | .bool true => .plain (by simp [print])
  | .bool false => .plain (by simp [print])
  | .num n => .plain fun hmem => absurd (n.digits _ hmem) (by decide)
  | .str s => reads_quoted h s
  | .arr xs => by
    have hopen : Reads ['['] true ['['] := .plain (by decide)
    have hclose : Reads [']'] true [']'] := .plain (by decide)
    simpa [print, all] using (hopen.append (reads_printItems h xs [] (by simp))).append hclose
  | .obj members => by
    have hopen : Reads ['{'] true ['{'] := .plain (by decide)
    have hclose : Reads ['}'] true ['}'] := .plain (by decide)
    simpa [print, all] using (hopen.append (reads_printMembers h members [] (by simp))).append hclose

theorem reads_printItems (h : style.Legible readable) : ∀ (xs : List Json) (lead : List Char), '\\' ∉ lead →
    Reads (printItems style lead xs) (allItems readable xs) (printItems style.raw lead xs)
  | [], _, _ => .nil
  | x :: xs, lead, hlead => by
    have hfirst := (Reads.plain hlead).append (reads_print h x)
    rw [printItems, printItems, allItems]
    exact hfirst.append (reads_printItems h xs style.comma h.comma)

theorem reads_printMembers (h : style.Legible readable) : ∀ (members : List (List Char × Json)) (lead : List Char),
    '\\' ∉ lead →
    Reads (printMembers style lead members) (allMembers readable members) (printMembers style.raw lead members)
  | [], _, _ => .nil
  | (k, x) :: members, lead, hlead => by
    have hmember := ((reads_quoted h k).append (Reads.plain h.colon)).append (reads_print h x)
    rw [Bool.and_true] at hmember
    have hfirst := (Reads.plain hlead).append hmember
    rw [printMembers, printMembers, allMembers]
    exact hfirst.append (reads_printMembers h members style.comma h.comma)

end

theorem print_obj_ne {style' : JsonStyle} {k k' : List Char} {x x' : Json} {members members' : List (List Char × Json)}
    (hcolon : style.colon = [':']) (hcolon' : style'.colon = [':', ' ']) (hk : '"' ∉ k.flatMap style.esc)
    (hk' : '"' ∉ k'.flatMap style'.esc) :
    (Json.obj ((k, x) :: members)).print style ≠ (Json.obj ((k', x') :: members')).print style' := by
  intro heq
  obtain ⟨c, t, hx, hc⟩ := head_print style x
  simp only [print, printMembers, quoted, hcolon, hcolon', hx, List.nil_append, List.cons_append, List.append_assoc,
    List.cons.injEq, true_and] at heq
  obtain ⟨-, heq⟩ := eq_of_append_sep hk hk' heq
  simp only [List.cons.injEq, true_and] at heq
  exact hc heq.1

end Json

end BookingSystem.Base
