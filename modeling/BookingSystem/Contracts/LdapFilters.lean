import BookingSystem.Base.SearchFilters
import BookingSystem.Model.LdapLogin

/-!
# Names in search filters

A template is a filter with one hole, the value of an equality. A login fills it faithfully when the filter it makes can
be read as the filter of the template with the name at the hole. That is so exactly when the name has no NUL and no sign
that `replace` acts on (`faithful_iff`): those are not escaped, and with them parentheses get in.
-/

namespace BookingSystem.Contracts.LdapFilters

open Base Base.SearchFilters
open Model.LdapLogin

/-! ### Templates -/

/-- An item of a template. -/
inductive Slot where
  | hole (a : Attribute)
  | item (i : Item Value)

namespace Slot

def isHole : Slot → Bool
  | hole _ => true
  | item _ => false

def Meaningful : Slot → Prop
  | hole _ => True
  | item i => i.Meaningful

/-- The slot with a text in the hole, whatever the text is. -/
def text (w : List Char) : Slot → List Char
  | hole a => a.1 ++ '=' :: w
  | item i => i.text

def fill (v : Value) : Slot → Item Value
  | hole a => .simple a .equal v
  | item i => i

def tree (bs : List UInt8) : Slot → Item (List UInt8)
  | hole a => .simple a .equal bs
  | item i => i.tree

end Slot

/-- A filter with one hole, whose text has the placeholder once. -/
structure Template where
  slots : Filters Slot
  length_eq : slots.length = 1
  wellFormed : slots.WellFormed Slot.Meaningful
  one_hole : slots.items.countP Slot.isHole = 1
  once : ∀ a b a' b', (slots.map (Slot.text placeholder)).text = a ++ placeholder ++ b →
    (slots.map (Slot.text placeholder)).text = a' ++ placeholder ++ b' → a = a'

def Template.text (t : Template) : List Char := (t.slots.map (Slot.text placeholder)).text

/-- What the login asks can be read as the template with the name at the hole. -/
def Faithful (t : Template) (username : List Char) : Prop :=
  ∃ g : Filters (Item Value), IsFilter g ∧ (g.map Item.text).text = ldapFilter (some t.text) username ∧
    g.map Item.tree = t.slots.map (Slot.tree (Utf8.encode username))

/-- What stands before the hole and after it, the parentheses of its item included. -/
theorem exists_context {fs : Filters Slot} (h : fs.items.countP Slot.isHole = 1) :
    ∃ pre post, ∀ w, (fs.map (Slot.text w)).text = ('(' :: pre) ++ w ++ ')' :: post := by
  have hfull {fs : Filters Slot} (h : fs.items.countP Slot.isHole = 0) (w : List Char) :
      fs.map (Slot.text w) = fs.map (Slot.text []) :=
    Filters.map_congr fun s hs => by
      cases s with
      | hole a => exact absurd rfl (List.countP_eq_zero.1 h _ hs)
      | item i => rfl
  induction fs with
  | nil => cases h
  | item s rest ih =>
    cases s with
    | hole a =>
      have hrest : rest.items.countP Slot.isHole = 0 := by
        rw [Filters.items, List.countP_cons_of_pos rfl] at h
        omega
      refine ⟨a.1 ++ ['='], (rest.map (Slot.text [])).text, fun w => ?_⟩
      rw [Filters.map, Filters.text, hfull hrest w, Slot.text]
      simp
    | item i =>
      obtain ⟨pre, post, hrest⟩ := ih h
      refine ⟨i.text ++ ')' :: '(' :: pre, post, fun w => ?_⟩
      rw [Filters.map, Filters.text, hrest w, Slot.text]
      simp
  | node op inner rest ihinner ihrest =>
    rw [Filters.items, List.countP_append] at h
    by_cases hinner : inner.items.countP Slot.isHole = 1
    · have hrest : rest.items.countP Slot.isHole = 0 := by omega
      obtain ⟨pre, post, hinner⟩ := ihinner hinner
      refine ⟨op.char :: '(' :: pre, post ++ ')' :: (rest.map (Slot.text [])).text, fun w => ?_⟩
      rw [Filters.map, Filters.text, hfull hrest w, hinner w]
      simp
    · have hinner : inner.items.countP Slot.isHole = 0 := by omega
      obtain ⟨pre, post, hrest⟩ := ihrest (by omega)
      refine ⟨op.char :: (inner.map (Slot.text [])).text ++ ')' :: '(' :: pre, post, fun w => ?_⟩
      rw [Filters.map, Filters.text, hfull hinner w, hrest w]
      simp

/-! ### Replacing -/

theorem eq_of_cut {p s a b : List Char} (h : cut p s = some (a, b)) : s = a ++ p ++ b := by
  induction s generalizing a with
  | nil =>
    rw [cut] at h
    split at h
    · cases h
      simp [*]
    · cases h
  | cons c s ih =>
    rw [cut] at h
    split at h
    · rename_i hprefix
      cases h
      obtain ⟨t, ht⟩ := List.isPrefixOf_iff_prefix.1 hprefix
      rw [← ht, List.drop_left, List.nil_append]
    · obtain ⟨q, hq, heq⟩ := Option.map_eq_some_iff.1 h
      cases heq
      rw [ih hq]
      rfl

theorem cut_ne_none (p a b : List Char) : cut p (a ++ p ++ b) ≠ none := by
  induction a with
  | nil =>
    cases p with
    | nil => cases b <;> simp [cut]
    | cons d p =>
      have hprefix : (d :: p).isPrefixOf (d :: (p ++ b)) = true :=
        List.isPrefixOf_iff_prefix.2 (List.prefix_append _ _)
      rw [List.nil_append, List.cons_append, cut, if_pos hprefix]
      exact Option.some_ne_none _
  | cons c a ih =>
    rw [List.cons_append, List.cons_append, cut]
    split
    · exact Option.some_ne_none _
    · simpa using ih

theorem ldapFilter_eq (t : Template) {a b : List Char} (h : t.text = a ++ placeholder ++ b) (hne : t.text ≠ [])
    (u : List Char) :
    ldapFilter (some t.text) u = a ++ getSubstitution placeholder a b (escapeLdapFilter u) ++ b := by
  have htemplate : ldapFilter (some t.text) u = replace t.text placeholder (escapeLdapFilter u) := by
    unfold ldapFilter
    split
    · rename_i heq
      cases heq
    · rename_i heq
      exact absurd (Option.some.inj heq) hne
    · rename_i heq
      rw [Option.some.inj heq]
  obtain ⟨⟨a', b'⟩, hcut⟩ := Option.ne_none_iff_exists'.1 (h ▸ cut_ne_none placeholder a b)
  have hsplit := eq_of_cut hcut
  obtain rfl : a = a' := t.once a b a' b' h hsplit
  obtain rfl : b = b' := List.append_cancel_left (h.symm.trans hsplit)
  rw [htemplate, replace, hcut]

/-! ### Signs -/

def signs : List Char := ['$', '&', backquote, apostrophe]

/-- A text that `replace` puts in as it is. -/
def Calm (s : List Char) : Prop := ∀ d ∈ signs, ¬ ['$', d] <:+: s

theorem calm_nil : Calm [] := fun d _ h => by
  obtain ⟨_, _, h⟩ := h
  simp at h

theorem calm_cons (c : Char) (s : List Char) :
    Calm (c :: s) ↔ (c = '$' → ∀ d ∈ signs, s.head? ≠ some d) ∧ Calm s := by
  have hprefix (d : Char) : ['$', d] <+: c :: s ↔ c = '$' ∧ s.head? = some d := by
    cases s with
    | nil => simp
    | cons e s => simp [List.cons_prefix_cons, eq_comm]
  simp only [Calm, List.infix_cons_iff, hprefix, not_or, not_and]
  constructor
  · intro h
    exact ⟨fun hc d hd => (h d hd).1 hc, fun d hd => (h d hd).2⟩
  · intro h d hd
    exact ⟨fun hc => h.1 hc d hd, h.2 d hd⟩

section
variable {m a b : List Char}

theorem getSubstitution_cons_of_ne {c : Char} (hc : c ≠ '$') (s : List Char) :
    getSubstitution m a b (c :: s) = c :: getSubstitution m a b s := by
  cases s with
  | nil => rfl
  | cons d s =>
    rw [getSubstitution, if_neg fun h => hc h.1, if_neg fun h => hc h.1, if_neg fun h => hc h.1,
      if_neg fun h => hc h.1]

theorem getSubstitution_append {x : List Char} (hx : '$' ∉ x) (s : List Char) :
    getSubstitution m a b (x ++ s) = x ++ getSubstitution m a b s := by
  induction x with
  | nil => rfl
  | cons c x ih =>
    rw [List.mem_cons, not_or] at hx
    rw [List.cons_append, getSubstitution_cons_of_ne (Ne.symm hx.1), ih hx.2, List.cons_append]

theorem getSubstitution_dollar {s : List Char} (hs : ∀ d ∈ signs, s.head? ≠ some d) :
    getSubstitution m a b ('$' :: s) = '$' :: getSubstitution m a b s := by
  cases s with
  | nil => rfl
  | cons d s =>
    have hd {e : Char} (he : e ∈ signs) : ¬ ('$' = '$' ∧ d = e) := fun h => hs e he (by rw [h.2]; rfl)
    rw [getSubstitution, if_neg (hd (by decide)), if_neg (hd (by decide)), if_neg (hd (by decide)),
      if_neg (hd (by decide))]

theorem getSubstitution_of_calm {s : List Char} (h : Calm s) : getSubstitution m a b s = s := by
  induction s with
  | nil => rfl
  | cons c s ih =>
    obtain ⟨hhead, hs⟩ := (calm_cons c s).1 h
    by_cases hc : c = '$'
    · subst hc
      rw [getSubstitution_dollar (hhead rfl), ih hs]
    · rw [getSubstitution_cons_of_ne hc, ih hs]

theorem dollars_cons (k : ℕ) (s : List Char) :
    List.replicate k '$' ++ '$' :: s = '$' :: (List.replicate k '$' ++ s) := by
  rw [← List.cons_append, ← List.replicate_succ, List.replicate_succ', List.append_assoc, List.singleton_append]

/-- A text that is put in as it is, with dollar signs before it or not, has no signs. -/
theorem calm_of_fixed (hm : m.head? ≠ some '$' ∧ m ≠ []) (ha : a.head? ≠ some '$' ∧ a ≠ [])
    (hb : b.head? ≠ some '$' ∧ b ≠ []) {s : List Char} {k : ℕ}
    (h : getSubstitution m a b s = List.replicate k '$' ++ s) : k = 0 ∧ Calm s := by
  -- what is put in for a sign other than $$ does not begin with a dollar sign
  have hno {x t : List Char} {d : Char} {k : ℕ} (hx : x.head? ≠ some '$' ∧ x ≠ []) (s : List Char) :
      x ++ t ≠ List.replicate k '$' ++ '$' :: d :: s := fun h => by
    rw [dollars_cons] at h
    obtain ⟨y, x, rfl⟩ := List.exists_cons_of_ne_nil hx.2
    exact hx.1 (congrArg some (List.cons.inj h).1)
  fun_induction getSubstitution m a b s generalizing k with
  | case1 =>
    refine ⟨?_, calm_nil⟩
    rw [List.append_nil] at h
    exact (List.replicate_eq_nil_iff _).1 h.symm
  | case2 c =>
    have hlength := congrArg List.length h
    rw [List.length_append, List.length_replicate] at hlength
    exact ⟨by omega, (calm_cons c []).2 ⟨fun _ d _ => by simp, calm_nil⟩⟩
  | case3 c d s hsign ih =>
    obtain ⟨rfl, rfl⟩ := hsign
    rw [dollars_cons, dollars_cons, ← List.cons_append, ← List.replicate_succ] at h
    have := (ih (List.cons.inj h).2).1
    omega
  | case4 c d s _ hsign =>
    obtain ⟨rfl, rfl⟩ := hsign
    exact absurd h (hno hm s)
  | case5 c d s _ _ hsign =>
    obtain ⟨rfl, rfl⟩ := hsign
    exact absurd h (hno ha s)
  | case6 c d s _ _ _ hsign =>
    obtain ⟨rfl, rfl⟩ := hsign
    exact absurd h (hno hb s)
  | case7 c d s h₁ h₂ h₃ h₄ ih =>
    have hd : c = '$' → ∀ e ∈ signs, (d :: s).head? ≠ some e := by
      rintro rfl e he hde
      cases hde
      simp only [signs, List.mem_cons, List.not_mem_nil, or_false] at he
      simp only [true_and] at h₁ h₂ h₃ h₄
      tauto
    cases k with
    | zero => exact ⟨rfl, (calm_cons c _).2 ⟨hd, (ih (k := 0) (List.cons.inj h).2).2⟩⟩
    | succ k =>
      obtain rfl : c = '$' := (List.cons.inj h).1
      have htail : getSubstitution m a b (d :: s) = List.replicate (k + 1) '$' ++ d :: s := by
        rw [List.replicate_succ, List.cons_append, ← dollars_cons]
        exact (List.cons.inj h).2
      exact absurd (ih htail).1 (Nat.succ_ne_zero k)

end

/-! ### Escaping -/

def escaped : List Char := ['\\', '*', '(', ')']

theorem escapeChar_cases (c : Char) :
    escapeChar c = [c] ∧ c ∉ escaped ∨ c ∈ escaped ∧ ∃ x y, escapeChar c = ['\\', x, y] ∧ isHexDigit x = true ∧
      isHexDigit y = true ∧ [UInt8.ofNat (16 * hexValue x + hexValue y)] = String.utf8EncodeChar c := by
  unfold escapeChar
  split_ifs with h₁ h₂ h₃ h₄
  · subst h₁
    exact .inr ⟨by decide, '5', 'c', rfl, by decide, by decide, by decide⟩
  · subst h₂
    exact .inr ⟨by decide, '2', 'a', rfl, by decide, by decide, by decide⟩
  · subst h₃
    exact .inr ⟨by decide, '2', '8', rfl, by decide, by decide, by decide⟩
  · subst h₄
    exact .inr ⟨by decide, '2', '9', rfl, by decide, by decide, by decide⟩
  · exact .inl ⟨rfl, by simp [escaped, *]⟩

theorem escapeLdapFilter_cons (c : Char) (u : List Char) :
    escapeLdapFilter (c :: u) = escapeChar c ++ escapeLdapFilter u := List.flatMap_cons

theorem isValue_escape {u : List Char} (h : nul ∉ u) : isValue (escapeLdapFilter u) = true := by
  induction u with
  | nil => rfl
  | cons c u ih =>
    rw [List.mem_cons, not_or] at h
    rw [escapeLdapFilter_cons]
    obtain ⟨heq, hc⟩ | ⟨-, x, y, heq, hx, hy, -⟩ := escapeChar_cases c
    · have hbackslash : c ≠ '\\' := by
        rintro rfl
        exact hc (by decide)
      have hnormal : isNormal c = true := by
        simp only [escaped, List.mem_cons, List.not_mem_nil, or_false, not_or] at hc
        simp [isNormal, hc, Ne.symm h.1]
      rw [heq, List.singleton_append, isValue.eq_def]
      dsimp only
      rw [if_neg hbackslash, hnormal, ih h.2]
      rfl
    · rw [heq]
      change (isHexDigit x && isHexDigit y && isValue (escapeLdapFilter u)) = true
      rw [hx, hy, ih h.2]
      rfl

theorem octets_escape (u : List Char) : octets (escapeLdapFilter u) = Utf8.encode u := by
  induction u with
  | nil => rfl
  | cons c u ih =>
    rw [escapeLdapFilter_cons, Utf8.encode, List.flatMap_cons]
    obtain ⟨heq, hc⟩ | ⟨-, x, y, heq, -, -, hbyte⟩ := escapeChar_cases c
    · have hbackslash : c ≠ '\\' := by
        rintro rfl
        exact hc (by decide)
      rw [heq, List.singleton_append, octets.eq_def]
      dsimp only
      rw [if_neg hbackslash, ih]
      rfl
    · rw [heq, ← hbyte]
      change UInt8.ofNat _ :: octets (escapeLdapFilter u) = _
      rw [ih]
      rfl

theorem signs_not_escaped {d : Char} (hd : d ∈ signs) : d ∉ escaped := by
  simp only [signs, List.mem_cons, List.not_mem_nil, or_false] at hd
  obtain rfl | rfl | rfl | rfl := hd <;> decide

theorem head?_escape {d : Char} (hd : d ∈ signs) (u : List Char) :
    (escapeLdapFilter u).head? = some d ↔ u.head? = some d := by
  cases u with
  | nil => rfl
  | cons c u =>
    rw [escapeLdapFilter_cons]
    obtain ⟨heq, -⟩ | ⟨hc, x, y, heq, -⟩ := escapeChar_cases c
    · rw [heq]
      rfl
    · rw [heq]
      constructor
      · rintro ⟨⟩
        exact absurd (by decide) (signs_not_escaped hd)
      · rintro ⟨⟩
        exact absurd hc (signs_not_escaped hd)

theorem dollar_not_mem_escape {c : Char} (hc : c ≠ '$') : '$' ∉ escapeChar c := by
  intro h
  obtain ⟨heq, -⟩ | ⟨-, x, y, heq, hx, hy, -⟩ := escapeChar_cases c
  · rw [heq, List.mem_singleton] at h
    exact hc h.symm
  · rw [heq] at h
    simp only [List.mem_cons, List.not_mem_nil, or_false] at h
    obtain h | rfl | rfl := h
    · cases h
    · cases hx
    · cases hy

theorem calm_append {x : List Char} (hx : '$' ∉ x) (s : List Char) : Calm (x ++ s) ↔ Calm s := by
  induction x with
  | nil => rfl
  | cons c x ih =>
    rw [List.mem_cons, not_or] at hx
    rw [List.cons_append, calm_cons, ih hx.2]
    exact and_iff_right fun hc => absurd hc.symm hx.1

theorem escapeChar_dollar : escapeChar '$' = ['$'] := rfl

theorem calm_escape (u : List Char) : Calm (escapeLdapFilter u) ↔ Calm u := by
  induction u with
  | nil => rfl
  | cons c u ih =>
    rw [escapeLdapFilter_cons, calm_cons]
    by_cases hc : c = '$'
    · subst hc
      rw [escapeChar_dollar, List.singleton_append, calm_cons, ih]
      refine and_congr_left fun _ => imp_congr_right fun _ => forall₂_congr fun d hd => ?_
      rw [Ne, head?_escape hd]
    · rw [calm_append (dollar_not_mem_escape hc), ih]
      exact (and_iff_right fun h => absurd h hc).symm

theorem mem_escape {c : Char} (hc : c ∉ escaped) {u : List Char} (h : c ∈ u) : c ∈ escapeLdapFilter u := by
  refine List.mem_flatMap.2 ⟨c, h, ?_⟩
  obtain ⟨heq, -⟩ | ⟨hmem, -⟩ := escapeChar_cases c
  · rw [heq]
    exact List.mem_singleton_self c
  · exact absurd hmem hc

theorem escape_append (u v : List Char) : escapeLdapFilter (u ++ v) = escapeLdapFilter u ++ escapeLdapFilter v :=
  List.flatMap_append

theorem escape_sign {d : Char} (hd : d ∈ signs) (u : List Char) :
    escapeLdapFilter (d :: u) = d :: escapeLdapFilter u := by
  rw [escapeLdapFilter_cons]
  obtain ⟨heq, -⟩ | ⟨hmem, -⟩ := escapeChar_cases d
  · rw [heq]
    rfl
  · exact absurd hmem (signs_not_escaped hd)

/-- Without parentheses in it, what is put in is the escaped form of some text. -/
theorem exists_escape {a b : List Char} (ha : '(' ∈ a) (hb : ')' ∈ b) (u : List Char)
    (hopen : '(' ∉ getSubstitution placeholder a b (escapeLdapFilter u))
    (hclose : ')' ∉ getSubstitution placeholder a b (escapeLdapFilter u)) :
    ∃ v, getSubstitution placeholder a b (escapeLdapFilter u) = escapeLdapFilter v := by
  induction hn : u.length using Nat.strongRecOn generalizing u with
  | _ n ih =>
    have hrest {x : List Char} {v : List Char} (hlt : v.length < n)
        (heq : getSubstitution placeholder a b (escapeLdapFilter u) =
          escapeLdapFilter x ++ getSubstitution placeholder a b (escapeLdapFilter v)) :
        ∃ v, getSubstitution placeholder a b (escapeLdapFilter u) = escapeLdapFilter v := by
      rw [heq, List.mem_append, not_or] at hopen hclose
      obtain ⟨v', hv'⟩ := ih _ hlt v hopen.2 hclose.2 rfl
      exact ⟨x ++ v', by rw [heq, hv', escape_append]⟩
    cases u with
    | nil => exact ⟨[], rfl⟩
    | cons c u =>
      rw [List.length_cons] at hn
      by_cases hc : c = '$'
      · subst hc
        by_cases hhead : ∀ d ∈ signs, u.head? ≠ some d
        · refine hrest (x := ['$']) (v := u) (by omega) ?_
          rw [escape_sign (by decide), getSubstitution_dollar fun d hd => (head?_escape hd u).not.2 (hhead d hd)]
          rfl
        · push Not at hhead
          obtain ⟨d, hd, hhead⟩ := hhead
          obtain ⟨u, rfl⟩ : ∃ u', u = d :: u' := by
            cases u with
            | nil => cases hhead
            | cons e u =>
              cases hhead
              exact ⟨u, rfl⟩
          rw [List.length_cons] at hn
          rw [escape_sign (by decide), escape_sign hd] at hopen hclose hrest ⊢
          simp only [signs, List.mem_cons, List.not_mem_nil, or_false] at hd
          obtain rfl | rfl | rfl | rfl := hd
          · exact hrest (x := ['$']) (v := u) (by omega) rfl
          · exact hrest (x := placeholder) (v := u) (by omega) rfl
          · exact absurd (List.mem_append_left _ ha) hopen
          · exact absurd (List.mem_append_left _ hb) hclose
      · refine hrest (x := [c]) (v := u) (by omega) ?_
        rw [escapeLdapFilter_cons, getSubstitution_append (dollar_not_mem_escape hc), escapeLdapFilter_cons]
        simp [escapeLdapFilter]

/-! ### What a reading of the filter gives away -/

theorem Slot.plain_of_mem_text {w : List Char} {c : Char} (hc : ¬ Plain c) (hw : c ∉ w) (s : Slot) : c ∉ s.text w := by
  cases s with
  | hole a =>
    rw [Slot.text, List.mem_append, List.mem_cons, not_or, not_or]
    refine ⟨fun h => hc (plain_of_mem_attribute a.2 h), ?_, hw⟩
    rintro rfl
    exact hc (by decide)
  | item i => exact fun h => hc (Item.plain_of_mem_text h)

theorem Slot.two_le_length_text (w : List Char) (s : Slot) : 2 ≤ (s.text w).length := by
  cases s with
  | hole a =>
    have := List.length_pos_iff.2 a.ne_nil
    rw [Slot.text, List.length_append, List.length_cons]
    omega
  | item i => exact i.two_le_length_text

/-- Parentheses in the text at the hole would be those of more filters. -/
theorem not_mem_of_reading {fs : Filters Slot} {g : Filters (Item Value)} {w : List Char}
    (hhole : fs.items.countP Slot.isHole = 1) (hsize : g.size = fs.size)
    (htext : (g.map Item.text).text = (fs.map (Slot.text w)).text) {c : Char} (hc : c = '(' ∨ c = ')') : c ∉ w := by
  obtain ⟨pre, post, hcontext⟩ := exists_context hhole
  have hplain : ¬ Plain c := by obtain rfl | rfl := hc <;> decide
  have hleaves : ∀ i ∈ (g.map Item.text).items, c ∉ i := by
    intro i hi
    rw [Filters.items_map] at hi
    obtain ⟨j, -, rfl⟩ := List.mem_map.1 hi
    exact fun h => hplain (Item.plain_of_mem_text h)
  have hslots : ∀ i ∈ (fs.map (Slot.text [])).items, c ∉ i := by
    intro i hi
    rw [Filters.items_map] at hi
    obtain ⟨s, -, rfl⟩ := List.mem_map.1 hi
    exact s.plain_of_mem_text hplain (by simp)
  have hcount := Filters.count_text hc hleaves
  have hempty := Filters.count_text hc hslots
  rw [htext, hcontext, Filters.size_map, hsize, List.count_append, List.count_append] at hcount
  rw [hcontext, Filters.size_map, List.count_append, List.count_append, List.count_nil] at hempty
  exact List.count_eq_zero.1 (by omega)

/-- The value read at the hole is the text put there. -/
theorem octets_of_reading {fs : Filters Slot} {g : Filters (Item Value)} {w : List Char} {bs : List UInt8}
    (hhole : fs.items.countP Slot.isHole = 1) (htree : g.map Item.tree = fs.map (Slot.tree bs))
    (htext : (g.map Item.text).text = (fs.map (Slot.text w)).text) (hopen : '(' ∉ w) (hclose : ')' ∉ w) :
    octets w = bs := by
  have hleaves : ∀ i ∈ (g.map Item.text).items, 2 ≤ i.length ∧ '(' ∉ i ∧ ')' ∉ i := by
    intro i hi
    rw [Filters.items_map] at hi
    obtain ⟨j, -, rfl⟩ := List.mem_map.1 hi
    exact ⟨j.two_le_length_text, fun h => Item.plain_of_mem_text h (by decide),
      fun h => Item.plain_of_mem_text h (by decide)⟩
  have hslots : ∀ i ∈ (fs.map (Slot.text w)).items, 2 ≤ i.length ∧ '(' ∉ i ∧ ')' ∉ i := by
    intro i hi
    rw [Filters.items_map] at hi
    obtain ⟨s, -, rfl⟩ := List.mem_map.1 hi
    exact ⟨s.two_le_length_text w, s.plain_of_mem_text (by decide) hopen, s.plain_of_mem_text (by decide) hclose⟩
  have hitems : g.items.map Item.text = fs.items.map (Slot.text w) := by
    rw [← Filters.items_map, ← Filters.items_map, ← Filters.pieces_text hleaves, htext, Filters.pieces_text hslots]
  have htrees : g.items.map Item.tree = fs.items.map (Slot.tree bs) := by
    rw [← Filters.items_map, htree, Filters.items_map]
  obtain ⟨s, hs, hishole⟩ := List.countP_pos_iff.1 (show 0 < fs.items.countP Slot.isHole by omega)
  obtain ⟨n, hn⟩ := List.mem_iff_getElem?.1 hs
  have hntext := congrArg (fun l => l[n]?) hitems
  have hntree := congrArg (fun l => l[n]?) htrees
  simp only [List.getElem?_map, hn, Option.map_some] at hntext hntree
  obtain ⟨i, hi, hitext⟩ := Option.map_eq_some_iff.1 hntext
  rw [hi, Option.map_some] at hntree
  have hitree := Option.some.inj hntree
  cases s with
  | item j => cases hishole
  | hole a =>
    cases i with
    | simple a' rel v =>
      cases hitree
      have hvalue : a.1 ++ '=' :: w = a.1 ++ '=' :: v.1 := hitext.symm.trans (by simp [Item.text, Relation.text])
      rw [(List.cons.inj (List.append_cancel_left hvalue)).2]
    | present a' => cases hitree
    | substrings a' initial any final => cases hitree
    | extensible a' dn rule v => cases hitree
    | byRule dn rule v => cases hitree

/-! ### Faithful logins -/

/-- The names that a login fills in faithfully. -/
def Harmless (username : List Char) : Prop := nul ∉ username ∧ Calm username

theorem text_eq (t : Template) (w : List Char) (hw : isValue w = true) :
    ((t.slots.map (Slot.fill ⟨w, hw⟩)).map Item.text).text = (t.slots.map (Slot.text w)).text := by
  rw [Filters.map_map]
  congr 1
  refine Filters.map_congr fun s _ => ?_
  cases s with
  | hole a => simp [Slot.fill, Slot.text, Item.text, Relation.text]
  | item i => rfl

theorem faithful_iff (t : Template) (username : List Char) : Faithful t username ↔ Harmless username := by
  obtain ⟨pre, post, hcontext⟩ := exists_context t.one_hole
  have hfilter : ldapFilter (some t.text) username = (t.slots.map (Slot.text (getSubstitution placeholder ('(' :: pre)
      (')' :: post) (escapeLdapFilter username)))).text := by
    rw [hcontext]
    exact ldapFilter_eq t (hcontext placeholder) (by rw [Template.text, hcontext]; simp) username
  rw [Faithful, hfilter]
  constructor
  · rintro ⟨g, -, htext, htree⟩
    have hsize : g.size = t.slots.size := by rw [← Filters.size_map Item.tree, htree, Filters.size_map]
    have hopen := not_mem_of_reading t.one_hole hsize htext (.inl rfl)
    have hclose := not_mem_of_reading t.one_hole hsize htext (.inr rfl)
    have hoctets := octets_of_reading t.one_hole htree htext hopen hclose
    obtain ⟨v, hv⟩ := exists_escape List.mem_cons_self List.mem_cons_self username hopen hclose
    rw [hv, octets_escape] at hoctets
    obtain rfl := Utf8.encode_injective hoctets
    have hfixed : getSubstitution placeholder ('(' :: pre) (')' :: post) (escapeLdapFilter v) =
        List.replicate 0 '$' ++ escapeLdapFilter v := hv
    have hcalm := (calm_of_fixed ⟨by decide, by decide⟩ ⟨by simp, by simp⟩ ⟨by simp, by simp⟩ hfixed).2
    refine ⟨fun hnul => ?_, (calm_escape v).1 hcalm⟩
    have hmem : nul ∈ (g.map Item.text).text := by
      rw [htext, hv, hcontext]
      exact List.mem_append_left _ (List.mem_append_right _ (mem_escape (by decide) hnul))
    obtain hmem | ⟨i, hi, hmem⟩ := Filters.mem_text hmem
    · revert hmem
      decide
    · rw [Filters.items_map] at hi
      obtain ⟨j, -, rfl⟩ := List.mem_map.1 hi
      exact Item.plain_of_mem_text hmem (by decide)
  · rintro ⟨hnul, hcalm⟩
    have hvalue := isValue_escape hnul
    rw [getSubstitution_of_calm ((calm_escape username).2 hcalm)]
    refine ⟨t.slots.map (Slot.fill ⟨_, hvalue⟩), ⟨?_, ?_⟩, text_eq t _ hvalue, ?_⟩
    · rw [Filters.length_map, t.length_eq]
    · have hmeaningful : (fun s => Item.Meaningful (Slot.fill ⟨_, hvalue⟩ s)) = Slot.Meaningful := by
        funext s
        cases s <;> rfl
      rw [Filters.wellFormed_map, hmeaningful]
      exact t.wellFormed
    · rw [Filters.map_map]
      refine Filters.map_congr fun s _ => ?_
      cases s with
      | hole a => simp [Slot.fill, Slot.tree, Item.tree, Item.map, octets_escape]
      | item i => rfl

/-- The filter of a provider that has none of its own. -/
def defaultTemplate : Template where
  slots := .item (.hole ⟨"uid".toList, by decide⟩) .nil
  length_eq := rfl
  wellFormed := ⟨trivial, trivial⟩
  one_hole := rfl
  once := by
    have hplace {a b : List Char} (h : defaultFilter = a ++ placeholder ++ b) : a = defaultFilter.take 5 := by
      have hlength := congrArg List.length h
      have hfive : ∀ n < 7, (defaultFilter.drop n).take 10 = placeholder → n = 5 := by decide
      rw [List.length_append, List.length_append, show defaultFilter.length = 16 from rfl,
        show placeholder.length = 10 from rfl] at hlength
      have hdrop : (defaultFilter.drop a.length).take 10 = placeholder := by
        rw [h, List.append_assoc, List.drop_left]
        rfl
      have := hfive a.length (by omega) hdrop
      rw [h, List.append_assoc, ← this, List.take_left]
    intro a b a' b' h h'
    rw [hplace h, hplace h']

theorem text_defaultTemplate : defaultTemplate.text = defaultFilter := rfl

/-- The name $' closes the filter once more, and a NUL stays in it. -/
theorem harmful_names :
    ¬ Faithful defaultTemplate ['$', apostrophe] ∧ ¬ Faithful defaultTemplate [nul] := by
  refine ⟨fun ⟨g, _, htext, htree⟩ => ?_, fun ⟨g, _, htext, _⟩ => ?_⟩
  · have hsize : g.size = defaultTemplate.slots.size := by rw [← Filters.size_map Item.tree, htree, Filters.size_map]
    exact not_mem_of_reading defaultTemplate.one_hole hsize (w := [')']) htext (.inr rfl) (List.mem_singleton_self _)
  · have hmem : nul ∈ (g.map Item.text).text := by
      rw [htext]
      decide
    obtain hmem | ⟨i, hi, hmem⟩ := Filters.mem_text hmem
    · revert hmem
      decide
    · rw [Filters.items_map] at hi
      obtain ⟨j, -, rfl⟩ := List.mem_map.1 hi
      exact Item.plain_of_mem_text hmem (by decide)

end BookingSystem.Contracts.LdapFilters
