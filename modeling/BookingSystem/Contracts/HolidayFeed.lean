import BookingSystem.Service.Holidays
import Mathlib.Data.List.Infix
import Mathlib.Tactic.Common

/-!
# What is read of a feed of holidays

A calendar is written as RFC 5545 has it: texts are escaped, a line may be folded between any two characters, lines end
with or without a carriage return, words are in capital letters or small ones, and events have other properties besides
their date and their name. The reader looks for capitals and passes over continuation lines, so of a folded line it has
the first piece. It takes the escapes out one kind after another, so a letter n after an escaped backslash becomes a
newline.

`value_iff` says what of a name survives this, and `feed_read_iff` when the whole list is read as it was meant.
-/

namespace BookingSystem.Contracts.HolidayFeed

open Service.Holidays
open Model (isSpace)

/-! ### Escapes -/

/-- `Escaped S t e`: in the text `e` the characters of `S` in `t` have a backslash before them, and newlines are written
with one and a letter. -/
inductive Escaped (S : List Char) : List Char → List Char → Prop
  | nil : Escaped S [] []
  | special {c : Char} {t e : List Char} (hc : c ∈ S) (h : Escaped S t e) : Escaped S (c :: t) ('\\' :: c :: e)
  | newline {n : Char} {t e : List Char} (hn : n = 'n' ∨ n = 'N') (h : Escaped S t e) :
    Escaped S ('\n' :: t) ('\\' :: n :: e)
  | plain {c : Char} {t e : List Char} (hc : c ∉ S) (hline : c ≠ '\n') (h : Escaped S t e) : Escaped S (c :: t) (c :: e)

def specials : List Char := [',', ';', '\\']

def escape : List Char → List Char
  | [] => []
  | c :: t =>
    if c ∈ specials then '\\' :: c :: escape t else if c = '\n' then '\\' :: 'n' :: escape t else c :: escape t

theorem escaped_escape (t : List Char) : Escaped specials t (escape t) := by
  induction t with
  | nil => exact .nil
  | cons c t ih =>
    unfold escape
    split_ifs with hc hline
    · exact .special hc ih
    · rw [hline]
      exact .newline (.inl rfl) ih
    · exact .plain hc hline ih

/-- The text with a newline for each letter n that comes after a backslash; `after` says whether one came before. -/
def mangle (after : Bool) : List Char → List Char
  | [] => []
  | c :: t => (if after = true ∧ (c = 'n' ∨ c = 'N') then '\n' else c) :: mangle (c == '\\') t

/-- Between the last two replacements: backslashes are doubled, but for those that a letter n took. -/
def doubled (after : Bool) : List Char → List Char
  | [] => if after then ['\\'] else []
  | c :: t =>
    if after = true ∧ (c = 'n' ∨ c = 'N') then '\n' :: doubled false t
    else (if after then ['\\'] else []) ++ if c = '\\' then '\\' :: doubled true t else c :: doubled false t

theorem none_of_any {p : Char → Bool} {s : List Char} (h : s.any p = false) : ∀ c ∈ s, p c = false := by
  intro c hc
  simpa using List.any_eq_false.1 h c hc

theorem specials_not_space : ∀ c ∈ specials, isSpace c = false := none_of_any (by decide)

section Replacing

attribute [local grind =] replacePair

variable {test : Char → Bool} {r a b : Char} {s t e z : List Char} {S : List Char}

theorem replacePair_of_ne (h : a ≠ '\\') : replacePair test r (a :: s) = a :: replacePair test r s := by
  cases s with
  | nil => rfl
  | cons b s => rw [replacePair, if_neg fun hp => h hp.1]

theorem replacePair_pair (h : test b = true) : replacePair test r ('\\' :: b :: s) = r :: replacePair test r s := by
  rw [replacePair, if_pos ⟨rfl, h⟩]

theorem replacePair_keep (h : ∀ b, s.head? = some b → test b = false) :
    replacePair test r ('\\' :: s) = '\\' :: replacePair test r s := by
  cases s with
  | nil => rfl
  | cons b s =>
    have hb := h b rfl
    rw [replacePair, if_neg]
    simp [hb]

/-- A backslash at the end changes nothing before it, if it is not what is looked for. -/
theorem replacePair_append (h : test '\\' = false) (s : List Char) :
    replacePair test r (s ++ ['\\']) = replacePair test r s ++ ['\\'] := by
  induction hn : s.length using Nat.strongRecOn generalizing s with
  | ind n ih =>
  match s with
  | [] => rfl
  | [a] => simp [replacePair, h]
  | a :: b :: s =>
    simp only [List.length_cons] at hn
    simp only [List.cons_append, replacePair]
    split
    · rw [ih s.length (by omega) s rfl]
      rfl
    · have hrest := ih (b :: s).length (by simp only [List.length_cons]; omega) (b :: s) rfl
      rw [List.cons_append] at hrest
      rw [hrest]
      rfl

theorem Escaped.head_ne {x : Char} (hx : x ≠ '\\') (h : Escaped (x :: S) t e) : e.head? ≠ some x := by
  cases h with
  | nil => simp
  | special hc h => simpa using Ne.symm hx
  | newline hn h => simpa using Ne.symm hx
  | plain hc hline h =>
    rintro heq
    rw [List.head?_cons, Option.some.injEq] at heq
    simp [heq] at hc

/-- One replacement takes one kind of escapes out. -/
theorem Escaped.replace {x : Char} (hslash : '\\' ∈ S) (hx : x ∉ S) (hletter : x ≠ '\n' ∧ x ≠ 'n' ∧ x ≠ 'N')
    (h : Escaped (x :: S) t e) : Escaped S t (replacePair (· == x) x e) := by
  have hne : x ≠ '\\' := fun heq => hx (heq ▸ hslash)
  induction h with
  | nil => exact .nil
  | @special c t e hc h ih =>
    by_cases hcx : c = x
    · subst hcx
      rw [replacePair_pair (by simp)]
      exact .plain hx hletter.1 ih
    · have hcS : c ∈ S := (List.mem_cons.1 hc).resolve_left hcx
      rw [replacePair_keep (by rintro b hb; simp_all)]
      by_cases hback : c = '\\'
      · subst hback
        rw [replacePair_keep]
        · exact .special hcS ih
        · intro b hb
          rw [beq_eq_false_iff_ne]
          rintro rfl
          exact h.head_ne hne hb
      · rw [replacePair_of_ne hback]
        exact .special hcS ih
  | @newline n t e hn h ih =>
    have hnx : n ≠ x := by
      rcases hn with rfl | rfl
      · exact Ne.symm hletter.2.1
      · exact Ne.symm hletter.2.2
    have hback : n ≠ '\\' := by
      rcases hn with rfl | rfl <;> decide
    rw [replacePair_keep (by rintro b hb; simp_all), replacePair_of_ne hback]
    exact .newline hn ih
  | @plain c t e hc hline h ih =>
    rw [List.mem_cons, not_or] at hc
    rw [replacePair_of_ne (by rintro rfl; exact hc.2 hslash)]
    exact .plain hc.2 hline ih

/-- The third replacement: it finds newlines, and letters after a backslash. -/
theorem Escaped.doubled (h : Escaped ['\\'] t e) :
    replacePair (fun c => c == 'n' || c == 'N') '\n' e = doubled false t ∧
      replacePair (fun c => c == 'n' || c == 'N') '\n' ('\\' :: e) = HolidayFeed.doubled true t := by
  induction h with
  | nil => exact ⟨rfl, rfl⟩
  | @special c t e hc h ih =>
    obtain rfl := List.mem_singleton.1 hc
    have hfirst : replacePair (fun c => c == 'n' || c == 'N') '\n' ('\\' :: '\\' :: e) =
        '\\' :: HolidayFeed.doubled true t := by
      rw [replacePair_keep (by simp), ih.2]
    refine ⟨hfirst.trans (by simp [HolidayFeed.doubled]), ?_⟩
    rw [replacePair_keep (by simp), hfirst]
    simp [HolidayFeed.doubled]
  | @newline n t e hn h ih =>
    have hfirst : replacePair (fun c => c == 'n' || c == 'N') '\n' ('\\' :: n :: e) =
        '\n' :: HolidayFeed.doubled false t := by
      rw [replacePair_pair (by simpa using hn), ih.1]
    refine ⟨hfirst.trans (by simp [HolidayFeed.doubled]), ?_⟩
    rw [replacePair_keep (by simp), hfirst]
    simp [HolidayFeed.doubled]
  | @plain c t e hc hline h ih =>
    rw [List.mem_singleton] at hc
    have hfirst : replacePair (fun c => c == 'n' || c == 'N') '\n' (c :: e) = c :: HolidayFeed.doubled false t := by
      rw [replacePair_of_ne hc, ih.1]
    refine ⟨hfirst.trans (by simp [HolidayFeed.doubled, hc]), ?_⟩
    by_cases hletter : c = 'n' ∨ c = 'N'
    · rw [replacePair_pair (by simpa using hletter), ih.1]
      simp [HolidayFeed.doubled, hletter]
    · rw [replacePair_keep (by rintro b hb; simp_all), hfirst]
      simp [HolidayFeed.doubled, hletter, hc]

/-- The last replacement, with what may be left at the end of a text. -/
theorem replacePair_doubled (hz : replacePair (· == '\\') '\\' z = z) (t : List Char) :
    replacePair (· == '\\') '\\' (doubled false t ++ z) = mangle false t ++ z ∧
      replacePair (· == '\\') '\\' ('\\' :: (doubled true t ++ z)) = '\\' :: (mangle true t ++ z) := by
  induction t with
  | nil =>
    refine ⟨by simpa [doubled, mangle] using hz, ?_⟩
    simp [doubled, mangle, replacePair_pair, hz]
  | cons c t ih =>
    by_cases hback : c = '\\'
    · subst hback
      have hfirst : replacePair (· == '\\') '\\' ('\\' :: (doubled true t ++ z)) = '\\' :: (mangle true t ++ z) := ih.2
      refine ⟨by simpa [doubled, mangle] using hfirst, ?_⟩
      simp only [doubled, mangle]
      simp [replacePair_pair, hfirst]
    · have hflag : (c == '\\') = false := by simpa using hback
      have hfirst : replacePair (· == '\\') '\\' (c :: (doubled false t ++ z)) = c :: (mangle false t ++ z) := by
        rw [replacePair_of_ne hback, ih.1]
      refine ⟨by simpa [doubled, mangle, hback, hflag] using hfirst, ?_⟩
      by_cases hletter : c = 'n' ∨ c = 'N'
      · simp only [doubled, mangle, hletter, hflag, and_self, if_true, List.cons_append]
        rw [replacePair_keep (by simp), replacePair_of_ne (by decide), ih.1]
      · simp only [doubled, mangle, hletter, hback, hflag, and_false, if_false, if_true, List.cons_append,
          List.nil_append]
        rw [replacePair_pair (by simp), hfirst]

theorem unescapeICS_escaped (h : Escaped specials t e) :
    unescapeICS e = mangle false t ∧ unescapeICS (e ++ ['\\']) = mangle false t ++ ['\\'] := by
  have hcommas : Escaped [';', '\\'] t (replacePair (· == ',') ',' e) := h.replace (by decide) (by decide) (by decide)
  have hsemicolons := hcommas.replace (by decide) (by decide) (by decide)
  unfold unescapeICS
  rw [replacePair_append (by decide), replacePair_append (by decide), replacePair_append (by decide),
    hsemicolons.doubled.1]
  have hnone := (replacePair_doubled (z := []) rfl t).1
  rw [List.append_nil, List.append_nil] at hnone
  exact ⟨hnone, (replacePair_doubled (z := ['\\']) rfl t).1⟩

example : unescapeICS (escape "Eve\\night".toList) = "Eve\\\night".toList := by decide +kernel

theorem length_mangle (after : Bool) (t : List Char) : (mangle after t).length = t.length := by
  induction t generalizing after with
  | nil => rfl
  | cons c t ih => simp [mangle, ih]

theorem mangle_append (after : Bool) (t : List Char) : mangle after (t ++ ['\\']) = mangle after t ++ ['\\'] := by
  induction t generalizing after with
  | nil => simp [mangle]
  | cons c t ih => simp [mangle, ih]

/-- The text has no letter n directly after a backslash. -/
def NoLetter (t : List Char) : Prop := ¬ ['\\', 'n'] <:+: t ∧ ¬ ['\\', 'N'] <:+: t

theorem mangle_eq_self (after : Bool) (t : List Char) :
    mangle after t = t ↔ NoLetter (if after then '\\' :: t else t) := by
  induction t generalizing after with
  | nil => cases after <;> simp [mangle, NoLetter, List.infix_cons_iff]
  | cons c t ih =>
    have hrest : mangle (c == '\\') t = t ↔ NoLetter (c :: t) := by
      rw [ih]
      by_cases hback : c = '\\'
      · simp [hback]
      · simp [NoLetter, List.infix_cons_iff, hback, Ne.symm hback]
    rw [mangle, List.cons.injEq, hrest]
    cases after
    · simp
    · by_cases hletter : c = 'n' ∨ c = 'N'
      · rcases hletter with rfl | rfl <;> simp [NoLetter, List.infix_cons_iff]
      · simp only [hletter, and_false, if_false, true_and, if_true]
        rw [not_or] at hletter
        simp [NoLetter, List.infix_cons_iff, Ne.symm hletter.1, Ne.symm hletter.2]

end Replacing

/-! ### What is trimmed, and what is cut off -/

/-- What `trim` takes away at the ends of an escaped text: a newline is no blank there. -/
def isBlank (c : Char) : Bool := isSpace c && c != '\n'

section Cutting

variable {c : Char} {S t u e e' : List Char}

theorem Escaped.append (h : Escaped S t e) (h' : Escaped S u e') : Escaped S (t ++ u) (e ++ e') := by
  induction h with
  | nil => exact h'
  | special hc h ih => exact .special hc ih
  | newline hn h ih => exact .newline hn ih
  | plain hc hline h ih => exact .plain hc hline ih

theorem Escaped.nil_iff (h : Escaped S t e) : e = [] ↔ t = [] := by
  cases h <;> simp

/-- A text in two parts is escaped in two parts. -/
theorem Escaped.of_append (h : Escaped S (t ++ u) e) : ∃ e₁ e₂, e = e₁ ++ e₂ ∧ Escaped S t e₁ ∧ Escaped S u e₂ := by
  induction t generalizing e with
  | nil => exact ⟨[], e, rfl, .nil, h⟩
  | cons c t ih =>
    cases h with
    | special hc h =>
      obtain ⟨e₁, e₂, rfl, h₁, h₂⟩ := ih h
      exact ⟨_, e₂, rfl, .special hc h₁, h₂⟩
    | newline hn h =>
      obtain ⟨e₁, e₂, rfl, h₁, h₂⟩ := ih h
      exact ⟨_, e₂, rfl, .newline hn h₁, h₂⟩
    | plain hc hline h =>
      obtain ⟨e₁, e₂, rfl, h₁, h₂⟩ := ih h
      exact ⟨_, e₂, rfl, .plain hc hline h₁, h₂⟩

/-- What `e'`, which comes first in the escape `e` of `t`, is: the escape of what comes first in `t`, and maybe the
backslash of the escape that follows. -/
def Cut (S t e e' : List Char) : Prop :=
  (∃ t₁ t₂ e₂, t = t₁ ++ t₂ ∧ e = e' ++ e₂ ∧ Escaped S t₁ e' ∧ Escaped S t₂ e₂) ∨
    ∃ t₁ c t₂ e₁ x e₂, t = t₁ ++ c :: t₂ ∧ e' = e₁ ++ ['\\'] ∧ e = e₁ ++ '\\' :: x :: e₂ ∧ Escaped S t₁ e₁ ∧
      Escaped S [c] ['\\', x] ∧ Escaped S t₂ e₂

theorem Cut.append (h : Escaped S t e) {u f f' : List Char} (hcut : Cut S u f f') :
    Cut S (t ++ u) (e ++ f) (e ++ f') := by
  obtain ⟨t₁, t₂, e₂, rfl, rfl, h₁, h₂⟩ | ⟨t₁, c, t₂, e₁, x, e₂, rfl, rfl, rfl, h₁, hx, h₂⟩ := hcut
  · exact .inl ⟨t ++ t₁, t₂, e₂, by simp, by simp, h.append h₁, h₂⟩
  · exact .inr ⟨t ++ t₁, c, t₂, e ++ e₁, x, e₂, by simp, by simp, by simp, h.append h₁, hx, h₂⟩

theorem Cut.pair {x : Char} (hx : Escaped S [c] ['\\', x]) (h : Escaped S t e)
    (ih : ∀ e', e' <+: e → Cut S t e e') (hp : e' <+: '\\' :: x :: e) : Cut S (c :: t) ('\\' :: x :: e) e' := by
  cases e' with
  | nil => exact .inl ⟨[], c :: t, _, rfl, rfl, .nil, hx.append h⟩
  | cons a e' =>
    obtain ⟨rfl, hhalf⟩ := List.cons_prefix_cons.1 hp
    cases e' with
    | nil => exact .inr ⟨[], c, t, [], x, e, rfl, rfl, rfl, .nil, hx, h⟩
    | cons b e' =>
      obtain ⟨rfl, hrest⟩ := List.cons_prefix_cons.1 hhalf
      exact .append hx (ih e' hrest)

theorem Escaped.cut (h : Escaped S t e) (hp : e' <+: e) : Cut S t e e' := by
  induction h generalizing e' with
  | nil =>
    obtain rfl := List.prefix_nil.1 hp
    exact .inl ⟨[], [], [], rfl, rfl, .nil, .nil⟩
  | special hc h ih => exact .pair (.special hc .nil) h (fun _ => ih) hp
  | newline hn h ih => exact .pair (.newline hn .nil) h (fun _ => ih) hp
  | @plain c t e hc hline h ih =>
    cases e' with
    | nil => exact .inl ⟨[], c :: t, _, rfl, rfl, .nil, .plain hc hline h⟩
    | cons a e' =>
      obtain ⟨rfl, hrest⟩ := List.cons_prefix_cons.1 hp
      exact .append (.plain hc hline .nil) (ih hrest)

/-! What is left of an escaped text when blanks are taken away is escaped, too. -/

theorem Escaped.dropWhile (hS : ∀ c ∈ S, isSpace c = false) (hn : isSpace '\\' = false) (h : Escaped S t e) :
    Escaped S (t.dropWhile isBlank) (e.dropWhile isSpace) := by
  induction h with
  | nil => exact .nil
  | special hc h ih =>
    rw [List.dropWhile_cons_of_neg (by simp [isBlank, hS _ hc]), List.dropWhile_cons_of_neg (by simp [hn])]
    exact .special hc h
  | newline hletter h ih =>
    rw [List.dropWhile_cons_of_neg (by simp [isBlank]), List.dropWhile_cons_of_neg (by simp [hn])]
    exact .newline hletter h
  | @plain c t e hc hline h ih =>
    by_cases hspace : isSpace c = true
    · rw [List.dropWhile_cons_of_pos (by simp [isBlank, hspace, hline]), List.dropWhile_cons_of_pos hspace]
      exact ih
    · rw [List.dropWhile_cons_of_neg (by simp [isBlank, hspace]), List.dropWhile_cons_of_neg hspace]
      exact .plain hc hline h

theorem Escaped.rdropWhile (hS : ∀ c ∈ S, isSpace c = false) (h : Escaped S t e) :
    Escaped S (t.rdropWhile isBlank) (e.rdropWhile isSpace) := by
  induction t using List.reverseRecOn generalizing e with
  | nil =>
    rw [h.nil_iff.2 rfl]
    exact .nil
  | append_singleton t c ih =>
    obtain ⟨e₁, e₂, rfl, h₁, h₂⟩ := h.of_append
    have hall := h
    cases h₂ with
    | special hc h₂ =>
      obtain rfl := h₂.nil_iff.2 rfl
      have hkeep : (e₁ ++ ['\\', c]).rdropWhile isSpace = e₁ ++ ['\\', c] := by
        rw [List.append_cons, List.rdropWhile_concat_neg _ _ _ (by simp [hS _ hc])]
      rw [List.rdropWhile_concat_neg _ _ _ (by simp [isBlank, hS _ hc]), hkeep]
      exact hall
    | @newline n _ _ hletter h₂ =>
      obtain rfl := h₂.nil_iff.2 rfl
      have hn : isSpace n = false := by
        rcases hletter with rfl | rfl <;> decide
      have hkeep : (e₁ ++ ['\\', n]).rdropWhile isSpace = e₁ ++ ['\\', n] := by
        rw [List.append_cons, List.rdropWhile_concat_neg _ _ _ (by simp [hn])]
      rw [List.rdropWhile_concat_neg _ _ _ (by simp [isBlank]), hkeep]
      exact hall
    | plain hc hline h₂ =>
      obtain rfl := h₂.nil_iff.2 rfl
      by_cases hspace : isSpace c = true
      · rw [List.rdropWhile_concat_pos _ _ _ (by simp [isBlank, hspace, hline]),
          List.rdropWhile_concat_pos _ _ _ hspace]
        exact ih h₁
      · rw [List.rdropWhile_concat_neg _ _ _ (by simp [isBlank, hspace]),
          List.rdropWhile_concat_neg _ _ _ hspace]
        exact hall

def stripped (t : List Char) : List Char := (t.dropWhile isBlank).rdropWhile isBlank

theorem Escaped.trimmed (h : Escaped specials t e) : Escaped specials (stripped t) (trimmed e) :=
  (h.dropWhile specials_not_space (by decide)).rdropWhile specials_not_space

theorem stripped_sublist (t : List Char) : (stripped t).Sublist t :=
  (List.rdropWhile_prefix _ _).sublist.trans (List.dropWhile_sublist _)

theorem strip_backslash {p : Char → Bool} (hp : p '\\' = false) (t : List Char) :
    ((t ++ ['\\']).dropWhile p).rdropWhile p = t.dropWhile p ++ ['\\'] := by
  have hfirst : (t ++ ['\\']).dropWhile p = t.dropWhile p ++ ['\\'] := by
    rw [List.dropWhile_append]
    cases hd : t.dropWhile p <;> simp [hp]
  rw [hfirst, List.rdropWhile_concat_neg _ _ _ (by simp [hp])]

end Cutting

/-! ### What is read of a name -/

/-- The texts that are read as they were meant: no blank at an end, and no backslash before a letter n. -/
structure Clean (t : List Char) : Prop where
  bare : stripped t = t
  noLetter : NoLetter t

section Value

variable {c : Char} {t t₁ t₂ e e' e₁ e₂ : List Char}

theorem clean_iff : Clean t ↔ stripped t = t ∧ mangle false t = t :=
  ⟨fun h => ⟨h.bare, (mangle_eq_self false t).2 h.noLetter⟩,
    fun h => ⟨h.1, (mangle_eq_self false t).1 h.2⟩⟩

theorem clean_backslash : Clean (t ++ ['\\']) ↔ t.dropWhile isBlank = t ∧ mangle false t = t := by
  rw [clean_iff, stripped, strip_backslash (by decide), mangle_append, List.append_left_inj, List.append_left_inj]

theorem Escaped.ne_backslash (h : Escaped specials t e) : e ≠ ['\\'] := by
  rintro rfl
  cases h with
  | plain hc hline h => exact hc (by decide)

/-- The name of a line that was not cut within an escape. -/
theorem whole_iff (h₁ : Escaped specials t₁ e') (h₂ : Escaped specials t₂ e₂) :
    unescapeICS (trimmed e') = t₁ ++ t₂ ↔ t₁ ++ t₂ = [] ∨ Clean (t₁ ++ t₂) ∧ t₂ = [] := by
  rw [(unescapeICS_escaped h₁.trimmed).1]
  constructor
  · intro hval
    have hlen := congrArg List.length hval
    have hle := (stripped_sublist t₁).length_le
    rw [length_mangle, List.length_append] at hlen
    have hnil : t₂ = [] := List.length_eq_zero_iff.1 (by omega)
    have hbare : stripped t₁ = t₁ := (stripped_sublist t₁).eq_of_length (by omega)
    subst hnil
    rw [List.append_nil, hbare] at hval
    rw [List.append_nil]
    exact .inr ⟨clean_iff.2 ⟨hbare, hval⟩, rfl⟩
  · rintro (hnil | ⟨hclean, rfl⟩)
    · obtain ⟨rfl, rfl⟩ := List.append_eq_nil_iff.1 hnil
      rfl
    · rw [List.append_nil] at hclean ⊢
      obtain ⟨hbare, hmangle⟩ := clean_iff.1 hclean
      rw [hbare, hmangle]

/-- The name of a line that was cut after the backslash of an escape. -/
theorem half_iff (h₁ : Escaped specials t₁ e₁) :
    unescapeICS (trimmed (e₁ ++ ['\\'])) = t₁ ++ c :: t₂ ↔ Clean (t₁ ++ c :: t₂) ∧ c = '\\' ∧ t₂ = [] := by
  have hvalue : unescapeICS (trimmed (e₁ ++ ['\\'])) = mangle false (t₁.dropWhile isBlank) ++ ['\\'] := by
    unfold trimmed
    rw [strip_backslash (by decide)]
    exact (unescapeICS_escaped (h₁.dropWhile specials_not_space (by decide))).2
  rw [hvalue]
  constructor
  · intro hval
    have hlen := congrArg List.length hval
    have hle := (List.dropWhile_sublist isBlank (l := t₁)).length_le
    simp only [List.length_append, length_mangle, List.length_cons, List.length_nil] at hlen
    have hnil : t₂ = [] := List.length_eq_zero_iff.1 (by omega)
    have hbare : t₁.dropWhile isBlank = t₁ := (List.dropWhile_sublist isBlank).eq_of_length (by omega)
    subst hnil
    rw [hbare] at hval
    obtain ⟨hmangle, hlast⟩ := List.append_inj' hval rfl
    obtain rfl : '\\' = c := by simpa using hlast
    exact ⟨clean_backslash.2 ⟨hbare, hmangle⟩, rfl, rfl⟩
  · rintro ⟨hclean, rfl, rfl⟩
    obtain ⟨hbare, hmangle⟩ := clean_backslash.1 hclean
    rw [hbare, hmangle]

/-- What is read of an escaped name when the line is cut off somewhere: the name, if it is clean and nothing is missing,
or only the second character of an escaped backslash. -/
theorem value_iff (h : Escaped specials t e) (hp : e' <+: e) :
    unescapeICS (trimmed e') = t ↔
      t = [] ∨ Clean t ∧ (e' = e ∨ e = e' ++ ['\\'] ∧ t.getLast? = some '\\') := by
  obtain ⟨t₁, t₂, e₂, rfl, rfl, h₁, h₂⟩ | ⟨t₁, c, t₂, e₁, x, e₂, rfl, rfl, rfl, h₁, hx, h₂⟩ := h.cut hp
  · have hrest : (e' = e' ++ e₂ ∨ e' ++ e₂ = e' ++ ['\\'] ∧ (t₁ ++ t₂).getLast? = some '\\') ↔ t₂ = [] := by
      rw [← h₂.nil_iff]
      constructor
      · rintro (hall | ⟨hhalf, -⟩)
        · simpa using hall
        · exact absurd (List.append_cancel_left hhalf) h₂.ne_backslash
      · rintro rfl
        simp
    rw [whole_iff h₁ h₂, hrest]
  · have hrest : (e₁ ++ ['\\'] = e₁ ++ '\\' :: x :: e₂ ∨
        e₁ ++ '\\' :: x :: e₂ = e₁ ++ ['\\'] ++ ['\\'] ∧ (t₁ ++ c :: t₂).getLast? = some '\\') ↔
        c = '\\' ∧ t₂ = [] := by
      constructor
      · rintro (hall | ⟨hhalf, hlast⟩)
        · simp at hall
        · obtain ⟨rfl, hnil⟩ : x = '\\' ∧ e₂ = [] := by simpa using hhalf
          obtain rfl := h₂.nil_iff.1 hnil
          exact ⟨by simpa using hlast, rfl⟩
      · rintro ⟨rfl, rfl⟩
        obtain rfl := h₂.nil_iff.2 rfl
        cases hx with
        | special hc hx => simp
        | plain hc hline hx => exact absurd (by decide) hc
    rw [half_iff h₁, hrest]
    simp

end Value

/-! ### Lines as they are written -/

def isLineChar (c : Char) : Bool := c == '\t' || (decide (' ' ≤ c) && c != '\x7f')

def lineBreak (crlf : Bool) : List Char := if crlf then ['\r', '\n'] else ['\n']

/-- What follows where a line is folded. -/
structure Fold where
  crlf : Bool
  tab : Bool
  piece : List Char
  piece_ne : piece ≠ []

/-- A line of the feed with its folds and its end. -/
structure Written where
  first : List Char
  more : List Fold
  crlf : Bool
  first_ne : first ≠ []
  chars : (first ++ more.flatMap Fold.piece).all isLineChar = true

namespace Written

def line (w : Written) : List Char := w.first ++ w.more.flatMap Fold.piece

def text (w : Written) : List Char :=
  w.first ++ w.more.flatMap (fun f => lineBreak f.crlf ++ (if f.tab then '\t' else ' ') :: f.piece) ++ lineBreak w.crlf

end Written

def reads (s : List Char) (st : ParseState) : ParseState := (splitLines s).foldl parseLine st

section Lines

variable {c : Char} {l s : List Char} {st : ParseState}

theorem isLineChar_ne (h : isLineChar c = true) : c ≠ '\r' ∧ c ≠ '\n' := by
  constructor <;> rintro rfl <;> revert h <;> decide

theorem splitLines_cons (h : c ≠ '\r' ∧ c ≠ '\n') {ls : List (List Char)} (hs : splitLines s = l :: ls) :
    splitLines (c :: s) = (c :: l) :: ls := by
  rw [splitLines]
  · rw [hs]
  · exact h.2
  · intro rest hr
    exact absurd hr h.1

theorem splitLines_line (hl : ∀ c ∈ l, c ≠ '\r' ∧ c ≠ '\n') (crlf : Bool) (s : List Char) :
    splitLines (l ++ lineBreak crlf ++ s) = l :: splitLines s := by
  induction l with
  | nil => cases crlf <;> simp [lineBreak, splitLines]
  | cons c l ih =>
    exact splitLines_cons (hl c List.mem_cons_self) (ih fun c hc => hl c (List.mem_cons_of_mem _ hc))

theorem reads_line (hl : ∀ c ∈ l, isLineChar c = true) (crlf : Bool) (s : List Char) (st : ParseState) :
    reads (l ++ lineBreak crlf ++ s) st = reads s (parseLine st l) := by
  unfold reads
  rw [splitLines_line fun c hc => isLineChar_ne (hl c hc)]
  rfl

theorem parseLine_fold (tab : Bool) (l : List Char) :
    parseLine st ((if tab then '\t' else ' ') :: l) = st := by
  cases tab <;> simp [parseLine]

/-- Of a line that is folded only the first piece is read. -/
theorem reads_folds (hl : ∀ c ∈ l, isLineChar c = true) (fs : List Fold) (crlf : Bool)
    (hfs : ∀ c ∈ fs.flatMap Fold.piece, isLineChar c = true) (s : List Char) (st : ParseState) :
    reads (l ++ fs.flatMap (fun f => lineBreak f.crlf ++ (if f.tab then '\t' else ' ') :: f.piece) ++
      lineBreak crlf ++ s) st = reads s (parseLine st l) := by
  induction fs generalizing l st with
  | nil =>
    rw [List.flatMap_nil, List.append_nil]
    exact reads_line hl crlf s st
  | cons f fs ih =>
    rw [List.flatMap_cons, List.forall_mem_append] at hfs
    have hfold : ∀ c ∈ (if f.tab then '\t' else ' ') :: f.piece, isLineChar c = true := by
      intro c hc
      obtain rfl | hc := List.mem_cons.1 hc
      · cases f.tab <;> decide
      · exact hfs.1 c hc
    have hrest := ih hfold hfs.2 (parseLine st l)
    rw [parseLine_fold] at hrest
    rw [← hrest, List.flatMap_cons]
    simpa only [List.append_assoc] using reads_line hl f.crlf _ st

theorem Written.reads (w : Written) (s : List Char) (st : ParseState) :
    reads (w.text ++ s) st = reads s (parseLine st w.first) := by
  have hchars := List.forall_mem_append.1 (List.all_eq_true.1 w.chars)
  exact reads_folds hchars.1 w.more w.crlf hchars.2 s st

def run (st : ParseState) (ws : List Written) : ParseState := ws.foldl (fun st w => parseLine st w.first) st

theorem reads_lines (ws : List Written) (s : List Char) (st : ParseState) :
    reads (ws.flatMap Written.text ++ s) st = reads s (run st ws) := by
  induction ws generalizing st with
  | nil => rfl
  | cons w ws ih =>
    rw [List.flatMap_cons, List.append_assoc, w.reads, ih]
    rfl

@[simp] theorem run_append (ws ws' : List Written) : run st (ws ++ ws') = run (run st ws) ws' := List.foldl_append

@[simp] theorem run_cons (w : Written) (ws : List Written) : run st (w :: ws) = run (parseLine st w.first) ws := rfl

theorem run_inert {ws : List Written} (h : ∀ w ∈ ws, ∀ st, parseLine st w.first = st) : run st ws = st := by
  induction ws with
  | nil => rfl
  | cons w ws ih =>
    rw [run_cons, h w List.mem_cons_self]
    exact ih fun w hw => h w (List.mem_cons_of_mem _ hw)

end Lines

/-! ### Capital letters -/

section Capitals

variable {c : Char} {k l s : List Char}

theorem toUpper_cases (c : Char) :
    c.toUpper = c ∨ (97 ≤ c.toNat ∧ c.toNat ≤ 122) ∧ c.toUpper.toNat + 32 = c.toNat := by
  unfold Char.toUpper
  split
  next h =>
    simp only [UInt32.le_iff_toNat_le] at h
    have hlow : 97 ≤ c.toNat := h.1
    have hhigh : c.toNat ≤ 122 := h.2
    have hval : (c.val + ('A'.val - 'a'.val)).toNat + 32 = c.toNat := by
      rw [UInt32.toNat_add]
      change (c.toNat + 4294967264) % 4294967296 + 32 = c.toNat
      omega
    exact .inr ⟨⟨hlow, hhigh⟩, hval⟩
  next => exact .inl rfl

theorem isSpace_bounds (h : isSpace c = true) : c.toNat ≤ 32 ∨ 160 ≤ c.toNat := by
  simp only [isSpace, List.contains_eq_mem, Bool.or_eq_true, Bool.and_eq_true, decide_eq_true_eq, List.mem_cons,
    List.not_mem_nil, or_false] at h
  omega

theorem isDigit_bounds (h : c.isDigit = true) : 48 ≤ c.toNat ∧ c.toNat ≤ 57 := by
  simp only [Char.isDigit, Bool.and_eq_true, decide_eq_true_eq, UInt32.le_iff_toNat_le] at h
  exact h

theorem isUpper_bounds (h : c.isUpper = true) : 65 ≤ c.toNat ∧ c.toNat ≤ 90 := by
  change decide ('A'.val ≤ c.val ∧ c.val ≤ 'Z'.val) = true at h
  exact of_decide_eq_true h

theorem isLower_bounds (h : c.isLower = true) : 97 ≤ c.toNat ∧ c.toNat ≤ 122 := by
  change (decide ('a'.val ≤ c.val) && decide (c.val ≤ 'z'.val)) = true at h
  simp only [Bool.and_eq_true, decide_eq_true_eq] at h
  exact h

theorem isSpace_of_toUpper (h : isSpace c.toUpper = false) : isSpace c = false := by
  by_contra hspace
  rw [Bool.not_eq_false] at hspace
  obtain hsame | ⟨hletter, -⟩ := toUpper_cases c
  · rw [hsame, hspace] at h
    cases h
  · have hbounds := isSpace_bounds hspace
    omega

theorem isSpace_of_isDigit (h : c.isDigit = true) : isSpace c = false := by
  by_contra hspace
  rw [Bool.not_eq_false] at hspace
  have hspace := isSpace_bounds hspace
  have hdigit := isDigit_bounds h
  omega

theorem toUpper_of_isDigit (h : c.isDigit = true) : c.toUpper = c := by
  have hdigit := isDigit_bounds h
  obtain hsame | ⟨hletter, -⟩ := toUpper_cases c
  · exact hsame
  · omega

theorem eq_colon_of_toUpper (h : c.toUpper = ':') : c = ':' := by
  obtain hsame | ⟨hletter, hnat⟩ := toUpper_cases c
  · exact hsame.symm.trans h
  · have hcolon : ':'.toNat = 58 := rfl
    rw [h, hcolon] at hnat
    omega

/-- The word, in capital letters or small ones. -/
def Spelt (word : String) (l : List Char) : Prop := l.map Char.toUpper = word.toList

instance (word : String) (l : List Char) : Decidable (Spelt word l) :=
  inferInstanceAs (Decidable (l.map Char.toUpper = word.toList))

theorem Spelt.length_eq {word : String} (h : Spelt word l) : l.length = word.toList.length := by
  rw [← h, List.length_map]

theorem Spelt.mem {word : String} (h : Spelt word l) (hc : c ∈ l) : c.toUpper ∈ word.toList := by
  rw [← h]
  exact List.mem_map_of_mem hc

theorem Spelt.no_space {word : String} (h : Spelt word l) (hword : word.toList.any isSpace = false) :
    ∀ c ∈ l, isSpace c = false := fun _ hc => isSpace_of_toUpper (none_of_any hword _ (h.mem hc))

theorem Spelt.starts {word : String} (h : Spelt word l) (hk : k.map Char.toUpper = k) (hp : k <+: l ++ s) :
    k <+: word.toList ++ s.map Char.toUpper := by
  have hmap := hp.map Char.toUpper
  rwa [hk, List.map_append, h] at hmap

theorem Spelt.not_starts {word : String} {a b : Char} {m : List Char} (h : Spelt word l) (hword : word.toList = b :: m)
    (hk : (a :: k).map Char.toUpper = a :: k) (hne : a ≠ b) : ¬ a :: k <+: l ++ s := by
  intro hp
  have hstarts := h.starts hk hp
  rw [hword] at hstarts
  exact hne (List.cons_prefix_cons.1 hstarts).1

end Capitals

/-! ### What a line does -/

def keywords : List (List Char) := ["BEGIN:VEVENT".toList, "END:VEVENT".toList, "DTSTART".toList, "SUMMARY".toList]

def isoDate (date : List Char) : List Char :=
  date.take 4 ++ '-' :: ((date.drop 4).take 2 ++ '-' :: (date.drop 6).take 2)

section Steps

variable {key date l raw s : List Char} {st : ParseState} {w : Written}

theorem Written.first_prefix_line (w : Written) : w.first <+: w.line := List.prefix_append _ _

theorem trimmed_eq_self (h : ∀ c ∈ s, isSpace c = false) : trimmed s = s := by
  have hstart : s.dropWhile isSpace = s := by
    cases s with
    | nil => rfl
    | cons c s => exact List.dropWhile_cons_of_neg (by simp [h c List.mem_cons_self])
  rw [trimmed, hstart, List.rdropWhile_eq_self_iff]
  intro hne
  simp [h _ (List.getLast_mem hne)]

theorem trimmed_of_head (h : ∀ c, s.head? = some c → isSpace c = false) : trimmed s = s.rdropWhile isSpace := by
  cases s with
  | nil => rfl
  | cons c s => rw [trimmed, List.dropWhile_cons_of_neg (by simp [h c rfl])]

theorem not_fold (h : ∀ c, s.head? = some c → isSpace c = false) : ¬ (s.head? = some ' ' ∨ s.head? = some '\t') := by
  rintro (hs | hs)
  · exact absurd (h _ hs) (by decide)
  · exact absurd (h _ hs) (by decide)

/-- Lines that do not start with a keyword are passed over. -/
theorem parseLine_inert (hhead : ∀ c, raw.head? = some c → isSpace c = false) (h : ∀ k ∈ keywords, ¬ k <+: raw) :
    parseLine st raw = st := by
  have hstarts : ∀ k ∈ keywords, ¬ k <+: trimmed raw := by
    intro k hk hp
    rw [trimmed_of_head hhead] at hp
    exact h k hk (hp.trans (List.rdropWhile_prefix _ _))
  simp only [keywords, List.forall_mem_cons] at hstarts
  obtain ⟨hbegin, hend, hdate, hname, -⟩ := hstarts
  unfold parseLine
  rw [if_neg (not_fold hhead)]
  dsimp only
  rw [if_neg (by rintro heq; exact hbegin (by rw [heq])), if_neg (by rintro heq; exact hend (by rw [heq])),
    if_neg hdate, if_neg hname, ite_self]

theorem reads_nil (st : ParseState) : reads [] st = st :=
  show parseLine st [] = st from parseLine_inert (by simp) (by decide)

theorem head_of_piece (hp : raw <+: l) (h : ∀ c, l.head? = some c → isSpace c = false) :
    ∀ c, raw.head? = some c → isSpace c = false := by
  intro c hc
  obtain ⟨rest, rfl⟩ := hp
  exact h c (by rw [List.head?_append, hc]; rfl)

theorem Written.inert (w : Written) (hhead : ∀ c, w.line.head? = some c → isSpace c = false)
    (h : ∀ k ∈ keywords, ¬ k <+: w.line) (st : ParseState) : parseLine st w.first = st :=
  parseLine_inert (head_of_piece w.first_prefix_line hhead) fun k hk hp => h k hk (hp.trans w.first_prefix_line)

/-- A property: what may stand in its name, and what must follow it. -/
structure IsProperty (name rest : List Char) : Prop where
  name_ne : name ≠ []
  name_chars : name.all (fun c => c.isAlphanum || c == '-') = true
  rest_head : rest.head? = some ';' ∨ rest.head? = some ':'

/-- A line with a property that is neither a date nor a name. -/
def IsOther (l : List Char) : Prop :=
  ∃ name rest, l = name ++ rest ∧ IsProperty name rest ∧ name.map Char.toUpper ∉ ["BEGIN".toList, "END".toList] ∧
    ¬ "DTSTART".toList <+: name.map Char.toUpper ∧ ¬ "SUMMARY".toList <+: name.map Char.toUpper

theorem isSpace_of_name {c : Char} (h : (c.isAlphanum || c == '-') = true) : isSpace c = false := by
  by_contra hspace
  rw [Bool.not_eq_false] at hspace
  have hbounds := isSpace_bounds hspace
  change (c.isUpper || c.isLower || c.isDigit || c == '-') = true at h
  simp only [Bool.or_eq_true, beq_iff_eq] at h
  obtain ((hupper | hlower) | hdigit) | rfl := h
  · have hupper := isUpper_bounds hupper
    omega
  · have hlower := isLower_bounds hlower
    omega
  · have hdigit := isDigit_bounds hdigit
    omega
  · revert hspace
    decide

theorem IsProperty.takeWhile {name rest : List Char} (h : IsProperty name rest) :
    (name ++ rest).takeWhile (fun c => c.isAlphanum || c == '-') = name := by
  rw [List.takeWhile_append_of_pos (List.all_eq_true.1 h.name_chars)]
  cases rest with
  | nil => simp
  | cons c rest =>
    have hc : (c.isAlphanum || c == '-') = false := by
      obtain hc | hc := h.rest_head
      · obtain rfl : c = ';' := by simpa using hc
        decide
      · obtain rfl : c = ':' := by simpa using hc
        decide
    rw [List.takeWhile_cons_of_neg (by simp [hc]), List.append_nil]

theorem IsOther.inert (h : IsOther w.line) (st : ParseState) : parseLine st w.first = st := by
  obtain ⟨name, rest, hline, hprop, hcomponent, hdate, hname⟩ := h
  have htake := hprop.takeWhile
  refine w.inert ?_ ?_ st
  · intro c hc
    obtain ⟨d, name, rfl⟩ := List.exists_cons_of_ne_nil hprop.name_ne
    obtain rfl : d = c := by simpa [hline] using hc
    exact isSpace_of_name (List.all_eq_true.1 hprop.name_chars _ List.mem_cons_self)
  · rw [hline]
    intro k hk hp
    obtain ⟨z, hz⟩ := hp
    rw [← hz] at htake
    simp only [keywords, List.mem_cons, List.not_mem_nil, or_false] at hk
    obtain rfl | rfl | rfl | rfl := hk
    · obtain rfl : "BEGIN".toList = name := htake
      exact hcomponent (by decide)
    · obtain rfl : "END".toList = name := htake
      exact hcomponent (by decide)
    · rw [List.takeWhile_append_of_pos (List.all_eq_true.1 (by decide))] at htake
      have hstarts : "DTSTART".toList <+: name := ⟨_, htake⟩
      exact hdate (hstarts.map Char.toUpper)
    · rw [List.takeWhile_append_of_pos (List.all_eq_true.1 (by decide))] at htake
      have hstarts : "SUMMARY".toList <+: name := ⟨_, htake⟩
      exact hname (hstarts.map Char.toUpper)

theorem Spelt.inert_calendar {word : String} (h : Spelt word w.line)
    (hword : word.toList.any isSpace = false ∧ ∀ k ∈ keywords, ¬ k <+: word.toList) (st : ParseState) :
    parseLine st w.first = st := by
  refine w.inert (fun c hc => h.no_space hword.1 c (List.mem_of_head? hc)) ?_ st
  intro k hk hp
  have hcapitals : ∀ k ∈ keywords, k.map Char.toUpper = k := by decide
  have hstarts := h.starts (s := []) (hcapitals k hk) (by simpa using hp)
  exact hword.2 k hk (by simpa using hstarts)

theorem Spelt.inert_component {word : String} (h : Spelt word w.line)
    (hword : word.toList.any isSpace = false ∧ ∀ k ∈ keywords, k <+: word.toList → k = word.toList)
    (hfirst : w.first ≠ word.toList) (st : ParseState) : parseLine st w.first = st := by
  refine parseLine_inert (head_of_piece w.first_prefix_line fun c hc => h.no_space hword.1 c (List.mem_of_head? hc)) ?_
  intro k hk hp
  have hcapitals : ∀ k ∈ keywords, k.map Char.toUpper = k := by decide
  have hstarts := h.starts (s := []) (hcapitals k hk) (by simpa using hp.trans w.first_prefix_line)
  obtain rfl := hword.2 k hk (by simpa using hstarts)
  refine hfirst (hp.eq_of_length_le ?_).symm
  rw [← h.length_eq]
  exact w.first_prefix_line.length_le

theorem step_opening (h : Spelt "BEGIN:VEVENT" w.line) (st : ParseState) :
    parseLine st w.first =
      if w.first = "BEGIN:VEVENT".toList then { st with inEvent := true, date := [], name := [] } else st := by
  by_cases hfirst : w.first = "BEGIN:VEVENT".toList
  · rw [if_pos hfirst, hfirst, parseLine, if_neg (by decide)]
    exact if_pos (trimmed_eq_self (none_of_any (by decide)))
  · rw [if_neg hfirst]
    exact h.inert_component (by decide) hfirst st

theorem step_closing (h : Spelt "END:VEVENT" w.line) (st : ParseState) :
    parseLine st w.first =
      if w.first = "END:VEVENT".toList then
        { st with
          out := if st.inEvent = true ∧ st.date ≠ [] then st.out ++ [⟨String.ofList st.date, String.ofList st.name⟩]
            else st.out
          inEvent := false }
      else st := by
  by_cases hfirst : w.first = "END:VEVENT".toList
  · rw [if_pos hfirst, hfirst, parseLine, if_neg (by decide)]
    dsimp only
    rw [trimmed_eq_self (none_of_any (by decide)), if_neg (by decide), if_pos rfl]
  · rw [if_neg hfirst]
    exact h.inert_component (by decide) hfirst st

/-! A date is read of the whole line only. -/

theorem countP_key (h : Spelt "DTSTART;VALUE=DATE:" key) : key.countP Char.isDigit = 0 := by
  rw [List.countP_eq_zero]
  intro c hc hdigit
  have hword := h.mem hc
  have hnone : ∀ c ∈ "DTSTART;VALUE=DATE:".toList, c.isDigit = false := none_of_any (by decide)
  rw [toUpper_of_isDigit hdigit] at hword
  rw [hnone c hword] at hdigit
  cases hdigit

theorem isDate_iff : isDate date = true ↔ date.length = 8 ∧ ∀ c ∈ date, c.isDigit = true := by
  simp [isDate]

theorem countP_date (h : isDate date = true) : date.countP Char.isDigit = 8 := by
  obtain ⟨hlen, hdigits⟩ := isDate_iff.1 h
  rw [List.countP_eq_length.2 hdigits, hlen]

/-- Eight digits are in the line only when it is whole. -/
theorem eq_of_digits (hkey : Spelt "DTSTART;VALUE=DATE:" key) (hdate : isDate date = true) (hp : s <+: key ++ date)
    (hs : 8 ≤ s.countP Char.isDigit) : s = key ++ date := by
  obtain ⟨rest, hrest⟩ := hp
  have hcount := congrArg (List.countP Char.isDigit) hrest
  rw [List.countP_append, List.countP_append, countP_key hkey, countP_date hdate] at hcount
  obtain ⟨a, hkey', hrest'⟩ | ⟨a, hs', hdate'⟩ := List.append_eq_append_iff.1 hrest
  · rw [hrest', List.countP_append, countP_date hdate] at hcount
    omega
  · have hdigits : ∀ c ∈ rest, c.isDigit = true := by
      intro c hc
      exact (isDate_iff.1 hdate).2 c (by rw [hdate']; exact List.mem_append_right _ hc)
    rw [List.countP_eq_length.2 hdigits] at hcount
    have hnil : rest = [] := List.length_eq_zero_iff.1 (by omega)
    rw [hs', hdate', hnil, List.append_nil]

theorem withDate_whole (hkey : Spelt "DTSTART;VALUE=DATE:" key) (hdate : isDate date = true) :
    st.withDate (key ++ date) = { st with date := isoDate date } := by
  have hsplit : key.map Char.toUpper = "DTSTART;VALUE=DATE".toList ++ [':'] := hkey
  obtain ⟨key, colon, rfl, -, hcolon⟩ := List.map_eq_append_iff.1 hsplit
  obtain ⟨c, rfl, hc⟩ := List.map_eq_singleton_iff.1 hcolon
  obtain rfl := eq_colon_of_toUpper hc
  have hdigits := (isDate_iff.1 hdate).2
  have hnone : ∀ c ∈ date.reverse, decide (c ≠ ':') = true := by
    intro c hc
    rw [decide_eq_true_eq]
    rintro rfl
    exact absurd (hdigits _ (List.mem_reverse.1 hc)) (by decide)
  have hvalue : (key ++ [':'] ++ date).rtakeWhile (· ≠ ':') = date := by
    rw [List.rtakeWhile, List.reverse_append, List.takeWhile_append_of_pos hnone]
    simp
  have htrim : trimmed date = date := trimmed_eq_self fun c hc => isSpace_of_isDigit (hdigits c hc)
  unfold ParseState.withDate
  dsimp only
  rw [hvalue, htrim, if_pos hdate]
  rfl

theorem withDate_part (hkey : Spelt "DTSTART;VALUE=DATE:" key) (hdate : isDate date = true) (hp : s <+: key ++ date)
    (hne : s ≠ key ++ date) : st.withDate s = st := by
  unfold ParseState.withDate
  dsimp only
  rw [if_neg]
  intro hv
  have hsub : (trimmed (s.rtakeWhile (· ≠ ':'))).Sublist s :=
    ((List.rdropWhile_prefix _ _).sublist.trans (List.dropWhile_sublist _)).trans (List.rtakeWhile_suffix _ _).sublist
  have hcount := hsub.countP_le (p := Char.isDigit)
  rw [countP_date hv] at hcount
  exact hne (eq_of_digits hkey hdate hp hcount)

theorem step_start (hkey : Spelt "DTSTART;VALUE=DATE:" key) (hdate : isDate date = true) (hline : w.line = key ++ date)
    (st : ParseState) :
    parseLine st w.first =
      if st.inEvent = true ∧ w.first = w.line ∧ "DTSTART".toList <+: w.line then { st with date := isoDate date }
      else st := by
  have hp := w.first_prefix_line
  rw [hline] at hp ⊢
  have hspace : ∀ c ∈ w.first, isSpace c = false := by
    intro c hc
    obtain hc | hc := List.mem_append.1 (hp.subset hc)
    · exact hkey.no_space (by decide) c hc
    · exact isSpace_of_isDigit ((isDate_iff.1 hdate).2 c hc)
  have hbegin : ¬ "BEGIN:VEVENT".toList <+: w.first := fun h =>
    hkey.not_starts rfl (by decide) (by decide) (h.trans hp)
  have hend : ¬ "END:VEVENT".toList <+: w.first := fun h => hkey.not_starts rfl (by decide) (by decide) (h.trans hp)
  have hname : ¬ "SUMMARY".toList <+: w.first := fun h => hkey.not_starts rfl (by decide) (by decide) (h.trans hp)
  unfold parseLine
  rw [if_neg (not_fold fun c hc => hspace c (List.mem_of_head? hc))]
  dsimp only
  rw [trimmed_eq_self hspace, if_neg (by rintro heq; exact hbegin (by rw [heq])),
    if_neg (by rintro heq; exact hend (by rw [heq])), if_neg hname]
  by_cases hin : st.inEvent = true
  · rw [if_neg (by simp [hin])]
    by_cases hstarts : "DTSTART".toList <+: w.first
    · rw [if_pos hstarts]
      by_cases hwhole : w.first = key ++ date
      · rw [if_pos ⟨hin, hwhole, hwhole ▸ hstarts⟩, hwhole, withDate_whole hkey hdate]
      · rw [if_neg (by simp [hwhole]), withDate_part hkey hdate hp hwhole]
    · rw [if_neg hstarts, if_neg]
      rintro ⟨-, hwhole, hkeyword⟩
      exact hstarts (hwhole ▸ hkeyword)
  · rw [if_pos (by simpa using hin), if_neg (by simp [hin])]

/-! A name is read of what the first piece of the line has after its colon. -/

theorem rdropWhile_append_of {p : Char → Bool} (h : l.rdropWhile p = l) (s : List Char) :
    (l ++ s).rdropWhile p = l ++ s.rdropWhile p := by
  induction s using List.reverseRecOn with
  | nil => rw [List.append_nil, List.rdropWhile_nil, List.append_nil, h]
  | append_singleton s c ih =>
    rw [← List.append_assoc]
    by_cases hc : p c = true
    · rw [List.rdropWhile_concat_pos _ _ _ hc, List.rdropWhile_concat_pos _ _ _ hc, ih]
    · rw [List.rdropWhile_concat_neg _ _ _ hc, List.rdropWhile_concat_neg _ _ _ hc, List.append_assoc]

theorem dropWhile_rdropWhile (p : Char → Bool) (s : List Char) :
    (s.rdropWhile p).dropWhile p = (s.dropWhile p).rdropWhile p := by
  induction s using List.reverseRecOn with
  | nil => rfl
  | append_singleton s c ih =>
    by_cases hc : p c = true
    · rw [List.rdropWhile_concat_pos _ _ _ hc, ih, List.dropWhile_append]
      cases hs : s.dropWhile p with
      | nil => simp [hc]
      | cons d s => rw [← List.rdropWhile_concat_pos _ _ _ hc]; rfl
    · have hkeep : ∃ t, (s ++ [c]).dropWhile p = t ++ [c] := by
        rw [List.dropWhile_append]
        cases hs : s.dropWhile p with
        | nil => exact ⟨[], by simp [hc]⟩
        | cons d s => exact ⟨d :: s, by simp⟩
      obtain ⟨t, ht⟩ := hkeep
      rw [List.rdropWhile_concat_neg _ _ _ hc, ht, List.rdropWhile_concat_neg _ _ _ hc]

theorem trimmed_rdropWhile (s : List Char) : trimmed (s.rdropWhile isSpace) = trimmed s := by
  rw [trimmed, dropWhile_rdropWhile, List.rdropWhile_idempotent, trimmed]

/-- What is read of the first piece of a line with a name, if anything. -/
def nameRead (first : List Char) : Option (List Char) :=
  if "SUMMARY".toList <+: first then
    match first.dropWhile (· ≠ ':') with
    | [] => none
    | _ :: value => some (unescapeICS (trimmed value))
  else none

theorem dropWhile_colon (hs : ':' ∉ s) (v : List Char) : (s ++ ':' :: v).dropWhile (· ≠ ':') = ':' :: v := by
  have hpos : ∀ c ∈ s, decide (c ≠ ':') = true := by
    intro c hc
    rw [decide_eq_true_eq]
    rintro rfl
    exact hs hc
  rw [List.dropWhile_append_of_pos hpos]
  simp

theorem dropWhile_no_colon (hs : ':' ∉ s) : s.dropWhile (· ≠ ':') = [] := by
  rw [List.dropWhile_eq_nil_iff]
  intro c hc
  rw [decide_eq_true_eq]
  rintro rfl
  exact hs hc

/-- The line is trimmed before the value is, which makes no difference. -/
theorem withName_rdropWhile (s : List Char) (hs : "SUMMARY".toList <+: s) :
    st.withName (s.rdropWhile isSpace) = { st with name := (nameRead s).getD st.name } := by
  unfold ParseState.withName nameRead
  rw [if_pos hs]
  by_cases hcolon : ':' ∈ s
  · obtain ⟨a, v, rfl, ha⟩ := List.eq_append_cons_of_mem hcolon
    have htrim : (a ++ ':' :: v).rdropWhile isSpace = a ++ ':' :: v.rdropWhile isSpace := by
      rw [List.append_cons, rdropWhile_append_of (List.rdropWhile_concat_neg _ _ _ (by decide)), ← List.append_cons]
    rw [htrim, dropWhile_colon ha, dropWhile_colon ha]
    dsimp only
    rw [trimmed_rdropWhile]
    rfl
  · have hrest : ':' ∉ s.rdropWhile isSpace := fun h => hcolon ((List.rdropWhile_prefix _ _).subset h)
    rw [dropWhile_no_colon hcolon, dropWhile_no_colon hrest]
    rfl

theorem step_summary (hkey : Spelt "SUMMARY" key) (hline : w.line = key ++ s) (st : ParseState) :
    parseLine st w.first = if st.inEvent = true then { st with name := (nameRead w.first).getD st.name } else st := by
  have hp := w.first_prefix_line
  rw [hline] at hp
  have hhead : ∀ c, w.first.head? = some c → isSpace c = false := by
    refine head_of_piece hp ?_
    intro c hc
    have hne : key ≠ [] := by
      rintro rfl
      cases hkey
    rw [List.head?_append_of_ne_nil _ hne] at hc
    exact hkey.no_space (by decide) c (List.mem_of_head? hc)
  have htrim := List.rdropWhile_prefix isSpace w.first
  have hbegin : ¬ "BEGIN:VEVENT".toList <+: w.first.rdropWhile isSpace := fun h =>
    hkey.not_starts rfl (by decide) (by decide) (h.trans (htrim.trans hp))
  have hend : ¬ "END:VEVENT".toList <+: w.first.rdropWhile isSpace := fun h =>
    hkey.not_starts rfl (by decide) (by decide) (h.trans (htrim.trans hp))
  have hdate : ¬ "DTSTART".toList <+: w.first.rdropWhile isSpace := fun h =>
    hkey.not_starts rfl (by decide) (by decide) (h.trans (htrim.trans hp))
  unfold parseLine
  rw [if_neg (not_fold hhead)]
  dsimp only
  rw [trimmed_of_head hhead, if_neg (by rintro heq; exact hbegin (by rw [heq])),
    if_neg (by rintro heq; exact hend (by rw [heq])), if_neg hdate]
  by_cases hin : st.inEvent = true
  · rw [if_neg (by simp [hin]), if_pos hin]
    by_cases hname : "SUMMARY".toList <+: w.first
    · obtain ⟨rest, hrest⟩ := hname
      have hkept : "SUMMARY".toList <+: w.first.rdropWhile isSpace := by
        rw [← hrest, rdropWhile_append_of (by decide)]
        exact List.prefix_append _ _
      rw [if_pos hkept]
      exact withName_rdropWhile w.first ⟨rest, hrest⟩
    · rw [if_neg fun h => hname (h.trans htrim), nameRead, if_neg hname]
      rfl
  · rw [if_pos (by simpa using hin), if_neg hin]

/-- What is read of the line of a name, if it has no colon before its value. -/
theorem nameRead_iff {params t e : List Char} (hkey : Spelt "SUMMARY" key) (hparams : ':' ∉ params)
    (he : Escaped specials t e) (hline : w.line = key ++ params ++ ':' :: e) :
    (nameRead w.first).getD [] = t ↔
      t = [] ∨ Clean t ∧ "SUMMARY".toList <+: w.line ∧
        (w.first = w.line ∨ w.line = w.first ++ ['\\'] ∧ t.getLast? = some '\\') := by
  have hp := w.first_prefix_line
  have hlen := hkey.length_eq
  by_cases hcapitals : key = "SUMMARY".toList
  · have hstarts : "SUMMARY".toList <+: w.line := by
      rw [hline, hcapitals, List.append_assoc]
      exact List.prefix_append _ _
    have hbefore : ':' ∉ key ++ params := by
      rw [hcapitals, List.mem_append, not_or]
      exact ⟨by decide, hparams⟩
    rw [and_iff_right hstarts]
    by_cases hcolon : ':' ∈ w.first
    · obtain ⟨a, v, hfirst, ha⟩ := List.eq_append_cons_of_mem hcolon
      obtain ⟨rest, hrest⟩ := hp
      rw [hfirst, hline, List.append_assoc, List.cons_append] at hrest
      -- both are the part before the first colon
      have hvalue := congrArg (List.dropWhile (· ≠ ':')) hrest
      rw [dropWhile_colon ha, dropWhile_colon hbefore, List.cons.injEq] at hvalue
      obtain rfl : a = key ++ params := by
        rw [hvalue.2] at hrest
        exact List.append_cancel_right hrest
      have hkeyword : "SUMMARY".toList <+: w.first := by
        rw [hfirst, hcapitals, List.append_assoc]
        exact List.prefix_append _ _
      have hread : nameRead w.first = some (unescapeICS (trimmed v)) := by
        rw [nameRead, if_pos hkeyword, hfirst, dropWhile_colon ha]
      rw [hread, Option.getD_some, value_iff he ⟨rest, hvalue.2⟩, hline, hfirst]
      simp
    · have hnone : nameRead w.first = none := by
        rw [nameRead, dropWhile_no_colon hcolon]
        exact ite_self _
      have hwhole : ':' ∈ w.line := by
        rw [hline]
        simp
      rw [hnone, Option.getD_none]
      constructor
      · rintro rfl
        exact .inl rfl
      · rintro (rfl | ⟨-, hall | ⟨hhalf, -⟩⟩)
        · rfl
        · exact absurd (hall ▸ hwhole) hcolon
        · rw [hhalf] at hwhole
          simp [hcolon] at hwhole
  · have hno : ¬ "SUMMARY".toList <+: w.line := by
      intro hstarts
      rw [hline, List.append_assoc] at hstarts
      exact hcapitals ((List.prefix_of_prefix_length_le hstarts (List.prefix_append _ _) hlen.ge).eq_of_length
        hlen.symm).symm
    have hnone : nameRead w.first = none := if_neg fun h => hno (h.trans hp)
    rw [hnone, Option.getD_none]
    constructor
    · rintro rfl
      exact .inl rfl
    · rintro (rfl | ⟨-, hstarts, -⟩)
      · rfl
      · exact absurd hstarts hno

end Steps

/-! ### Events -/

/-- A day and its name, and how an event with them is written: the lines of a component, other properties wherever they
may stand, and the date or the name first. -/
structure Event where
  date : List Char
  text : List Char
  opening : Written
  before : List Written
  start : Written
  between : List Written
  summary : Written
  after : List Written
  closing : Written
  summaryFirst : Bool
  date_digits : isDate date = true
  opening_spelt : Spelt "BEGIN:VEVENT" opening.line
  start_spelt : ∃ key, Spelt "DTSTART;VALUE=DATE:" key ∧ start.line = key ++ date
  summary_spelt : ∃ key params escaped, Spelt "SUMMARY" key ∧ ':' ∉ params ∧ Escaped specials text escaped ∧
    summary.line = key ++ params ++ ':' :: escaped
  closing_spelt : Spelt "END:VEVENT" closing.line
  others : ∀ w ∈ before ++ between ++ after, IsOther w.line

namespace Event

variable (e : Event)

def lines : List Written :=
  e.opening :: e.before ++
    (if e.summaryFirst then e.summary :: e.between ++ [e.start] else e.start :: e.between ++ [e.summary]) ++
    e.after ++ [e.closing]

def holiday : GovHKHoliday := ⟨String.ofList (isoDate e.date), String.ofList e.text⟩

/-- The start of the event, its end and its date are in capitals and not folded. So is its name, which has no blanks at
its ends; its line may be folded within the escape of a backslash at the end, and anywhere if the name is empty. -/
structure Ok : Prop where
  opening : e.opening.first = "BEGIN:VEVENT".toList
  start : e.start.first = e.start.line ∧ "DTSTART".toList <+: e.start.line
  name : e.text = [] ∨ stripped e.text = e.text ∧ "SUMMARY".toList <+: e.summary.line ∧
    (e.summary.first = e.summary.line ∨ e.summary.line = e.summary.first ++ ['\\'] ∧ e.text.getLast? = some '\\')
  closing : e.closing.first = "END:VEVENT".toList

section Run

variable (st : ParseState)

def inside : ParseState :=
  if st.inEvent = true then
    { st with
      date := if e.start.first = e.start.line ∧ "DTSTART".toList <+: e.start.line then isoDate e.date else st.date
      name := (nameRead e.summary.first).getD st.name }
  else st

/-- The date and the name may come in either order. -/
theorem start_summary : parseLine (parseLine st e.start.first) e.summary.first = e.inside st ∧
    parseLine (parseLine st e.summary.first) e.start.first = e.inside st := by
  obtain ⟨key, hkey, hstart⟩ := e.start_spelt
  obtain ⟨key', params, escaped, hkey', -, -, hsummary⟩ := e.summary_spelt
  rw [List.append_assoc] at hsummary
  have hdate := step_start hkey e.date_digits hstart
  have hname := step_summary hkey' hsummary
  rw [hdate, hname, hname, hdate, inside]
  by_cases hin : st.inEvent = true
  · by_cases hwhole : e.start.first = e.start.line ∧ "DTSTART".toList <+: e.start.line
    · simp only [hin, hwhole, and_self, if_true]
    · simp only [hin, hwhole, and_false, if_true, if_false, and_self]
  · simp only [hin, false_and, if_false, Bool.false_eq_true, and_self]

theorem run_lines : run st e.lines = parseLine (e.inside (parseLine st e.opening.first)) e.closing.first := by
  have hothers := e.others
  rw [List.forall_mem_append, List.forall_mem_append] at hothers
  obtain ⟨⟨hbefore, hbetween⟩, hafter⟩ := hothers
  unfold lines
  cases e.summaryFirst
  · simp only [run_append, run_cons, List.cons_append, Bool.false_eq_true, if_false]
    rw [run_inert fun w hw => (hbefore w hw).inert, run_inert fun w hw => (hbetween w hw).inert,
      run_inert fun w hw => (hafter w hw).inert]
    change parseLine (parseLine (parseLine (parseLine st _) _) _) _ = _
    rw [(e.start_summary _).1]
  · simp only [run_append, run_cons, List.cons_append, if_true]
    rw [run_inert fun w hw => (hbefore w hw).inert, run_inert fun w hw => (hbetween w hw).inert,
      run_inert fun w hw => (hafter w hw).inert]
    change parseLine (parseLine (parseLine (parseLine st _) _) _) _ = _
    rw [(e.start_summary _).2]

theorem name_iff : (nameRead e.summary.first).getD [] = e.text ↔
    (e.text = [] ∨ stripped e.text = e.text ∧ "SUMMARY".toList <+: e.summary.line ∧
      (e.summary.first = e.summary.line ∨
        e.summary.line = e.summary.first ++ ['\\'] ∧ e.text.getLast? = some '\\')) ∧ NoLetter e.text := by
  obtain ⟨key, params, escaped, hkey, hparams, hescaped, hline⟩ := e.summary_spelt
  rw [nameRead_iff hkey hparams hescaped hline]
  constructor
  · rintro (hempty | ⟨hclean, hread⟩)
    · rw [hempty]
      exact ⟨.inl rfl, (mangle_eq_self false []).1 rfl⟩
    · exact ⟨.inr ⟨hclean.bare, hread⟩, hclean.noLetter⟩
  · rintro ⟨hempty | ⟨hbare, hread⟩, hletter⟩
    · exact .inl hempty
    · exact .inr ⟨⟨hbare, hletter⟩, hread⟩

/-- An event adds a holiday at most. -/
theorem run_out : ∃ hs, (run st e.lines).out = st.out ++ hs ∧ hs.length ≤ 1 := by
  have hopening : (parseLine st e.opening.first).out = st.out := by
    rw [step_opening e.opening_spelt]
    split <;> rfl
  have hinside : ∀ st, (e.inside st).out = st.out := by
    intro st
    unfold inside
    split <;> rfl
  rw [run_lines, step_closing e.closing_spelt]
  split
  · dsimp only
    rw [hinside, hopening]
    split
    · exact ⟨_, rfl, le_rfl⟩
    · exact ⟨[], (List.append_nil _).symm, by simp⟩
  · rw [hinside, hopening]
    exact ⟨[], (List.append_nil _).symm, by simp⟩

theorem isoDate_ne (date : List Char) : isoDate date ≠ [] := by simp [isoDate]

variable {e st}

theorem Ok.run (h : e.Ok) (hletter : NoLetter e.text) (st : ParseState) :
    (run st e.lines).out = st.out ++ [e.holiday] ∧ (run st e.lines).inEvent = false := by
  have hname := e.name_iff.2 ⟨h.name, hletter⟩
  rw [run_lines, step_opening e.opening_spelt, step_closing e.closing_spelt, if_pos h.opening, if_pos h.closing, inside,
    if_pos rfl, if_pos h.start]
  dsimp only
  rw [hname, if_pos ⟨rfl, isoDate_ne _⟩]
  exact ⟨rfl, rfl⟩

/-- After the end of an event, only one that is as it should be adds its holiday. -/
theorem ok_of_run (hin : st.inEvent = false) (h : (run st e.lines).out = st.out ++ [e.holiday]) :
    e.Ok ∧ NoLetter e.text := by
  rw [run_lines, step_opening e.opening_spelt, step_closing e.closing_spelt] at h
  by_cases hopening : e.opening.first = "BEGIN:VEVENT".toList
  · rw [if_pos hopening, inside, if_pos rfl] at h
    by_cases hclosing : e.closing.first = "END:VEVENT".toList
    · rw [if_pos hclosing] at h
      dsimp only at h
      by_cases hstart : e.start.first = e.start.line ∧ "DTSTART".toList <+: e.start.line
      · rw [if_pos hstart, if_pos ⟨rfl, isoDate_ne _⟩, List.append_right_inj, List.cons.injEq, holiday,
          GovHKHoliday.mk.injEq] at h
        have hname := congrArg String.toList h.1.2
        rw [String.toList_ofList, String.toList_ofList] at hname
        obtain ⟨hname, hletter⟩ := e.name_iff.1 hname
        exact ⟨⟨hopening, hstart, hname, hclosing⟩, hletter⟩
      · rw [if_neg hstart, if_neg (by simp)] at h
        simp at h
    · rw [if_neg hclosing] at h
      simp at h
  · have hinside : e.inside st = st := if_neg (by simp [hin])
    rw [if_neg hopening, hinside] at h
    split at h
    · simp [hin] at h
    · simp at h

end Run

theorem run_events_out (es : List Event) (st : ParseState) :
    ∃ hs, (run st (es.flatMap lines)).out = st.out ++ hs ∧ hs.length ≤ es.length := by
  induction es generalizing st with
  | nil => exact ⟨[], (List.append_nil _).symm, le_rfl⟩
  | cons e es ih =>
    obtain ⟨hs, hfirst, hlen⟩ := e.run_out st
    obtain ⟨hs', hrest, hlen'⟩ := ih (run st e.lines)
    refine ⟨hs ++ hs', ?_, ?_⟩
    · rw [List.flatMap_cons, run_append, hrest, hfirst, List.append_assoc]
    · rw [List.length_append, List.length_cons]
      omega

/-- Since an event adds one holiday at most, all are there only if each has added its own. -/
theorem run_events_iff (es : List Event) {st : ParseState} (hin : st.inEvent = false) :
    (run st (es.flatMap lines)).out = st.out ++ es.map holiday ↔ ∀ e ∈ es, e.Ok ∧ NoLetter e.text := by
  induction es generalizing st with
  | nil => simp [run]
  | cons e es ih =>
    rw [List.flatMap_cons, run_append, List.map_cons, List.forall_mem_cons]
    constructor
    · intro h
      obtain ⟨hs, hfirst, hlen⟩ := e.run_out st
      obtain ⟨hs', hrest, hlen'⟩ := run_events_out es (run st e.lines)
      rw [hrest, hfirst, List.append_assoc, List.append_right_inj] at h
      have hcount := congrArg List.length h
      rw [List.length_append, List.length_cons, List.length_map] at hcount
      obtain ⟨x, rfl⟩ := List.length_eq_one_iff.1 (show hs.length = 1 by omega)
      obtain ⟨rfl, rfl⟩ := List.cons.inj h
      obtain ⟨hok, hletter⟩ := ok_of_run hin hfirst
      exact ⟨⟨hok, hletter⟩, (ih (hok.run hletter st).2).1 hrest⟩
    · rintro ⟨⟨hok, hletter⟩, hoks⟩
      have hrun := hok.run hletter st
      rw [(ih hrun.2).2 hoks, hrun.1, List.append_assoc]
      rfl

end Event

/-! ### Feeds -/

/-- A calendar with its properties and events, as RFC 5545 has it written. -/
structure Feed where
  opening : Written
  properties : List Written
  events : List Event
  closing : Written
  opening_spelt : Spelt "BEGIN:VCALENDAR" opening.line
  others : ∀ w ∈ properties, IsOther w.line
  closing_spelt : Spelt "END:VCALENDAR" closing.line

def Feed.text (f : Feed) : List Char :=
  (f.opening :: f.properties ++ f.events.flatMap Event.lines ++ [f.closing]).flatMap Written.text

theorem parseICS_text (f : Feed) :
    parseICS f.text = f.events.map Event.holiday ↔ ∀ e ∈ f.events, e.Ok ∧ NoLetter e.text := by
  have hread : parseICS f.text = (run {} (f.events.flatMap Event.lines)).out := by
    have hlines := reads_lines (f.opening :: f.properties ++ f.events.flatMap Event.lines ++ [f.closing]) [] {}
    rw [List.append_nil, run_append, run_append, run_cons f.opening, f.opening_spelt.inert_calendar (by decide),
      run_inert fun w hw => (f.others w hw).inert, run_cons f.closing, f.closing_spelt.inert_calendar (by decide),
      reads_nil] at hlines
    exact congrArg ParseState.out hlines
  rw [hread]
  exact Event.run_events_iff f.events rfl

/-- **The holidays of a feed**, for names without a letter n after a backslash. -/
theorem feed_read_iff (f : Feed) (hletter : ∀ e ∈ f.events, NoLetter e.text) :
    parseICS f.text = f.events.map Event.holiday ↔ ∀ e ∈ f.events, e.Ok := by
  rw [parseICS_text]
  exact forall₂_congr fun e he => and_iff_left (hletter e he)

def unfolded (s : String) (hne : s.toList ≠ []) (hchars : s.toList.all isLineChar = true) : Written where
  first := s.toList
  more := []
  crlf := true
  first_ne := hne
  chars := by simpa using hchars

/-- An event with nothing but its identifier besides its date and its name. -/
def plainEvent (date text : List Char) (start summary : Written) (hdate : isDate date = true)
    (hstart : start.line = "DTSTART;VALUE=DATE:".toList ++ date)
    (hsummary : summary.line = "SUMMARY".toList ++ [] ++ ':' :: escape text) : Event where
  date := date
  text := text
  opening := unfolded "BEGIN:VEVENT" (by decide) (by decide)
  before := [unfolded "UID:1@1823.gov.hk" (by decide) (by decide)]
  start := start
  between := []
  summary := summary
  after := []
  closing := unfolded "END:VEVENT" (by decide) (by decide)
  summaryFirst := false
  date_digits := hdate
  opening_spelt := by decide
  start_spelt := ⟨_, by decide, hstart⟩
  summary_spelt := ⟨"SUMMARY".toList, [], _, by decide, by decide, escaped_escape text, hsummary⟩
  closing_spelt := by decide
  others := by
    rintro w hw
    obtain rfl := List.mem_singleton.1 hw
    exact ⟨"UID".toList, _, rfl, ⟨by decide, by decide, by decide⟩, by decide, by decide, by decide⟩

/-- A feed with one event, which has this line for its name. -/
def festival (summary : Written)
    (h : summary.line = "SUMMARY".toList ++ [] ++ ':' :: escape "Mid-Autumn Festival".toList) : Feed where
  opening := unfolded "BEGIN:VCALENDAR" (by decide) (by decide)
  properties := [unfolded "VERSION:2.0" (by decide) (by decide)]
  events :=
    [plainEvent "20260926".toList "Mid-Autumn Festival".toList
      (unfolded "DTSTART;VALUE=DATE:20260926" (by decide) (by decide)) summary (by decide) (by decide) h]
  closing := unfolded "END:VCALENDAR" (by decide) (by decide)
  opening_spelt := by decide
  others := by
    rintro w hw
    obtain rfl := List.mem_singleton.1 hw
    exact ⟨"VERSION".toList, _, rfl, ⟨by decide, by decide, by decide⟩, by decide, by decide, by decide⟩
  closing_spelt := by decide

theorem feed_read_iff_festival :
    parseICS (festival (unfolded "SUMMARY:Mid-Autumn Festival" (by decide) (by decide)) (by decide)).text =
      [⟨"2026-09-26", "Mid-Autumn Festival"⟩] := by
  refine (feed_read_iff _ ?_).2 ?_
  · rintro e he
    obtain rfl := List.mem_singleton.1 he
    exact ⟨by decide, by decide⟩
  · rintro e he
    obtain rfl := List.mem_singleton.1 he
    exact ⟨rfl, by decide, by decide, rfl⟩

def foldedName : Written where
  first := "SUMMARY:Mid-Autumn".toList
  more := [⟨true, false, " Festival".toList, by decide⟩]
  crlf := true
  first_ne := by decide
  chars := by decide

theorem festival_cut :
    parseICS (festival foldedName (by decide)).text = [⟨"2026-09-26", "Mid-Autumn"⟩] ∧
      (festival foldedName (by decide)).events.map Event.holiday = [⟨"2026-09-26", "Mid-Autumn Festival"⟩] := by
  constructor
  · decide +kernel
  · decide +kernel

end BookingSystem.Contracts.HolidayFeed
