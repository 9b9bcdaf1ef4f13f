import Mathlib.Data.List.Count
import Mathlib.Tactic.Common

/-!
# Content lines

How a reader of iCalendar takes a text apart. It joins lines that were folded, splits the text where a line ends, cuts
each line at the first colon outside quotes, and takes the escapes out of both parts. Texts are lists of UTF-16 units.

A writer that folds its lines (`Folded`) is read back line by line as long as no line holds a carriage return
(`contentLines_cons`). Of a line with one, the reader gets a part that still holds it or that is too short
(`readAs_firstLine`). A text of many lines is read as it was meant exactly if every line is (`contentLines_write_iff`).
-/

namespace BookingSystem.Base

abbrev Text := List UInt16

namespace Text

def cr : UInt16 := 13
def lf : UInt16 := 10
def space : UInt16 := 32
def tab : UInt16 := 9
def colon : UInt16 := 58
def semicolon : UInt16 := 59
def comma : UInt16 := 44
def backslash : UInt16 := 92
def quote : UInt16 := 34
def letterN : UInt16 := 110
def capitalN : UInt16 := 78

/-- The units of a text of plain characters. -/
def ofString (s : String) : Text := s.toList.map fun c => UInt16.ofNat c.toNat

def isBlank (a : UInt16) : Bool := a == space || a == tab

def stripCr (t : Text) : Text := t.filter fun a => a != cr

/-! ### Reading -/

/-- Takes every line break out that a blank follows, with the blank. -/
def unfoldLines : Text → Text
  | [] => []
  | [a] => [a]
  | [a, b] => [a, b]
  | a :: b :: c :: rest =>
    if a = cr ∧ b = lf ∧ isBlank c = true then unfoldLines rest else a :: unfoldLines (b :: c :: rest)

/-- A unit more at the front of the first line. -/
def consHead (a : UInt16) : List Text → List Text
  | [] => [[a]]
  | l :: ls => (a :: l) :: ls

/-- The parts of a text between its line breaks. -/
def splitCrlf : Text → List Text
  | [] => [[]]
  | [a] => [[a]]
  | a :: b :: rest => if a = cr ∧ b = lf then [] :: splitCrlf rest else consHead a (splitCrlf (b :: rest))

/-- The lines of a text: what stands before each line break. -/
def contentLines (t : Text) : List Text := (splitCrlf (unfoldLines t)).dropLast

/-- Cuts a line at the first colon outside quotes. -/
def cutAt (quoted : Bool) : Text → Option (Text × Text)
  | [] => none
  | a :: t =>
    if a = colon ∧ quoted = false then some ([], t)
    else (cutAt (if a = quote then !quoted else quoted) t).map fun p => (a :: p.1, p.2)

/-- Takes the escapes out; a backslash that starts none stays. -/
def unescape : Text → Text
  | [] => []
  | [a] => [a]
  | a :: b :: rest =>
    if a = backslash ∧ (b = backslash ∨ b = semicolon ∨ b = comma) then b :: unescape rest
    else if a = backslash ∧ (b = letterN ∨ b = capitalN) then lf :: unescape rest
    else a :: unescape (b :: rest)

/-- A line as the reader understands it: the name with its parameters, and the value. -/
def readLine (line : Text) : Option (Text × Text) :=
  (cutAt false line).map fun p => (unescape p.1, unescape p.2)

/-! ### Folded lines -/

/-- The text `t` is the line `r` with breaks put in. -/
inductive Folded : Text → Text → Prop
  | nil : Folded [] []
  | unit {a : UInt16} {r t : Text} (h : Folded r t) : Folded (a :: r) (a :: t)
  | fold {r t : Text} (h : Folded r t) : Folded r (cr :: lf :: space :: t)

theorem Folded.append {r r' t t' : Text} (h : Folded r t) (h' : Folded r' t') : Folded (r ++ r') (t ++ t') := by
  induction h with
  | nil => exact h'
  | unit _ ih => exact .unit ih
  | fold _ ih => exact .fold ih

theorem Folded.refl (r : Text) : Folded r r := by
  induction r with
  | nil => exact .nil
  | cons a r ih => exact .unit ih

/-- The text does not start with a blank. -/
def NoBlank : Text → Prop
  | [] => True
  | a :: _ => isBlank a = false

section Steps

attribute [local grind =] unfoldLines splitCrlf

variable {a : UInt16} {t rest : Text}

theorem unfoldLines_of_ne (h : a ≠ cr) : unfoldLines (a :: t) = a :: unfoldLines t := by
  match t with
  | [] => rfl
  | [b] => rfl
  | b :: c :: rest => rw [unfoldLines, if_neg fun hf => h hf.1]

theorem unfoldLines_fold (h : isBlank a = true) : unfoldLines (cr :: lf :: a :: t) = unfoldLines t := by
  rw [unfoldLines, if_pos ⟨rfl, rfl, h⟩]

theorem unfoldLines_cr (h : ∀ b rest, t = lf :: b :: rest → isBlank b = false) :
    unfoldLines (cr :: t) = cr :: unfoldLines t := by
  match t with
  | [] => rfl
  | [b] => rfl
  | b :: c :: rest =>
    rw [unfoldLines, if_neg]
    rintro ⟨-, rfl, hc⟩
    rw [h c rest rfl] at hc
    cases hc

theorem unfoldLines_crlf (h : NoBlank rest) : unfoldLines (cr :: lf :: rest) = cr :: lf :: unfoldLines rest := by
  rw [unfoldLines_cr, unfoldLines_of_ne (by decide)]
  rintro b rest' hrest
  obtain ⟨-, rfl⟩ := List.cons.inj hrest
  exact h

theorem splitCrlf_ne_nil (t : Text) : splitCrlf t ≠ [] := by
  match t with
  | [] => simp [splitCrlf]
  | [a] => simp [splitCrlf]
  | a :: b :: rest =>
    rw [splitCrlf]
    split
    · simp
    · cases splitCrlf (b :: rest) <;> simp [consHead]

def firstLine (t : Text) : Text := (splitCrlf t).headD []

theorem splitCrlf_cons (h : ∀ rest, a = cr → t ≠ lf :: rest) :
    splitCrlf (a :: t) = consHead a (splitCrlf t) := by
  match t with
  | [] => simp [splitCrlf, consHead]
  | b :: rest =>
    rw [splitCrlf, if_neg]
    rintro ⟨ha, rfl⟩
    exact h rest ha rfl

theorem firstLine_cons (h : ∀ rest, a = cr → t ≠ lf :: rest) : firstLine (a :: t) = a :: firstLine t := by
  unfold firstLine
  rw [splitCrlf_cons h]
  cases hs : splitCrlf t with
  | nil => exact absurd hs (splitCrlf_ne_nil t)
  | cons l ls => rfl

theorem firstLine_crlf : firstLine (cr :: lf :: t) = [] := by
  simp [firstLine, splitCrlf]

end Steps

/-! ### What is read of one line -/

section OneLine

variable {r t rest : Text}

theorem Folded.cons_inv {b : UInt16} {x : Text} (h : Folded r t) (hb : b ≠ cr)
    (ht : t ++ cr :: lf :: rest = b :: x) :
    ∃ r' t', r = b :: r' ∧ Folded r' t' ∧ x = t' ++ cr :: lf :: rest ∧ t'.length < t.length := by
  cases h with
  | nil => exact absurd (List.cons.inj ht).1.symm hb
  | @unit a r' t' h' =>
    obtain ⟨rfl, rfl⟩ := List.cons.inj ht
    exact ⟨r', t', rfl, h', rfl, by simp⟩
  | fold h' => exact absurd (List.cons.inj ht).1.symm hb

theorem unfoldLines_of_all_cr (h : Folded r t) (hall : ∀ a ∈ r, a = cr) (hrest : NoBlank rest) :
    ∃ u, unfoldLines (t ++ cr :: lf :: rest) = cr :: u := by
  induction h with
  | nil => exact ⟨_, unfoldLines_crlf hrest⟩
  | @unit a r t h ih =>
    obtain rfl := hall a List.mem_cons_self
    refine ⟨_, unfoldLines_cr fun b x hx => ?_⟩
    obtain ⟨r', -, rfl, -⟩ := h.cons_inv (by decide) hx
    exact absurd (hall lf (by simp)) (by decide)
  | fold h ih =>
    obtain ⟨u, hu⟩ := ih hall
    exact ⟨u, by rw [← hu]; exact unfoldLines_fold rfl⟩

/-- What a reader can get of the line `r`: the line, or, if it holds carriage returns, something that holds one too or
that is shorter than the line without them. -/
def ReadAs (r l : Text) : Prop :=
  (cr ∉ r ∧ l = r) ∨ (cr ∈ r ∧ (cr ∈ l ∨ l.length + r.count cr < r.length))

theorem ReadAs.cons {a : UInt16} {l : Text} (ha : a ≠ cr) (h : ReadAs r l) : ReadAs (a :: r) (a :: l) := by
  have hcount : (a :: r).count cr = r.count cr := by simp [ha]
  rcases h with ⟨hno, rfl⟩ | ⟨hyes, hcr | hlen⟩
  · exact .inl ⟨by simp [Ne.symm ha, hno], rfl⟩
  · exact .inr ⟨.tail _ hyes, .inl (.tail _ hcr)⟩
  · refine .inr ⟨.tail _ hyes, .inr ?_⟩
    rw [hcount, List.length_cons, List.length_cons]
    omega

theorem ReadAs.eaten {b : UInt16} {l : Text} (hb : b ≠ cr) (h : ReadAs r l) : ReadAs (cr :: lf :: b :: r) l := by
  have hcount : (cr :: lf :: b :: r).count cr = r.count cr + 1 := by simp [hb, show lf ≠ cr by decide]
  refine .inr ⟨List.mem_cons_self, ?_⟩
  rcases h with ⟨hno, rfl⟩ | ⟨-, hcr | hlen⟩
  · right
    rw [hcount, List.count_eq_zero.2 hno]
    simp
  · exact .inl hcr
  · right
    rw [hcount]
    simp only [List.length_cons]
    omega

theorem ReadAs.ended (h : r.count cr < r.length) : ReadAs (cr :: r) [] := by
  refine .inr ⟨List.mem_cons_self, .inr ?_⟩
  rw [List.count_cons_self, List.length_nil, List.length_cons]
  omega

theorem ReadAs.kept {l : Text} : ReadAs (cr :: r) (cr :: l) := .inr ⟨List.mem_cons_self, .inl List.mem_cons_self⟩

/-- **One line.** What the reader gets of a folded line. -/
theorem readAs_firstLine (h : Folded r t) (hrest : NoBlank rest) :
    ReadAs r (firstLine (unfoldLines (t ++ cr :: lf :: rest))) := by
  induction hn : t.length using Nat.strongRecOn generalizing r t with
  | ind n ih =>
  subst hn
  cases h with
  | nil =>
    rw [List.nil_append, unfoldLines_crlf hrest, firstLine_crlf]
    exact .inl ⟨by simp, rfl⟩
  | @fold _ t h =>
    have heq : unfoldLines (cr :: lf :: space :: t ++ cr :: lf :: rest) = unfoldLines (t ++ cr :: lf :: rest) :=
      unfoldLines_fold rfl
    rw [heq]
    exact ih t.length (by simp only [List.length_cons]; omega) h rfl
  | @unit a r t h =>
    rw [List.cons_append]
    by_cases ha : a = cr
    · subst ha
      by_cases hlf : ∃ x, t ++ cr :: lf :: rest = lf :: x
      · obtain ⟨x, hx⟩ := hlf
        obtain ⟨r, t', rfl, h', rfl, hlt⟩ := h.cons_inv (by decide) hx
        rw [hx]
        by_cases hblank : ∃ b y, t' ++ cr :: lf :: rest = b :: y ∧ isBlank b = true
        · -- a line feed and a blank follow: a fold
          obtain ⟨b, y, hy, hb⟩ := hblank
          have hne : b ≠ cr := fun e => by rw [e] at hb; cases hb
          obtain ⟨r, t'', rfl, h'', rfl, hlt'⟩ := h'.cons_inv hne hy
          rw [hy, unfoldLines_fold hb]
          exact (ih t''.length (by simp only [List.length_cons]; omega) h'' rfl).eaten hne
        · -- a line feed follows and no blank: the end of the line
          rw [unfoldLines_cr, unfoldLines_of_ne (by decide), firstLine_crlf]
          · refine ReadAs.ended ?_
            have hle : r.count cr ≤ r.length := List.count_le_length
            rw [List.count_cons_of_ne (by decide), List.length_cons]
            omega
          · intro b y hy
            by_contra hb
            exact hblank ⟨b, y, (List.cons.inj hy).2, by simpa using hb⟩
      · rw [unfoldLines_cr fun b x hx => absurd ⟨_, hx⟩ hlf]
        by_cases hmade : ∃ u, unfoldLines (t ++ cr :: lf :: rest) = lf :: u
        · -- a fold stood between the carriage return and a line feed
          obtain ⟨u, hu⟩ := hmade
          rw [hu, firstLine_crlf]
          refine ReadAs.ended (Nat.lt_of_le_of_ne List.count_le_length fun hcount => ?_)
          have hall : ∀ a ∈ r, a = cr := fun a ha => (List.count_eq_length.1 hcount a ha).symm
          obtain ⟨u', hu'⟩ := unfoldLines_of_all_cr h hall hrest
          rw [hu] at hu'
          exact absurd (List.cons.inj hu').1 (by decide)
        · rw [firstLine_cons fun u _ hu => hmade ⟨u, hu⟩]
          exact .kept
    · rw [unfoldLines_of_ne ha, firstLine_cons fun _ e => absurd e ha]
      exact (ih t.length (by simp) h rfl).cons ha

/-- The part of a line before its carriage returns is read as it was written. -/
theorem firstLine_append {p e : Text} (hp : cr ∉ p) (h : Folded (p ++ e) t) :
    ∃ t', Folded e t' ∧ firstLine (unfoldLines (t ++ cr :: lf :: rest)) =
      p ++ firstLine (unfoldLines (t' ++ cr :: lf :: rest)) := by
  generalize hr : p ++ e = r at h
  induction h generalizing p with
  | nil =>
    obtain ⟨rfl, rfl⟩ := List.append_eq_nil_iff.1 hr
    exact ⟨[], .nil, rfl⟩
  | @unit a r t h ih =>
    cases p with
    | nil =>
      obtain rfl : e = a :: r := hr
      exact ⟨a :: t, .unit h, rfl⟩
    | cons b p =>
      obtain ⟨rfl, rfl⟩ := List.cons.inj hr
      have hb : b ≠ cr := fun e => hp (e ▸ List.mem_cons_self)
      obtain ⟨t', h', heq⟩ := ih (fun hc => hp (.tail _ hc)) rfl
      refine ⟨t', h', ?_⟩
      rw [List.cons_append, unfoldLines_of_ne hb, firstLine_cons fun _ e => absurd e hb, heq]
      rfl
  | @fold r t h ih =>
    obtain ⟨t', h', heq⟩ := ih hp hr
    refine ⟨t', h', ?_⟩
    rw [← heq]
    exact congrArg firstLine (unfoldLines_fold rfl)

theorem contentLines_cons (h : Folded r t) (hr : cr ∉ r) (hrest : NoBlank rest) :
    contentLines (t ++ cr :: lf :: rest) = r :: contentLines rest := by
  have hunfold : unfoldLines (t ++ cr :: lf :: rest) = r ++ cr :: lf :: unfoldLines rest := by
    induction h with
    | nil => exact unfoldLines_crlf hrest
    | @unit a r t h ih =>
      rw [List.cons_append, unfoldLines_of_ne fun e => hr (e ▸ List.mem_cons_self), ih fun hc => hr (.tail _ hc)]
      rfl
    | fold h ih =>
      rw [← ih hr]
      exact unfoldLines_fold rfl
  have hsplit : ∀ u, splitCrlf (r ++ cr :: lf :: u) = r :: splitCrlf u := by
    intro u
    clear hunfold h
    induction r with
    | nil => simp [splitCrlf]
    | cons a r ih =>
      rw [List.cons_append, splitCrlf_cons fun _ e => absurd (e ▸ List.mem_cons_self) hr,
        ih fun hc => hr (.tail _ hc)]
      rfl
  rw [contentLines, hunfold, hsplit, List.dropLast_cons_of_ne_nil (splitCrlf_ne_nil _)]
  rfl

theorem head_contentLines {l : Text} {ls : List Text} (h : contentLines t = l :: ls) :
    l = firstLine (unfoldLines t) := by
  unfold contentLines firstLine at *
  cases hs : splitCrlf (unfoldLines t) with
  | nil => exact absurd hs (splitCrlf_ne_nil _)
  | cons x xs =>
    rw [hs] at h
    cases xs with
    | nil => cases h
    | cons y ys => exact (List.cons.inj h).1.symm

end OneLine

/-! ### The parts of a line -/

section Parts

/-- No colon stands outside quotes, and every quote that opens is closed. -/
def closes (quoted : Bool) : Text → Bool
  | [] => !quoted
  | a :: t => if a = colon ∧ quoted = false then false else closes (if a = quote then !quoted else quoted) t

theorem cutAt_of_closes {p v : Text} {q : Bool} (h : closes q p = true) :
    cutAt q (p ++ colon :: v) = some (p, v) := by
  induction p generalizing q with
  | nil => simpa [cutAt, closes] using h
  | cons a p ih =>
    rw [closes] at h
    split at h
    · cases h
    · rename_i hcolon
      rw [List.cons_append, cutAt, if_neg hcolon, ih h]
      rfl

/-- Else the cut is at a colon inside the first part, or at one after it. -/
theorem cutAt_of_not_closes {p v x y : Text} {q : Bool} (h : closes q p = false)
    (hcut : cutAt q (p ++ colon :: v) = some (x, y)) :
    (∃ z, p = x ++ colon :: z) ∨ ∃ z, x = p ++ colon :: z := by
  induction p generalizing q x y with
  | nil =>
    obtain rfl : q = true := by simpa [closes] using h
    rw [List.nil_append, cutAt, if_neg (by simp), if_neg (by decide), Option.map_eq_some_iff] at hcut
    obtain ⟨⟨x', y'⟩, -, hxy⟩ := hcut
    obtain ⟨rfl, -⟩ := Prod.mk.inj hxy
    exact .inr ⟨x', rfl⟩
  | cons a p ih =>
    rw [closes] at h
    rw [List.cons_append, cutAt] at hcut
    split at h
    · rename_i hcolon
      rw [if_pos hcolon] at hcut
      obtain ⟨rfl, -⟩ := Prod.mk.inj (Option.some.inj hcut)
      exact .inl ⟨p, by rw [hcolon.1]; rfl⟩
    · rename_i hcolon
      rw [if_neg hcolon, Option.map_eq_some_iff] at hcut
      obtain ⟨⟨x', y'⟩, hcut', hxy⟩ := hcut
      obtain ⟨rfl, -⟩ := Prod.mk.inj hxy
      rcases ih h hcut' with ⟨z, rfl⟩ | ⟨z, rfl⟩
      · exact .inl ⟨z, rfl⟩
      · exact .inr ⟨z, rfl⟩

theorem unescape_of_ne {a : UInt16} {t : Text} (h : a ≠ backslash) : unescape (a :: t) = a :: unescape t := by
  cases t with
  | nil => rfl
  | cons b t => simp [unescape, h]

theorem unescape_append_of_plain {p : Text} (h : backslash ∉ p) (t : Text) :
    unescape (p ++ t) = p ++ unescape t := by
  induction p with
  | nil => rfl
  | cons a p ih =>
    rw [List.cons_append, unescape_of_ne fun e => h (e ▸ List.mem_cons_self), ih fun hc => h (.tail _ hc)]
    rfl

theorem unescape_append_colon (p t : Text) : unescape (p ++ colon :: t) = unescape p ++ colon :: unescape t := by
  induction p using unescape.induct with
  | case1 => exact unescape_of_ne (by decide)
  | case2 a =>
    have hcolon : ¬ (colon = backslash ∨ colon = semicolon ∨ colon = comma) := by decide
    have hn : ¬ (colon = letterN ∨ colon = capitalN) := by decide
    simp [unescape, hcolon, hn, unescape_of_ne (show colon ≠ backslash by decide)]
  | case3 a b rest h ih =>
    rw [List.cons_append, List.cons_append, unescape, if_pos h, unescape, if_pos h, ih]
    rfl
  | case4 a b rest h h' ih =>
    rw [List.cons_append, List.cons_append, unescape, if_neg h, if_pos h', unescape, if_neg h, if_pos h', ih]
    rfl
  | case5 a b rest h h' ih =>
    rw [List.cons_append, List.cons_append, unescape, if_neg h, if_neg h', unescape, if_neg h, if_neg h',
      ← List.cons_append, ih]
    rfl

theorem length_unescape_le (t : Text) : (unescape t).length ≤ t.length := by
  induction t using unescape.induct with
  | case1 => simp [unescape]
  | case2 a => simp [unescape]
  | case3 a b rest h ih =>
    rw [unescape, if_pos h]
    simp only [List.length_cons]
    omega
  | case4 a b rest h h' ih =>
    rw [unescape, if_neg h, if_pos h']
    simp only [List.length_cons]
    omega
  | case5 a b rest h h' ih =>
    rw [unescape, if_neg h, if_neg h']
    simp only [List.length_cons] at ih ⊢
    omega

/-- Escapes hold no carriage return. -/
theorem cr_mem_unescape {t : Text} (h : cr ∈ t) : cr ∈ unescape t := by
  induction t using unescape.induct with
  | case1 => cases h
  | case2 a => exact h
  | case3 a b rest hesc ih =>
    rw [unescape, if_pos hesc]
    have hb : cr ≠ b := by
      rintro rfl
      exact absurd hesc.2 (by decide)
    have ha : cr ≠ a := by
      rintro rfl
      exact absurd hesc.1 (by decide)
    simp only [List.mem_cons, ha, hb, false_or] at h
    exact .tail _ (ih h)
  | case4 a b rest hesc hn ih =>
    rw [unescape, if_neg hesc, if_pos hn]
    have hb : cr ≠ b := by
      rintro rfl
      exact absurd hn.2 (by decide)
    have ha : cr ≠ a := by
      rintro rfl
      exact absurd hn.1 (by decide)
    simp only [List.mem_cons, ha, hb, false_or] at h
    exact .tail _ (ih h)
  | case5 a b rest hesc hn ih =>
    rw [unescape, if_neg hesc, if_neg hn]
    rcases List.mem_cons.1 h with rfl | h
    · exact List.mem_cons_self
    · exact .tail _ (ih h)

/-- **The parts of a line.** They are read as they were meant if the first colon outside quotes is the one between
them, and the value is. -/
theorem readLine_iff {p v value : Text} :
    readLine (p ++ colon :: v) = some (unescape p, value) ↔ closes false p = true ∧ unescape v = value := by
  unfold readLine
  cases hcl : closes false p with
  | true =>
    rw [cutAt_of_closes hcl]
    simp
  | false =>
    refine iff_of_false (fun h => ?_) (by simp)
    rw [Option.map_eq_some_iff] at h
    obtain ⟨⟨x, y⟩, hcut, hxy⟩ := h
    have hlen : (unescape x).length = (unescape p).length := congrArg List.length (Prod.mk.inj hxy).1
    -- the first part is too short or too long
    rcases cutAt_of_not_closes hcl hcut with ⟨z, rfl⟩ | ⟨z, rfl⟩
    · rw [unescape_append_colon, List.length_append, List.length_cons] at hlen
      omega
    · rw [unescape_append_colon, List.length_append, List.length_cons] at hlen
      omega

end Parts

/-! ### Texts of many lines -/

theorem length_stripCr (t : Text) : (stripCr t).length + t.count cr = t.length := by
  unfold stripCr
  induction t with
  | nil => rfl
  | cons a t ih =>
    by_cases ha : a = cr
    · simp [ha] at ih ⊢
      omega
    · simp [ha] at ih ⊢
      omega

theorem cr_not_mem_stripCr (t : Text) : cr ∉ stripCr t := by simp [stripCr]

theorem stripCr_append (s t : Text) : stripCr (s ++ t) = stripCr s ++ stripCr t := List.filter_append s t

theorem stripCr_of_not_mem {t : Text} (h : cr ∉ t) : stripCr t = t := by
  rw [stripCr, List.filter_eq_self]
  intro a ha
  rw [bne_iff_ne]
  rintro rfl
  exact h ha

/-- A text that is written so that it can be read back as what it means, whatever follows. -/
structure Part (written meant : Text) : Prop where
  no_cr : cr ∉ written
  reads : ∀ t, unescape (written ++ t) = stripCr meant ++ unescape t

theorem Part.plain {t : Text} (hcr : cr ∉ t) (hplain : backslash ∉ t) : Part t t :=
  ⟨hcr, fun t' => by rw [unescape_append_of_plain hplain, stripCr_of_not_mem hcr]⟩

theorem Part.nil : Part [] [] := .plain (by simp) (by simp)

theorem Part.append {w w' m m' : Text} (h : Part w m) (h' : Part w' m') : Part (w ++ w') (m ++ m') where
  no_cr := by simp [h.no_cr, h'.no_cr]
  reads t := by rw [List.append_assoc, h.reads, h'.reads, stripCr_append, List.append_assoc]

/-- A line to be written: the name with its parameters, and a value whose last part is written as it is. -/
structure Line where
  params : Text
  fixed : Text
  raw : Text
  name : Text
  value : Text
  starts : ∃ a t, params = a :: t ∧ isBlank a = false
  params_part : Part params name
  fixed_part : Part fixed value

namespace Line

def text (l : Line) : Text := l.params ++ colon :: (l.fixed ++ l.raw)

theorem name_eq (l : Line) : unescape l.params = stripCr l.name := by
  have h := l.params_part.reads []
  rwa [List.append_nil, unescape, List.append_nil] at h

def meant (l : Line) : Text × Text := (stripCr l.name, stripCr (l.value ++ l.raw))

/-- The first colon outside quotes is the one before the value, and what is written as it is needs no escape. -/
structure Good (l : Line) : Prop where
  closes : closes false l.params = true
  no_cr : cr ∉ l.raw
  plain : unescape l.raw = l.raw

end Line

section Writing

variable {fold : Text → Text}

/-- The lines one after another, each folded and ended. -/
def write (fold : Text → Text) (ls : List Line) : Text := ls.flatMap fun l => fold l.text ++ [cr, lf]

theorem noBlank_write (hfold : ∀ r, Folded r (fold r)) (ls : List Line) : NoBlank (write fold ls) := by
  cases ls with
  | nil => trivial
  | cons l ls =>
    obtain ⟨a, t, hl, ha⟩ := l.starts
    have hf := hfold l.text
    rw [Line.text, hl] at hf
    rw [write, List.flatMap_cons, Line.text, hl]
    generalize fold (a :: t ++ colon :: (l.fixed ++ l.raw)) = u at hf ⊢
    cases hf with
    | unit h => exact ha
    | fold h => rfl

/-- A line that holds a carriage return is not read as it was meant. -/
theorem readLine_ne_of_cr {l : Line} {t rest line : Text} {ls : List Text} (h : Folded l.text t)
    (hrest : NoBlank rest) (hcr : cr ∈ l.raw) (hlines : contentLines (t ++ cr :: lf :: rest) = line :: ls) :
    readLine line ≠ some l.meant := by
  intro hread
  have hpre : cr ∉ l.params ++ colon :: l.fixed := by
    simp [l.params_part.no_cr, l.fixed_part.no_cr, show cr ≠ colon by decide]
  have htext : l.text = (l.params ++ colon :: l.fixed) ++ l.raw := by simp [Line.text]
  rw [htext] at h
  obtain ⟨t', h', hfirst⟩ := @firstLine_append t rest _ _ hpre h
  have hy := readAs_firstLine h' hrest
  rw [← head_contentLines hlines] at hfirst
  generalize firstLine (unfoldLines (t' ++ cr :: lf :: rest)) = y at hfirst hy
  -- the reader would have to get the raw part without its carriage returns out of `y`
  have hvalue : unescape y = stripCr l.raw := by
    rw [hfirst, List.append_assoc, List.cons_append, Line.meant, ← l.name_eq, readLine_iff, l.fixed_part.reads,
      stripCr_append] at hread
    exact List.append_cancel_left hread.2
  rcases hy with ⟨hno, -⟩ | ⟨-, hmem | hlen⟩
  · exact hno hcr
  · exact cr_not_mem_stripCr l.raw (hvalue ▸ cr_mem_unescape hmem)
  · have hle := length_unescape_le y
    have hstrip := length_stripCr l.raw
    rw [hvalue] at hle
    omega

theorem readLine_text_iff {l : Line} (hcr : cr ∉ l.raw) : readLine l.text = some l.meant ↔ l.Good := by
  rw [Line.text, Line.meant, ← l.name_eq, readLine_iff, l.fixed_part.reads, stripCr_append, List.append_cancel_left_eq,
    stripCr_of_not_mem hcr]
  exact ⟨fun h => ⟨h.1, hcr, h.2⟩, fun h => ⟨h.closes, h.plain⟩⟩

/-- **Many lines.** A reader gets exactly the lines that were meant if and only if every line is good. -/
theorem contentLines_write_iff (hfold : ∀ r, Folded r (fold r)) (ls : List Line) :
    (contentLines (write fold ls)).map readLine = ls.map (fun l => some l.meant) ↔ ∀ l ∈ ls, l.Good := by
  induction ls with
  | nil => simp [write, contentLines, unfoldLines, splitCrlf]
  | cons l ls ih =>
    have hwrite : write fold (l :: ls) = fold l.text ++ cr :: lf :: write fold ls := by
      simp [write, List.flatMap_cons]
    have hrest := noBlank_write hfold ls
    rw [hwrite, List.map_cons, List.forall_mem_cons]
    by_cases hcr : cr ∈ l.raw
    · refine iff_of_false (fun h => ?_) fun h => h.1.no_cr hcr
      cases hlines : contentLines (fold l.text ++ cr :: lf :: write fold ls) with
      | nil =>
        rw [hlines] at h
        cases h
      | cons line lines =>
        rw [hlines, List.map_cons] at h
        exact readLine_ne_of_cr (hfold _) hrest hcr hlines (List.cons.inj h).1
    · have hno : cr ∉ l.text := by
        simp [Line.text, l.params_part.no_cr, l.fixed_part.no_cr, hcr, show cr ≠ colon by decide]
      rw [contentLines_cons (hfold _) hno hrest, List.map_cons, List.cons.injEq, readLine_text_iff hcr, ih]

end Writing

end Text

end BookingSystem.Base
