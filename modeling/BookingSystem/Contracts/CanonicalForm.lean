import Mathlib.Data.List.Dedup
import BookingSystem.Effects.CanonicalText

/-!
# Whether the canonical form is canonical

Where two prefixes are bound to one URI, `prefixFor` gives whichever the map comes by first, and it is asked anew for
every name that it writes. Outside of that the form is one: it depends neither on the order of a map nor on that of the
attributes of a tag (`canonical_iff`).
-/

namespace BookingSystem.Contracts.CanonicalForm

open Base Model.XmlC14n Effects.CanonicalText

/-! ### Documents, but for the order of attributes -/

/-- The same token, with the attributes in another order. -/
inductive Reordered : RawToken → RawToken → Prop
  | startElement (name : XmlName) {attrs attrs' : List XmlAttr} (h : attrs.Perm attrs') :
    Reordered (.startElement name attrs) (.startElement name attrs')
  | endElement (name : XmlName) : Reordered (.endElement name) (.endElement name)
  | charData (text : XmlText) : Reordered (.charData text) (.charData text)
  | other : Reordered .other .other

/-- **The form is canonical**: neither the order of the maps nor that of attributes and declarations is seen in
it. -/
def Canonical (inclusive : List (List Char)) (raw : List RawToken) : Prop :=
  ∀ order order' raw', List.Forall₂ Reordered raw raw' →
    canonicalizeExclusive order inclusive raw = canonicalizeExclusive order' inclusive raw'

/-- The decoder splits a name at its colon, if there is one and only one. -/
def SplitName (n : XmlName) : Prop := n.localName ≠ [] ∧ (n.space ≠ [] → ':' ∉ n.space ∧ ':' ∉ n.localName)

/-- No tag of a well-formed document names an attribute twice. -/
def WellFormed (raw : List RawToken) : Prop :=
  ∀ name attrs, RawToken.startElement name attrs ∈ raw →
    (attrs.map XmlAttr.name).Nodup ∧ ∀ a ∈ attrs, SplitName a.name

/-! ### Where it is -/

def declaration (a : Attr) : Option (List Char × List Char) :=
  if a.name.space = xmlns then some (a.name.localName, a.value)
  else if a.name.localName = xmlns then some ([], a.value)
  else none

/-- Every prefix is declared once, and every resolved name is that of one attribute. -/
def Once (tokens : List Token) : Prop :=
  ∀ name attrs, Token.startElement name attrs ∈ tokens →
    (∀ a ∈ attrs, ∀ b ∈ attrs, ∀ p q, declaration a = some p → declaration b = some q → p.1 = q.1 → p = q) ∧
      ∀ a ∈ plainAttrs attrs, ∀ b ∈ plainAttrs attrs, a.name = b.name → a = b

/-- The URI is that of the default namespace, or of one prefix at most. -/
def OnePrefix (scope : NsMap) (uri : List Char) : Prop :=
  uri = [] ∨ uri = scope.get [] ∨ (candidates scope uri).length ≤ 1

/-- Every name that is written has one prefix in its scope. -/
def OnePrefixes : (scopes : List NsMap) → List Token → Prop
  | _, [] => True
  | scopes, .startElement name attrs :: ts =>
    (OnePrefix (declared (top scopes) attrs) name.space ∧
      ∀ a ∈ plainAttrs attrs, OnePrefix (declared (top scopes) attrs) a.name.space) ∧
      OnePrefixes (declared (top scopes) attrs :: scopes) ts
  | scopes, .endElement name :: ts => OnePrefix (top scopes) name.space ∧ OnePrefixes scopes.tail ts
  | scopes, .charData _ :: ts | scopes, .other :: ts => OnePrefixes scopes ts

instance (scope : NsMap) : DecidablePred (OnePrefix scope) := fun uri =>
  inferInstanceAs (Decidable (uri = [] ∨ uri = scope.get [] ∨ (candidates scope uri).length ≤ 1))

instance decidableOnePrefixes : ∀ scopes tokens, Decidable (OnePrefixes scopes tokens)
  | _, [] => .isTrue trivial
  | scopes, .startElement name attrs :: ts =>
    have := decidableOnePrefixes (declared (top scopes) attrs :: scopes) ts
    inferInstanceAs (Decidable ((OnePrefix (declared (top scopes) attrs) name.space ∧
      ∀ a ∈ plainAttrs attrs, OnePrefix (declared (top scopes) attrs) a.name.space) ∧
      OnePrefixes (declared (top scopes) attrs :: scopes) ts))
  | scopes, .endElement name :: ts =>
    have := decidableOnePrefixes scopes.tail ts
    inferInstanceAs (Decidable (OnePrefix (top scopes) name.space ∧ OnePrefixes scopes.tail ts))
  | scopes, .charData _ :: ts => decidableOnePrefixes scopes ts
  | scopes, .other :: ts => decidableOnePrefixes scopes ts

/-! ### Maps up to the order of their entries -/

/-- The same map: its entries in any order. -/
structure Same (m m' : NsMap) : Prop where
  perm : m.Perm m'
  keys : (m.map Prod.fst).Nodup

section

variable {m m' m'' decls decls' : NsMap}

theorem Same.refl (h : (m.map Prod.fst).Nodup) : Same m m := ⟨.refl _, h⟩

theorem Same.keys' (h : Same m m') : (m'.map Prod.fst).Nodup := (h.perm.map _).nodup_iff.1 h.keys

theorem Same.trans (h : Same m m') (h' : Same m' m'') : Same m m'' := ⟨h.perm.trans h'.perm, h.keys⟩

theorem lookup_eq_some_iff {k v : List Char} (hm : (m.map Prod.fst).Nodup) : m.lookup k = some v ↔ (k, v) ∈ m := by
  induction m with
  | nil => simp
  | cons p m ih =>
    rw [List.map_cons, List.nodup_cons] at hm
    rw [List.lookup_cons, List.mem_cons]
    split
    · rename_i heq
      have hk : k = p.1 := by simpa using heq
      subst hk
      have hnot : ∀ v, (p.1, v) ∉ m := fun v hv => hm.1 (List.mem_map.2 ⟨_, hv, rfl⟩)
      simp [hnot, Prod.ext_iff, eq_comm]
    · rename_i hne
      have hk : k ≠ p.1 := by simpa using hne
      rw [ih hm.2]
      exact ⟨.inr, fun h => h.resolve_left fun heq => hk (congrArg Prod.fst heq)⟩

theorem Same.lookup (h : Same m m') (k : List Char) : m.lookup k = m'.lookup k := by
  ext v
  rw [lookup_eq_some_iff h.keys, lookup_eq_some_iff h.keys', h.perm.mem_iff]

theorem Same.get (h : Same m m') (k : List Char) : m.get k = m'.get k := by rw [NsMap.get, NsMap.get, h.lookup]

theorem nodup_set {k v : List Char} (h : (m.map Prod.fst).Nodup) : ((m.set k v).map Prod.fst).Nodup := by
  rw [NsMap.set, List.map_cons, List.nodup_cons]
  exact ⟨by simp, h.sublist (List.filter_sublist.map _)⟩

theorem Same.set (h : Same m m') (k v : List Char) : Same (m.set k v) (m'.set k v) :=
  ⟨(h.perm.filter _).cons _, nodup_set h.keys⟩

theorem set_comm {k k' v v' : List Char} (hm : (m.map Prod.fst).Nodup) (h : k ≠ k') :
    Same ((m.set k v).set k' v') ((m.set k' v').set k v) := by
  refine ⟨?_, nodup_set (nodup_set hm)⟩
  simp only [NsMap.set, List.filter_cons, decide_eq_true h, decide_eq_true (Ne.symm h), if_true]
  rw [List.filter_comm]
  exact .swap ..

theorem Same.layer (h : Same m m') : Same (layer m decls) (layer m' decls) := by
  induction decls generalizing m m' with
  | nil => exact h
  | cons p decls ih => exact ih (h.set p.1 p.2)

theorem Same.layer_perm (h : Same m m') (hperm : decls.Perm decls')
    (honce : ∀ p ∈ decls, ∀ q ∈ decls, p.1 = q.1 → p = q) :
    Same (Effects.CanonicalText.layer m decls) (Effects.CanonicalText.layer m' decls') := by
  induction hperm generalizing m m' with
  | nil => exact h
  | cons p _ ih =>
    exact ih (h.set p.1 p.2) fun q hq r hr => honce q (List.mem_cons_of_mem _ hq) r (List.mem_cons_of_mem _ hr)
  | swap p q decls =>
    by_cases heq : q.1 = p.1
    · have hpq : q = p := honce q (by simp) p (by simp) heq
      subst hpq
      exact (h.set _ _).set _ _ |>.layer
    · exact ((set_comm h.keys heq).trans ((h.set _ _).set _ _)).layer
  | trans h₁ _ ih₁ ih₂ =>
    have hmiddle := ih₁ (Same.refl h.keys) honce
    exact hmiddle.trans (ih₂ h fun p hp q hq => honce p (h₁.mem_iff.2 hp) q (h₁.mem_iff.2 hq))

theorem declared_eq (scope : NsMap) (attrs : List Attr) :
    declared scope attrs = layer scope (attrs.filterMap declaration) := by
  induction attrs generalizing scope with
  | nil => rfl
  | cons a attrs ih =>
    rw [declared, List.foldl_cons, ← declared, ih, List.filterMap_cons]
    unfold declaration
    split
    · simp [*]; rfl
    · split
      · simp [*]; rfl
      · simp [*]

end

/-! ### The decoder -/

def rawDeclaration (a : XmlAttr) : Option (List Char × List Char) :=
  if a.name.space = xmlns then some (a.name.localName, a.value.chars)
  else if a.name.space = [] ∧ a.name.localName = xmlns then some ([], a.value.chars)
  else none

theorem declare_eq (ns : NsMap) (attrs : List XmlAttr) :
    declare ns attrs = layer ns (attrs.filterMap rawDeclaration) := by
  induction attrs generalizing ns with
  | nil => rfl
  | cons a attrs ih =>
    rw [declare, List.foldl_cons, ← declare, ih, List.filterMap_cons]
    unfold rawDeclaration
    split
    · simp [*]; rfl
    · split
      · simp [*]; rfl
      · simp [*]

section

variable {ns ns' : NsMap}

/-- Attributes of different names declare different prefixes. -/
theorem rawDeclaration_once {attrs : List XmlAttr} (hnames : (attrs.map XmlAttr.name).Nodup)
    (hsplit : ∀ a ∈ attrs, SplitName a.name) :
    ∀ p ∈ attrs.filterMap rawDeclaration, ∀ q ∈ attrs.filterMap rawDeclaration, p.1 = q.1 → p = q := by
  intro p hp q hq hpq
  obtain ⟨a, ha, hap⟩ := List.mem_filterMap.1 hp
  obtain ⟨b, hb, hbq⟩ := List.mem_filterMap.1 hq
  have hname : a.name = b.name := by
    have hla := (hsplit a ha).1
    have hlb := (hsplit b hb).1
    have hext : a.name.space = b.name.space → a.name.localName = b.name.localName → a.name = b.name := by
      intro h₁ h₂
      rcases a with ⟨⟨_, _⟩, _⟩
      rcases b with ⟨⟨_, _⟩, _⟩
      simp_all
    unfold rawDeclaration at hap hbq
    split at hap <;> split at hbq <;> simp_all
    all_goals aesop
  have hab : a = b := List.inj_on_of_nodup_map hnames ha hb hname
  subst hab
  exact Option.some.inj (hap.symm.trans hbq)

theorem Same.declare {attrs attrs' : List XmlAttr} (h : Same ns ns') (hperm : attrs.Perm attrs')
    (hnames : (attrs.map XmlAttr.name).Nodup) (hsplit : ∀ a ∈ attrs, SplitName a.name) :
    Same (Model.XmlC14n.declare ns attrs) (Model.XmlC14n.declare ns' attrs') := by
  rw [declare_eq, declare_eq]
  exact h.layer_perm (hperm.filterMap _) (rawDeclaration_once hnames hsplit)

theorem Same.translate (h : Same ns ns') : Model.XmlC14n.translate ns = Model.XmlC14n.translate ns' := by
  funext n isElementName
  simp only [Model.XmlC14n.translate, h.lookup]

/-- The same resolved token, with the attributes in another order. -/
inductive Permuted : Token → Token → Prop
  | startElement (name : XmlName) {attrs attrs' : List Attr} (h : attrs.Perm attrs') :
    Permuted (.startElement name attrs) (.startElement name attrs')
  | endElement (name : XmlName) : Permuted (.endElement name) (.endElement name)
  | charData (text : List Char) : Permuted (.charData text) (.charData text)
  | other : Permuted .other .other

theorem rel_map_cons {x y : Token} {a b : Option (List Token)} (hxy : Permuted x y)
    (h : Option.Rel (List.Forall₂ Permuted) a b) :
    Option.Rel (List.Forall₂ Permuted) (a.map (x :: ·)) (b.map (y :: ·)) := by
  cases h with
  | some hts => exact .some (.cons hxy hts)
  | none => exact .none

theorem resolve_reordered {raw raw' : List RawToken} {opened opened' : List (XmlName × NsMap)}
    (hraw : List.Forall₂ Reordered raw raw') (hwf : WellFormed raw) (hns : Same ns ns')
    (hopened : List.Forall₂ (fun e e' => e.1 = e'.1 ∧ Same e.2 e'.2) opened opened') :
    Option.Rel (List.Forall₂ Permuted) (resolve opened ns raw) (resolve opened' ns' raw') := by
  induction hraw generalizing ns ns' opened opened' with
  | nil =>
    cases hopened with
    | nil => exact .some .nil
    | cons => exact .none
  | cons htoken hrest ih =>
    have hwf' := fun name attrs h => hwf name attrs (List.mem_cons_of_mem _ h)
    cases htoken with
    | startElement name hperm =>
      obtain ⟨hnames, hsplit⟩ := hwf name _ List.mem_cons_self
      have hinner := hns.declare hperm hnames hsplit
      simp only [resolve]
      refine rel_map_cons ?_ (ih hwf' hinner (.cons ⟨rfl, hns⟩ hopened))
      rw [hinner.translate]
      exact .startElement _ (hperm.map _)
    | endElement name =>
      cases hopened with
      | nil => exact .none
      | cons hhead htail =>
        rename_i e e' _ _
        obtain ⟨hname, hsame⟩ := hhead
        simp only [resolve, hname, hns.translate]
        split
        · exact rel_map_cons (.endElement _) (ih hwf' hsame htail)
        · exact .none
    | charData text =>
      simp only [resolve]
      exact rel_map_cons (.charData _) (ih hwf' hns hopened)
    | other =>
      simp only [resolve]
      exact rel_map_cons .other (ih hwf' hns hopened)

end

/-! ### The orders of the tag -/

/-- The order of Go's strings. -/
def NotAfter (a b : List Char) : Prop := ¬ List.Lex (· < ·) b a

theorem notAfter_total (a b : List Char) : NotAfter a b ∨ NotAfter b a := List.le_total a b

theorem NotAfter.trans {a b c : List Char} (h : NotAfter a b) (h' : NotAfter b c) : NotAfter a c := List.le_trans h h'

theorem NotAfter.antisymm {a b : List Char} (h : NotAfter a b) (h' : NotAfter b a) : a = b := List.le_antisymm h h'

theorem prefixLe_iff {a b : List Char} : prefixLe a b ↔ a = [] ∨ b ≠ [] ∧ NotAfter a b := by
  unfold prefixLe NotAfter
  exact or_congr_right (and_congr_right fun _ => not_lt.symm)

theorem attrLe_iff {a b : Attr} : attrLe a b ↔ List.Lex (· < ·) a.name.space b.name.space ∨
    a.name.space = b.name.space ∧ NotAfter a.name.localName b.name.localName := by
  unfold attrLe NotAfter
  exact or_congr_right (and_congr_right fun _ => not_lt.symm)

instance : Std.Total fun p q : List Char × List Char => prefixLe p.1 q.1 where
  total p q := by
    rw [prefixLe_iff, prefixLe_iff]
    rcases notAfter_total p.1 q.1 with h | h <;> by_cases hp : p.1 = [] <;> by_cases hq : q.1 = [] <;> simp [hp, hq, h]

instance : IsTrans (List Char × List Char) fun p q => prefixLe p.1 q.1 where
  trans p q r hpq hqr := by
    rw [prefixLe_iff] at hpq hqr ⊢
    rcases hpq with hp | ⟨hq, hpq⟩
    · exact .inl hp
    · obtain ⟨hr, hqr⟩ := hqr.resolve_left hq
      exact .inr ⟨hr, hpq.trans hqr⟩

theorem prefixLe_antisymm {p q : List Char} (hpq : prefixLe p q) (hqp : prefixLe q p) : p = q := by
  rw [prefixLe_iff] at hpq hqp
  rcases hpq with rfl | ⟨hq, hpq⟩
  · rcases hqp with rfl | ⟨hp, -⟩
    · rfl
    · exact (hp rfl).elim
  · exact hpq.antisymm (hqp.resolve_left hq).2

instance : Std.Total attrLe where
  total a b := by
    rw [attrLe_iff, attrLe_iff]
    by_cases hab : List.Lex (· < ·) a.name.space b.name.space
    · exact .inl (.inl hab)
    by_cases hba : List.Lex (· < ·) b.name.space a.name.space
    · exact .inr (.inl hba)
    have hspace : a.name.space = b.name.space := NotAfter.antisymm hba hab
    exact (notAfter_total a.name.localName b.name.localName).imp (fun hle => .inr ⟨hspace, hle⟩)
      fun hle => .inr ⟨hspace.symm, hle⟩

instance : IsTrans Attr attrLe where
  trans a b c hab hbc := by
    rw [attrLe_iff] at hab hbc ⊢
    rcases hab with hab | ⟨hab, hle⟩
    · exact .inl (hbc.elim (List.lt_trans hab) fun h => h.1 ▸ hab)
    · exact hbc.imp (fun h => hab ▸ h) fun h => ⟨hab.trans h.1, hle.trans h.2⟩

theorem name_eq_of_attrLe {a b : Attr} (hab : attrLe a b) (hba : attrLe b a) : a.name = b.name := by
  rw [attrLe_iff] at hab hba
  have hspace : a.name.space = b.name.space := by
    rcases hab with hlt | ⟨hspace, -⟩
    · exact hba.elim (fun h => (List.lt_asymm hlt h).elim) fun h => h.1.symm
    · exact hspace
  have hirrefl : ¬ List.Lex (· < ·) a.name.space a.name.space := List.lt_irrefl _
  have hle := (hab.resolve_left (hspace ▸ hirrefl)).2
  have hle' := (hba.resolve_left (hspace ▸ hirrefl)).2
  rcases a with ⟨⟨space, localName⟩, value⟩
  rcases b with ⟨⟨space', localName'⟩, value'⟩
  exact XmlName.mk.injEq .. |>.mpr ⟨hspace, hle.antisymm hle'⟩

/-! ### One text -/

section

variable {scope scope' : NsMap} {uri p p' q q' : List Char}

theorem candidates_perm (h : Same scope scope') (uri : List Char) :
    (candidates scope uri).Perm (candidates scope' uri) := (h.perm.filter _).map _

theorem picks_unique (h : Same scope scope') (hone : OnePrefix scope uri) (huri : uri ≠ []) (hp : Picks scope uri p)
    (hp' : Picks scope' uri p') : p = p' := by
  unfold Picks at hp hp'
  rw [← h.get] at hp'
  split at hp
  · rename_i hdefault
    rw [if_pos hdefault] at hp'
    exact hp.trans hp'.symm
  · rename_i hdefault
    rw [if_neg hdefault] at hp'
    have hle : (candidates scope uri).length ≤ 1 := (hone.resolve_left huri).resolve_left hdefault
    have hperm := candidates_perm h uri
    rcases hc : candidates scope uri with _ | ⟨x, _ | ⟨y, cs⟩⟩
    · rw [hc] at hperm
      rw [if_pos hc] at hp
      rw [if_pos hperm.nil_eq.symm] at hp'
      exact hp.trans hp'.symm
    · rw [hc] at hperm
      rw [hc, if_neg (by simp), List.mem_singleton] at hp
      rw [List.perm_singleton.1 hperm.symm, if_neg (by simp), List.mem_singleton] at hp'
      exact hp.trans hp'.symm
    · simp [hc] at hle

theorem exists_picks (scope : NsMap) (uri : List Char) : ∃ p, Picks scope uri p := by
  unfold Picks
  split
  · exact ⟨_, rfl⟩
  · split
    · exact ⟨_, rfl⟩
    · rename_i hc
      exact ⟨_, List.head_mem hc⟩

theorem elementName_unique {n : XmlName} (h : Same scope scope') (hone : OnePrefix scope n.space)
    (hq : ElementName scope n q) (hq' : ElementName scope' n q') : q = q' := by
  unfold ElementName at hq hq'
  split at hq
  · rename_i hspace
    rw [if_pos hspace] at hq'
    exact hq.trans hq'.symm
  · rename_i hspace
    rw [if_neg hspace] at hq'
    obtain ⟨p, hp, rfl⟩ := hq
    obtain ⟨p', hp', rfl⟩ := hq'
    rw [picks_unique h hone hspace hp hp']

theorem attrName_unique {n : XmlName} (h : Same scope scope') (hone : OnePrefix scope n.space)
    (hq : AttrName scope n q) (hq' : AttrName scope' n q') : q = q' := by
  unfold AttrName at hq hq'
  split at hq
  · rename_i hspace
    rw [if_pos hspace] at hq'
    exact hq.trans hq'.symm
  · rename_i hspace
    rw [if_neg hspace] at hq'
    obtain ⟨p, hp, rfl⟩ := hq
    obtain ⟨p', hp', rfl⟩ := hq'
    rw [picks_unique h hone hspace hp hp']

end

section

variable {inclusive : List (List Char)} {scope scope' parentRendered parentRendered' : NsMap} {name : XmlName}
  {attrs attrs' : List Attr} {used used' : List (List Char)}

theorem exists_of_mem_left {α β : Type} {R : α → β → Prop} {as : List α} {ps : List β} {a : α}
    (h : List.Forall₂ R as ps) (ha : a ∈ as) : ∃ p ∈ ps, R a p := by
  induction h with
  | nil => cases ha
  | cons hR _ ih =>
    rcases List.mem_cons.1 ha with rfl | ha
    · exact ⟨_, List.mem_cons_self, hR⟩
    · obtain ⟨p, hp, hRp⟩ := ih ha
      exact ⟨p, List.mem_cons_of_mem _ hp, hRp⟩

/-- The prefixes of the attributes of one tag are those of the other. -/
theorem ofAttrs_subset {as as' : List Attr} {ps ps' : List (List Char)}
    (hpick : ∀ a ∈ as, ∀ p p', Picks scope a.name.space p → Picks scope' a.name.space p' → p = p') (hsub : as ⊆ as')
    (hps : List.Forall₂ (fun a p => Picks scope a.name.space p) as ps)
    (hps' : List.Forall₂ (fun a p => Picks scope' a.name.space p) as' ps') : ps ⊆ ps' := by
  intro p hp
  obtain ⟨a, ha, hpa⟩ := exists_of_mem_left hps.flip hp
  obtain ⟨p', hp', hpa'⟩ := exists_of_mem_left hps' (hsub ha)
  rwa [hpick a ha p p' hpa hpa']

/-- One element and its attributes, in two scopes that are the same. -/
structure SameTag (scope scope' : NsMap) (name : XmlName) (attrs attrs' : List Attr) : Prop where
  same : Same scope scope'
  perm : attrs.Perm attrs'
  own : OnePrefix scope name.space
  ofAttrs : ∀ a ∈ plainAttrs attrs, OnePrefix scope a.name.space
  once : ∀ a ∈ plainAttrs attrs, ∀ b ∈ plainAttrs attrs, a.name = b.name → a = b

namespace SameTag

theorem plain_perm (h : SameTag scope scope' name attrs attrs') : (plainAttrs attrs).Perm (plainAttrs attrs') :=
  h.perm.filter _

theorem used_perm (h : SameTag scope scope' name attrs attrs') (hused : Used inclusive scope name attrs used)
    (hused' : Used inclusive scope' name attrs' used') : used.Perm used' := by
  obtain ⟨own, ofAttrs, hown, hattrs, rfl⟩ := hused
  obtain ⟨own', ofAttrs', hown', hattrs', rfl⟩ := hused'
  have heq : own = own' := by
    split at hown
    · rename_i hspace
      rw [if_pos hspace] at hown'
      exact hown.trans hown'.symm
    · rename_i hspace
      rw [if_neg hspace] at hown'
      exact picks_unique h.same h.own hspace hown hown'
  subst heq
  have hperm : ((plainAttrs attrs).filter fun a => decide (a.name.space ≠ [])).Perm
      ((plainAttrs attrs').filter fun a => decide (a.name.space ≠ [])) := h.plain_perm.filter _
  have hpick : ∀ a ∈ (plainAttrs attrs).filter fun a => decide (a.name.space ≠ []), ∀ p p',
      Picks scope a.name.space p → Picks scope' a.name.space p' → p = p' := by
    intro a ha p p' hp hp'
    rw [List.mem_filter, decide_eq_true_eq] at ha
    exact picks_unique h.same (h.ofAttrs a ha.1) ha.2 hp hp'
  have hsub : ofAttrs ⊆ ofAttrs' := ofAttrs_subset hpick hperm.subset hattrs hattrs'
  have hsub' : ofAttrs' ⊆ ofAttrs :=
    ofAttrs_subset (fun a ha p p' hp hp' => (hpick a (hperm.mem_iff.2 ha) p' p hp' hp).symm) hperm.symm.subset hattrs'
      hattrs
  rw [List.perm_ext_iff_of_nodup (List.nodup_dedup _) (List.nodup_dedup _)]
  intro p
  have hiff : p ∈ ofAttrs ↔ p ∈ ofAttrs' := ⟨fun hp => hsub hp, fun hp => hsub' hp⟩
  simp only [List.mem_dedup, List.mem_cons, List.mem_append, hiff]

theorem sorted_eq (h : SameTag scope scope' name attrs attrs') :
    (plainAttrs attrs).insertionSort attrLe = (plainAttrs attrs').insertionSort attrLe := by
  have hperm : ((plainAttrs attrs).insertionSort attrLe).Perm ((plainAttrs attrs').insertionSort attrLe) :=
    ((List.perm_insertionSort attrLe _).trans h.plain_perm).trans (List.perm_insertionSort attrLe _).symm
  refine hperm.eq_of_pairwise (fun a b ha hb hab hba => ?_) (List.pairwise_insertionSort attrLe _)
    (List.pairwise_insertionSort attrLe _)
  rw [List.mem_insertionSort] at ha hb
  exact h.once a ha b (h.plain_perm.mem_iff.2 hb) (name_eq_of_attrLe hab hba)

theorem attrs_eq {as as' : List (List Char)} (h : SameTag scope scope' name attrs attrs')
    (has : List.Forall₂ (fun a t => ∃ n, AttrName scope a.name n ∧ t = attrText n a.value)
      ((plainAttrs attrs).insertionSort attrLe) as)
    (has' : List.Forall₂ (fun a t => ∃ n, AttrName scope' a.name n ∧ t = attrText n a.value)
      ((plainAttrs attrs').insertionSort attrLe) as') : as = as' := by
  rw [← h.sorted_eq] at has'
  have hone : ∀ a ∈ (plainAttrs attrs).insertionSort attrLe, OnePrefix scope a.name.space := fun a ha =>
    h.ofAttrs a ((List.mem_insertionSort attrLe).1 ha)
  generalize (plainAttrs attrs).insertionSort attrLe = sorted at has has' hone
  induction has generalizing as' with
  | nil =>
    cases has'
    rfl
  | cons hhead _ ih =>
    cases has' with
    | cons hhead' htail' =>
      obtain ⟨n, hn, rfl⟩ := hhead
      obtain ⟨n', hn', rfl⟩ := hhead'
      rw [attrName_unique h.same (hone _ List.mem_cons_self) hn hn',
        ih htail' fun a ha => hone a (List.mem_cons_of_mem _ ha)]

end SameTag

theorem emitOf_perm (hscope : Same scope scope') (hrendered : Same parentRendered parentRendered')
    (hused : used.Perm used') :
    (emitOf scope parentRendered used).Perm (emitOf scope' parentRendered' used') := by
  unfold emitOf
  simp only [hscope.lookup, hrendered.get]
  exact hused.filterMap _

theorem emitOf_keys (hused : used.Nodup) : ((emitOf scope parentRendered used).map Prod.fst).Nodup := by
  have hsub : ((emitOf scope parentRendered used).map Prod.fst).Sublist used := by
    induction used with
    | nil => exact .slnil
    | cons p used ih =>
      have hrest := ih (List.nodup_cons.1 hused).2
      unfold emitOf at hrest ⊢
      rw [List.filterMap_cons]
      split
      · exact hrest.cons p
      · rename_i q hq
        obtain ⟨uri, -, hsome⟩ := Option.bind_eq_some_iff.1 hq
        split at hsome
        · cases hsome
        · cases hsome
          exact hrest.cons_cons p
  exact hused.sublist hsub

theorem sortedDecls_eq {emit emit' : NsMap} (hkeys : (emit.map Prod.fst).Nodup) (hperm : emit.Perm emit') :
    sortedDecls emit = sortedDecls emit' := by
  have hsorted : (sortedDecls emit).Perm (sortedDecls emit') :=
    ((List.perm_insertionSort _ _).trans hperm).trans (List.perm_insertionSort _ _).symm
  refine hsorted.eq_of_pairwise (fun p q hp hq hpq hqp => ?_) (List.pairwise_insertionSort _ _)
    (List.pairwise_insertionSort _ _)
  rw [sortedDecls, List.mem_insertionSort] at hp hq
  exact List.inj_on_of_nodup_map hkeys hp (hperm.mem_iff.2 hq) (prefixLe_antisymm hpq hqp)

theorem startTag_unique {text text' : List Char} {rendered rendered' : NsMap}
    (h : SameTag scope scope' name attrs attrs') (hparent : Same parentRendered parentRendered')
    (htag : StartTag inclusive scope parentRendered name attrs text rendered)
    (htag' : StartTag inclusive scope' parentRendered' name attrs' text' rendered') :
    text = text' ∧ Same rendered rendered' := by
  obtain ⟨used, q, as, hused, hq, has, rfl, rfl⟩ := htag
  obtain ⟨used', q', as', hused', hq', has', rfl, rfl⟩ := htag'
  have hemit := emitOf_perm h.same hparent (h.used_perm hused hused')
  have hnodup : used.Nodup := by
    obtain ⟨own, ofAttrs, -, -, rfl⟩ := hused
    exact List.nodup_dedup _
  have hkeys : ((emitOf scope parentRendered used).map Prod.fst).Nodup := emitOf_keys hnodup
  refine ⟨?_, hparent.layer_perm hemit fun p hp r hr => List.inj_on_of_nodup_map hkeys hp hr⟩
  rw [elementName_unique h.same h.own hq hq', h.attrs_eq has has', sortedDecls_eq hkeys hemit]

end

theorem top_same {stack stack' : List NsMap} (h : List.Forall₂ Same stack stack') : Same (top stack) (top stack') := by
  cases h with
  | nil => exact Same.refl List.nodup_nil
  | cons hsame _ => exact hsame

theorem tail_same {stack stack' : List NsMap} (h : List.Forall₂ Same stack stack') :
    List.Forall₂ Same stack.tail stack'.tail := by
  cases h with
  | nil => exact .nil
  | cons _ hrest => exact hrest

theorem Same.declared {scope scope' : NsMap} {attrs attrs' : List Attr} (h : Same scope scope')
    (hperm : attrs.Perm attrs')
    (honce : ∀ a ∈ attrs, ∀ b ∈ attrs, ∀ p q, declaration a = some p → declaration b = some q → p.1 = q.1 → p = q) :
    Same (Model.XmlC14n.declared scope attrs) (Model.XmlC14n.declared scope' attrs') := by
  rw [declared_eq, declared_eq]
  refine h.layer_perm (hperm.filterMap _) fun p hp q hq hpq => ?_
  obtain ⟨a, ha, hap⟩ := List.mem_filterMap.1 hp
  obtain ⟨b, hb, hbq⟩ := List.mem_filterMap.1 hq
  exact honce a ha b hb p q hap hbq hpq

/-- **One text**, for the tokens in the order of their tags. -/
theorem written_unique {inclusive : List (List Char)} {tokens tokens' : List Token}
    {scopes scopes' rendereds rendereds' : List NsMap} {text text' : List Char}
    (htokens : List.Forall₂ Permuted tokens tokens') (honce : Once tokens) (hone : OnePrefixes scopes tokens)
    (hscopes : List.Forall₂ Same scopes scopes') (hrendereds : List.Forall₂ Same rendereds rendereds')
    (h : Written inclusive scopes rendereds tokens text) (h' : Written inclusive scopes' rendereds' tokens' text') :
    text = text' := by
  induction htokens generalizing scopes scopes' rendereds rendereds' text text' with
  | nil => exact Eq.trans h (Eq.symm h')
  | cons htoken _ ih =>
    have honce' : Once _ := fun name attrs h => honce name attrs (List.mem_cons_of_mem _ h)
    cases htoken with
    | startElement name hperm =>
      obtain ⟨hdeclared, hnamed⟩ := honce name _ List.mem_cons_self
      obtain ⟨tag, rendered, rest, htag, hrest, rfl⟩ := h
      obtain ⟨tag', rendered', rest', htag', hrest', rfl⟩ := h'
      obtain ⟨⟨hown, hattrs⟩, htail⟩ := hone
      have hscope := (top_same hscopes).declared hperm hdeclared
      obtain ⟨rfl, hrendered⟩ := startTag_unique ⟨hscope, hperm, hown, hattrs, hnamed⟩ (top_same hrendereds) htag htag'
      rw [ih honce' htail (.cons hscope hscopes) (.cons hrendered hrendereds) hrest hrest']
    | endElement name =>
      obtain ⟨q, rest, hq, hrest, rfl⟩ := h
      obtain ⟨q', rest', hq', hrest', rfl⟩ := h'
      rw [elementName_unique (top_same hscopes) hone.1 hq hq',
        ih honce' hone.2 (tail_same hscopes) (tail_same hrendereds) hrest hrest']
    | charData text =>
      obtain ⟨rest, hrest, rfl⟩ := h
      obtain ⟨rest', hrest', rfl⟩ := h'
      rw [ih honce' hone hscopes hrendereds hrest hrest']
    | other => exact ih honce' hone hscopes hrendereds h h'

/-! ### Two texts -/

/-- Prefixes as the decoder gives them. -/
structure Prefixes (scope : NsMap) : Prop where
  keys : (scope.map Prod.fst).Nodup
  split : ∀ p ∈ scope, ':' ∉ p.1

/-- No local part behind a prefix has a colon. -/
def SplitNames (tokens : List Token) : Prop :=
  ∀ name attrs, Token.startElement name attrs ∈ tokens → ∀ a ∈ attrs, a.name.space ≠ [] → ':' ∉ a.name.localName

theorem Prefixes.declared {scope : NsMap} {attrs : List Attr} (h : Prefixes scope)
    (hsplit : ∀ a ∈ attrs, a.name.space ≠ [] → ':' ∉ a.name.localName) :
    Prefixes (Model.XmlC14n.declared scope attrs) := by
  rw [declared_eq]
  have hdecls : ∀ p ∈ attrs.filterMap declaration, ':' ∉ p.1 := by
    intro p hp
    obtain ⟨a, ha, hap⟩ := List.mem_filterMap.1 hp
    unfold declaration at hap
    split at hap
    · rename_i hspace
      cases hap
      exact hsplit a ha (by rw [hspace]; decide)
    · split at hap
      · cases hap
        exact List.not_mem_nil
      · cases hap
  generalize attrs.filterMap declaration = decls at hdecls
  induction decls generalizing scope with
  | nil => exact h
  | cons p decls ih =>
    refine ih ⟨nodup_set h.keys, fun q hq => ?_⟩ fun q hq => hdecls q (List.mem_cons_of_mem _ hq)
    rcases List.mem_cons.1 hq with rfl | hq
    · exact hdecls p List.mem_cons_self
    · exact h.split q (List.mem_of_mem_filter hq)

theorem splitNames_of_resolve {raw : List RawToken} {opened : List (XmlName × NsMap)} {ns : NsMap}
    {tokens : List Token} (hwf : WellFormed raw) (h : resolve opened ns raw = some tokens) : SplitNames tokens := by
  induction raw generalizing opened ns tokens with
  | nil =>
    cases opened with
    | nil =>
      cases h
      exact fun _ _ h => by cases h
    | cons => cases h
  | cons t raw ih =>
    have hwf' : WellFormed raw := fun name attrs h => hwf name attrs (List.mem_cons_of_mem _ h)
    have hcons : ∀ {u : Token} {rest : Option (List Token)}, rest.map (u :: ·) = some tokens →
        (∀ ts, rest = some ts → SplitNames ts) →
        (∀ name attrs, u = .startElement name attrs → ∀ a ∈ attrs, a.name.space ≠ [] → ':' ∉ a.name.localName) →
        SplitNames tokens := by
      intro u rest hmap hrest hhead name attrs hmem
      obtain ⟨ts, hts, rfl⟩ := Option.map_eq_some_iff.1 hmap
      rcases List.mem_cons.1 hmem with heq | hmem
      · exact hhead name attrs heq.symm
      · exact hrest ts hts name attrs hmem
    cases t with
    | startElement name attrs =>
      rw [resolve] at h
      refine hcons h (fun ts hts => ih hwf' hts) fun name' attrs' heq a ha hspace => ?_
      cases heq
      obtain ⟨b, hb, rfl⟩ := List.mem_map.1 ha
      have hlocal (ns : NsMap) (n : XmlName) : (Model.XmlC14n.translate ns n false).localName = n.localName := by
        unfold Model.XmlC14n.translate
        split <;> rfl
      have hempty (ns : NsMap) (n : XmlName) (hn : n.space = []) : (Model.XmlC14n.translate ns n false).space = [] := by
        rw [Model.XmlC14n.translate, if_pos (.inr ⟨hn, .inl rfl⟩), hn]
      rw [hlocal]
      exact (((hwf name attrs List.mem_cons_self).2 b hb).2 fun hn => hspace (hempty _ _ hn)).2
    | endElement name =>
      cases opened with
      | nil => cases h
      | cons e opened =>
        rw [resolve] at h
        split at h
        · exact hcons h (fun ts hts => ih hwf' hts) fun _ _ heq => by cases heq
        · cases h
    | charData text =>
      rw [resolve] at h
      exact hcons h (fun ts hts => ih hwf' hts) fun _ _ heq => by cases heq
    | other =>
      rw [resolve] at h
      exact hcons h (fun ts hts => ih hwf' hts) fun _ _ heq => by cases heq

/-- Two prefixes of one URI. -/
theorem exists_two {scope : NsMap} {uri : List Char} (h : Prefixes scope) (hone : ¬ OnePrefix scope uri) :
    uri ≠ [] ∧ ∃ p p', p ≠ p' ∧ (p ≠ [] ∧ ':' ∉ p ∧ Picks scope uri p) ∧ (p' ≠ [] ∧ ':' ∉ p' ∧ Picks scope uri p') := by
  unfold OnePrefix at hone
  push Not at hone
  obtain ⟨huri, hdefault, htwo⟩ := hone
  have hmem : ∀ p ∈ candidates scope uri, p ≠ [] ∧ ':' ∉ p ∧ Picks scope uri p := by
    intro p hp
    obtain ⟨e, he, rfl⟩ := List.mem_map.1 hp
    rw [List.mem_filter, decide_eq_true_eq] at he
    exact ⟨he.2.1, h.split e he.1, by
      rw [Picks, if_neg hdefault, if_neg (List.ne_nil_of_mem hp)]
      exact hp⟩
  have hnodup : (candidates scope uri).Nodup := h.keys.sublist (List.filter_sublist.map _)
  rcases hc : candidates scope uri with _ | ⟨p, _ | ⟨p', ps⟩⟩
  · simp [hc] at htwo
  · simp [hc] at htwo
  · rw [hc] at hmem hnodup
    refine ⟨huri, p, p', ?_, hmem p (by simp), hmem p' (by simp)⟩
    rintro rfl
    simp at hnodup

theorem exists_forall₂ {α β : Type} {R : α → β → Prop} {as : List α} (h : ∀ a ∈ as, ∃ b, R a b) :
    ∃ bs, List.Forall₂ R as bs := by
  induction as with
  | nil => exact ⟨[], .nil⟩
  | cons a as ih =>
    obtain ⟨b, hb⟩ := h a List.mem_cons_self
    obtain ⟨bs, hbs⟩ := ih fun a ha => h a (List.mem_cons_of_mem _ ha)
    exact ⟨b :: bs, .cons hb hbs⟩

section

variable (inclusive : List (List Char)) (scope parentRendered : NsMap) (name : XmlName) (attrs : List Attr)

theorem exists_used : ∃ used, Used inclusive scope name attrs used := by
  have hown : ∃ own, if name.space = [] then own = [] else Picks scope name.space own := by
    split
    · exact ⟨_, rfl⟩
    · exact exists_picks ..
  obtain ⟨own, hown⟩ := hown
  obtain ⟨ofAttrs, hattrs⟩ : ∃ ofAttrs, List.Forall₂ (fun (a : Attr) p => Picks scope a.name.space p)
      ((plainAttrs attrs).filter fun a => decide (a.name.space ≠ [])) ofAttrs :=
    exists_forall₂ fun a _ => exists_picks ..
  exact ⟨_, own, ofAttrs, hown, hattrs, rfl⟩

theorem exists_elementName (n : XmlName) : ∃ q, ElementName scope n q := by
  unfold ElementName
  split
  · exact ⟨_, rfl⟩
  · obtain ⟨p, hp⟩ := exists_picks scope n.space
    exact ⟨_, p, hp, rfl⟩

theorem exists_attrName (n : XmlName) : ∃ q, AttrName scope n q := by
  unfold AttrName
  split
  · exact ⟨_, rfl⟩
  · obtain ⟨p, hp⟩ := exists_picks scope n.space
    exact ⟨_, p, hp, rfl⟩

theorem exists_attrTexts (sorted : List Attr) : ∃ as,
    List.Forall₂ (fun (a : Attr) t => ∃ n, AttrName scope a.name n ∧ t = attrText n a.value) sorted as :=
  exists_forall₂ fun a _ =>
    have ⟨n, hn⟩ := exists_attrName scope a.name
    ⟨_, n, hn, rfl⟩

theorem exists_startTag : ∃ text rendered, StartTag inclusive scope parentRendered name attrs text rendered := by
  obtain ⟨used, hused⟩ := exists_used inclusive scope name attrs
  obtain ⟨q, hq⟩ := exists_elementName scope name
  obtain ⟨as, has⟩ := exists_attrTexts scope ((plainAttrs attrs).insertionSort attrLe)
  exact ⟨_, _, used, q, as, hused, hq, has, rfl, rfl⟩

end

theorem exists_written (inclusive : List (List Char)) (scopes rendereds : List NsMap) (tokens : List Token) :
    ∃ text, Written inclusive scopes rendereds tokens text := by
  induction tokens generalizing scopes rendereds with
  | nil => exact ⟨[], rfl⟩
  | cons t ts ih =>
    cases t with
    | startElement name attrs =>
      obtain ⟨tag, rendered, htag⟩ := exists_startTag inclusive (declared (top scopes) attrs) (top rendereds) name attrs
      obtain ⟨rest, hrest⟩ := ih (declared (top scopes) attrs :: scopes) (rendered :: rendereds)
      exact ⟨_, tag, rendered, rest, htag, hrest, rfl⟩
    | endElement name =>
      obtain ⟨q, hq⟩ := exists_elementName (top scopes) name
      obtain ⟨rest, hrest⟩ := ih scopes.tail rendereds.tail
      exact ⟨_, q, rest, hq, hrest, rfl⟩
    | charData text =>
      obtain ⟨rest, hrest⟩ := ih scopes rendereds
      exact ⟨_, rest, hrest, rfl⟩
    | other => exact ih scopes rendereds

/-- Different prefixes make different texts. -/
theorem prefix_eq {p p' s t : List Char} (hp : ':' ∉ p) (hp' : ':' ∉ p') (h : p ++ ':' :: s = p' ++ ':' :: t) :
    p = p' := by
  induction p generalizing p' with
  | nil =>
    cases p' with
    | nil => rfl
    | cons c p' => exact (hp' ((List.cons.inj h).1 ▸ List.mem_cons_self)).elim
  | cons c p ih =>
    cases p' with
    | nil => exact (hp ((List.cons.inj h).1 ▸ List.mem_cons_self)).elim
    | cons c' p' =>
      obtain ⟨rfl, htail⟩ := List.cons.inj h
      rw [ih (fun h => hp (List.mem_cons_of_mem _ h)) (fun h => hp' (List.mem_cons_of_mem _ h)) htail]

theorem elementName_of_pick {scope : NsMap} {n : XmlName} {p : List Char} (hspace : n.space ≠ []) (hp : p ≠ [])
    (h : Picks scope n.space p) : ElementName scope n (p ++ ':' :: n.localName) := by
  rw [ElementName, if_neg hspace]
  exact ⟨p, h, (if_neg hp).symm⟩

/-- Where every run gives one text, each name has one prefix. -/
theorem onePrefixes_of_unique (inclusive : List (List Char)) (rendereds : List NsMap) {tokens : List Token}
    {scopes : List NsMap} (hscopes : ∀ scope ∈ scopes, Prefixes scope) (hsplit : SplitNames tokens)
    (h : ∀ text text', Written inclusive scopes rendereds tokens text →
      Written inclusive scopes rendereds tokens text' → text = text') : OnePrefixes scopes tokens := by
  induction tokens generalizing scopes rendereds with
  | nil => trivial
  | cons t ts ih =>
    have hsplit' : SplitNames ts := fun name attrs h => hsplit name attrs (List.mem_cons_of_mem _ h)
    have htop : Prefixes (top scopes) := by
      cases scopes with
      | nil => exact ⟨List.nodup_nil, fun _ h => by cases h⟩
      | cons scope scopes => exact hscopes scope List.mem_cons_self
    cases t with
    | startElement name attrs =>
      have hscope := htop.declared (hsplit name attrs List.mem_cons_self)
      have hscopes' : ∀ scope ∈ declared (top scopes) attrs :: scopes, Prefixes scope :=
        List.forall_mem_cons.2 ⟨hscope, hscopes⟩
      let scope := declared (top scopes) attrs
      obtain ⟨used, hused⟩ := exists_used inclusive scope name attrs
      obtain ⟨q, hq⟩ := exists_elementName scope name
      obtain ⟨as, has⟩ := exists_attrTexts scope ((plainAttrs attrs).insertionSort attrLe)
      obtain ⟨decls, rendered, hwritten⟩ : ∃ decls rendered, ∀ {q' as'}, ElementName scope name q' →
          List.Forall₂ (fun (a : Attr) t => ∃ n, AttrName scope a.name n ∧ t = attrText n a.value)
            ((plainAttrs attrs).insertionSort attrLe) as' →
          ∀ rest, Written inclusive (scope :: scopes) (rendered :: rendereds) ts rest →
            Written inclusive scopes rendereds (.startElement name attrs :: ts)
              ('<' :: q' ++ decls ++ as'.flatten ++ ['>'] ++ rest) :=
        ⟨_, _, fun hq' has' rest hrest => ⟨_, _, rest, ⟨used, _, _, hused, hq', has', rfl, rfl⟩, hrest, rfl⟩⟩
      obtain ⟨rest, hrest⟩ := exists_written inclusive (scope :: scopes) (rendered :: rendereds) ts
      refine ⟨⟨?_, fun a ha => ?_⟩, ih (rendered :: rendereds) hscopes' hsplit' fun _ _ ht ht' => ?_⟩
      · by_contra hone
        obtain ⟨hspace, p, p', hne, ⟨hp, hcolon, hpick⟩, hp', hcolon', hpick'⟩ := exists_two hscope hone
        have heq := h _ _ (hwritten (elementName_of_pick hspace hp hpick) has rest hrest)
          (hwritten (elementName_of_pick hspace hp' hpick') has rest hrest)
        simp only [List.cons_append, List.append_assoc, List.cons.injEq, true_and] at heq
        exact hne (prefix_eq hcolon hcolon' heq)
      · by_contra hone
        obtain ⟨hspace, p, p', hne, ⟨-, hcolon, hpick⟩, -, hcolon', hpick'⟩ := exists_two hscope hone
        have hmem : a ∈ (plainAttrs attrs).insertionSort attrLe := (List.mem_insertionSort attrLe).2 ha
        obtain ⟨before, after, hsorted⟩ := List.append_of_mem hmem
        obtain ⟨ts₁, hts₁⟩ := exists_attrTexts scope before
        obtain ⟨ts₂, hts₂⟩ := exists_attrTexts scope after
        have hattrs : ∀ {p}, Picks scope a.name.space p → List.Forall₂
            (fun (a : Attr) t => ∃ n, AttrName scope a.name n ∧ t = attrText n a.value)
            ((plainAttrs attrs).insertionSort attrLe)
            (ts₁ ++ attrText (p ++ ':' :: a.name.localName) a.value :: ts₂) := by
          intro p hp
          rw [hsorted]
          refine List.rel_append hts₁ (.cons ⟨_, ?_, rfl⟩ hts₂)
          rw [AttrName, if_neg hspace]
          exact ⟨p, hp, rfl⟩
        have heq := h _ _ (hwritten hq (hattrs hpick) rest hrest) (hwritten hq (hattrs hpick') rest hrest)
        simp only [List.cons_append, List.append_assoc, List.cons.injEq, true_and, List.flatten_append,
          List.flatten_cons, attrText, List.append_cancel_left_eq] at heq
        exact hne (prefix_eq hcolon hcolon' heq)
      · exact List.append_cancel_left (h _ _ (hwritten hq has _ ht) (hwritten hq has _ ht'))
    | endElement name =>
      obtain ⟨rest, hrest⟩ := exists_written inclusive scopes.tail rendereds.tail ts
      have htail : ∀ scope ∈ scopes.tail, Prefixes scope := fun scope hs => hscopes scope (List.mem_of_mem_tail hs)
      refine ⟨?_, ih rendereds.tail htail hsplit' fun _ _ ht ht' => ?_⟩
      · by_contra hone
        obtain ⟨hspace, p, p', hne, ⟨hp, hcolon, hpick⟩, hp', hcolon', hpick'⟩ := exists_two htop hone
        have heq := h _ _ ⟨_, rest, elementName_of_pick hspace hp hpick, hrest, rfl⟩
          ⟨_, rest, elementName_of_pick hspace hp' hpick', hrest, rfl⟩
        simp only [List.append_assoc, List.append_cancel_left_eq, List.cons_append] at heq
        exact hne (prefix_eq hcolon hcolon' heq)
      · obtain ⟨q, hq⟩ := exists_elementName (top scopes) name
        exact List.append_cancel_left (h _ _ ⟨q, _, hq, ht, rfl⟩ ⟨q, _, hq, ht', rfl⟩)
    | charData text =>
      exact ih rendereds hscopes hsplit' fun rest rest' ht ht' =>
        List.append_cancel_left (h _ _ ⟨rest, ht, rfl⟩ ⟨rest', ht', rfl⟩)
    | other => exact ih rendereds hscopes hsplit' h

/-! ### The form -/

theorem reordered_refl (t : RawToken) : Reordered t t := by
  cases t with
  | startElement name attrs => exact .startElement name (.refl _)
  | endElement name => exact .endElement name
  | charData text => exact .charData text
  | other => exact .other

/-- **The form is canonical where every name has one prefix**, of a document that says everything once. -/
theorem canonical_iff {inclusive : List (List Char)} {raw : List RawToken} {tokens : List Token}
    (hwf : WellFormed raw) (hraw : resolve [] [] raw = some tokens) (honce : Once tokens) :
    Canonical inclusive raw ↔ OnePrefixes [[]] tokens := by
  have hempty : Prefixes [] := ⟨List.nodup_nil, fun _ h => by cases h⟩
  constructor
  · intro h
    refine onePrefixes_of_unique (setOf inclusive) [[]] (List.forall_mem_cons.2 ⟨hempty, fun _ h => by cases h⟩)
      (splitNames_of_resolve hwf hraw) fun text text' ht ht' => ?_
    obtain ⟨order, horder⟩ := canonicalizeExclusive_iff.2 ⟨tokens, hraw, ht⟩
    obtain ⟨order', horder'⟩ := canonicalizeExclusive_iff.2 ⟨tokens, hraw, ht'⟩
    have heq := h order order' raw (List.forall₂_same.2 fun t _ => reordered_refl t)
    rw [horder, horder'] at heq
    exact Option.some.inj heq
  · intro hone order order' raw' hraw'
    have hempty' : Same [] [] := Same.refl List.nodup_nil
    have hresolved := resolve_reordered hraw' hwf hempty' .nil
    rw [hraw] at hresolved
    obtain ⟨tokens', htokens', hpermuted⟩ : ∃ tokens', resolve [] [] raw' = some tokens' ∧
        List.Forall₂ Permuted tokens tokens' := by
      cases hr : resolve [] [] raw' with
      | none =>
        rw [hr] at hresolved
        cases hresolved
      | some tokens' =>
        rw [hr] at hresolved
        cases hresolved with
        | some h => exact ⟨tokens', rfl, h⟩
    have hsome : ∃ text, canonicalizeExclusive order inclusive raw = some text := by
      rw [canonicalizeExclusive, hraw]
      exact ⟨_, rfl⟩
    have hsome' : ∃ text, canonicalizeExclusive order' inclusive raw' = some text := by
      rw [canonicalizeExclusive, htokens']
      exact ⟨_, rfl⟩
    obtain ⟨text, htext⟩ := hsome
    obtain ⟨text', htext'⟩ := hsome'
    obtain ⟨_, hts, hwritten⟩ := canonicalizeExclusive_iff.1 ⟨order, htext⟩
    obtain ⟨_, hts', hwritten'⟩ := canonicalizeExclusive_iff.1 ⟨order', htext'⟩
    cases hraw.symm.trans hts
    cases htokens'.symm.trans hts'
    have hstack : List.Forall₂ Same [[]] [[]] := .cons (Same.refl List.nodup_nil) .nil
    rw [htext, htext', written_unique hpermuted honce hone hstack hstack hwritten hwritten']

def signed : List RawToken :=
  [.startElement ⟨['s'], ['a']⟩ [⟨⟨xmlns, ['s']⟩, ⟨['u'], by decide⟩⟩, ⟨⟨['s'], ['x']⟩, ⟨['v'], by decide⟩⟩,
    ⟨⟨[], ['y']⟩, ⟨['v'], by decide⟩⟩], .endElement ⟨['s'], ['a']⟩]

def twoPrefixes : List RawToken :=
  [.startElement ⟨['p'], ['a']⟩ [⟨⟨xmlns, ['p']⟩, ⟨['u'], by decide⟩⟩, ⟨⟨xmlns, ['q']⟩, ⟨['u'], by decide⟩⟩],
    .endElement ⟨['p'], ['a']⟩]

theorem signed_canonical : Canonical [] signed := by
  have hraw : resolve [] [] signed = some [.startElement ⟨['u'], ['a']⟩ [⟨⟨xmlns, ['s']⟩, ['u']⟩,
      ⟨⟨['u'], ['x']⟩, ['v']⟩, ⟨⟨[], ['y']⟩, ['v']⟩], .endElement ⟨['u'], ['a']⟩] := by decide +kernel
  refine (canonical_iff ?_ hraw ?_).2 ?_
  · intro name attrs h
    simp only [signed, List.mem_cons, RawToken.startElement.injEq, reduceCtorEq, List.not_mem_nil, or_false] at h
    obtain ⟨-, rfl⟩ := h
    refine ⟨by decide, ?_⟩
    simp [SplitName, xmlns]
  · intro name attrs h
    simp only [List.mem_cons, Token.startElement.injEq, reduceCtorEq, List.not_mem_nil, or_false] at h
    obtain ⟨-, rfl⟩ := h
    refine ⟨?_, by decide⟩
    simp [declaration, xmlns]
  · decide +kernel

theorem twoPrefixes_forms : WellFormed twoPrefixes ∧ ¬ Canonical [] twoPrefixes := by
  constructor
  · intro name attrs h
    simp only [twoPrefixes, List.mem_cons, RawToken.startElement.injEq, reduceCtorEq, List.not_mem_nil, or_false] at h
    obtain ⟨-, rfl⟩ := h
    refine ⟨by decide, ?_⟩
    simp [SplitName, xmlns]
  · intro h
    have hsame := h (fun _ => 0) (fun _ => 1) twoPrefixes (List.forall₂_same.2 fun t _ => reordered_refl t)
    revert hsame
    decide +kernel

end BookingSystem.Contracts.CanonicalForm
