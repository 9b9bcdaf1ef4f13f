import BookingSystem.Base.Choices
import BookingSystem.Model.XmlC14n

/-!
# What `c14nWriter` may write

Each call of `prefixFor` ranges over a map, so it may give any prefix that is bound to the URI. `Written` is the
relation between a stream of tokens and the texts that come of it, without the orders in which the maps were ranged
over, and `canonicalizeExclusive_iff` says that these are the texts that `canonicalizeExclusive` returns.
-/

namespace BookingSystem.Effects.CanonicalText

open Base Model.XmlC14n

/-! ### The texts -/

/-- The prefixes that are bound to a URI, without the default namespace. -/
def candidates (scope : NsMap) (uri : List Char) : List (List Char) :=
  (scope.filter fun p => decide (p.1 ≠ [] ∧ p.2 = uri)).map Prod.fst

/-- `prefixFor` may give the prefix. -/
def Picks (scope : NsMap) (uri p : List Char) : Prop :=
  if uri = scope.get [] then p = [] else if candidates scope uri = [] then p = uri else p ∈ candidates scope uri

/-- `qname` may give the name. -/
def ElementName (scope : NsMap) (n : XmlName) (q : List Char) : Prop :=
  if n.space = [] then q = n.localName
  else ∃ p, Picks scope n.space p ∧ q = if p = [] then n.localName else p ++ ':' :: n.localName

def AttrName (scope : NsMap) (n : XmlName) (q : List Char) : Prop :=
  if n.space = [] then q = n.localName else ∃ p, Picks scope n.space p ∧ q = p ++ ':' :: n.localName

def plainAttrs (attrs : List Attr) : List Attr := attrs.filter fun a => !isDeclaration a

def Used (inclusive : List (List Char)) (scope : NsMap) (name : XmlName) (attrs : List Attr)
    (used : List (List Char)) : Prop :=
  ∃ own ofAttrs, (if name.space = [] then own = [] else Picks scope name.space own) ∧
    List.Forall₂ (fun a p => Picks scope a.name.space p) ((plainAttrs attrs).filter fun a => decide (a.name.space ≠ []))
      ofAttrs ∧
    used = (own :: (ofAttrs ++ inclusive)).dedup

/-- The declarations that a start tag gets. -/
def emitOf (scope parentRendered : NsMap) (used : List (List Char)) : NsMap :=
  used.filterMap fun p =>
    (scope.lookup p).bind fun uri => if parentRendered.get p = uri then none else some (p, uri)

def declText (p : List Char × List Char) : List Char :=
  if p.1 = [] then " xmlns=\"".toList ++ escapeAttr p.2 ++ "\"".toList
  else " xmlns:".toList ++ p.1 ++ "=\"".toList ++ escapeAttr p.2 ++ "\"".toList

def attrText (q value : List Char) : List Char := ' ' :: q ++ "=\"".toList ++ escapeAttr value ++ "\"".toList

def sortedDecls (emit : NsMap) : NsMap := emit.insertionSort fun a b => prefixLe a.1 b.1

/-- The map with declarations over it. -/
def layer (m decls : NsMap) : NsMap := decls.foldl (fun m p => m.set p.1 p.2) m

/-- A start tag may get the text, with what is rendered inside of it. -/
def StartTag (inclusive : List (List Char)) (scope parentRendered : NsMap) (name : XmlName) (attrs : List Attr)
    (text : List Char) (rendered : NsMap) : Prop :=
  ∃ used q as, Used inclusive scope name attrs used ∧ ElementName scope name q ∧
    List.Forall₂ (fun a t => ∃ n, AttrName scope a.name n ∧ t = attrText n a.value)
      ((plainAttrs attrs).insertionSort attrLe) as ∧
    text = '<' :: q ++ (sortedDecls (emitOf scope parentRendered used)).flatMap declText ++ as.flatten ++ ['>'] ∧
    rendered = layer parentRendered (emitOf scope parentRendered used)

/-- **The texts of a stream of tokens**, in the namespaces that are declared and rendered around it. -/
def Written (inclusive : List (List Char)) : (scopes rendereds : List NsMap) → List Token → List Char → Prop
  | _, _, [], text => text = []
  | scopes, rendereds, .startElement name attrs :: ts, text =>
    ∃ tag rendered rest, StartTag inclusive (declared (top scopes) attrs) (top rendereds) name attrs tag rendered ∧
      Written inclusive (declared (top scopes) attrs :: scopes) (rendered :: rendereds) ts rest ∧ text = tag ++ rest
  | scopes, rendereds, .endElement name :: ts, text =>
    ∃ q rest, ElementName (top scopes) name q ∧ Written inclusive scopes.tail rendereds.tail ts rest ∧
      text = "</".toList ++ q ++ ['>'] ++ rest
  | scopes, rendereds, .charData t :: ts, text =>
    ∃ rest, Written inclusive scopes rendereds ts rest ∧ text = escapeText t ++ rest
  | scopes, rendereds, .other :: ts, text => Written inclusive scopes rendereds ts text

/-! ### The programs and their texts -/

/-- The writer without the number of its ranges. -/
structure Page where
  out : List Char
  scope : List NsMap
  rendered : List NsMap

def pageOf (w : C14nWriter) : Page := ⟨w.out, w.scope, w.rendered⟩

def Page.append (k : Page) (text : List Char) : Page := { k with out := k.out ++ text }

@[simp] theorem Page.append_nil (k : Page) : k.append [] = k := by simp [Page.append]

@[simp] theorem Page.append_append (k : Page) (s t : List Char) : (k.append s).append t = k.append (s ++ t) := by
  simp [Page.append]

section

variable {α β : Type}

/-- The program leaves the page as it is, and gives the values with `P`. -/
abbrev Asks (m : (ℕ → ℕ) → StateM C14nWriter α) (P : α → Prop) : Prop :=
  Realises pageOf C14nWriter.ranges m fun k a k' => P a ∧ k' = k

/-- The program writes the texts with `T`. -/
abbrev Puts (m : (ℕ → ℕ) → StateM C14nWriter Unit) (T : List Char → Prop) : Prop :=
  Realises pageOf C14nWriter.ranges m fun k _ k' => ∃ t, T t ∧ k' = k.append t

theorem asks_pure (a : α) : Asks (fun _ => pure a) (· = a) := Realises.pure a

theorem Asks.bind {m : (ℕ → ℕ) → StateM C14nWriter α} {f : α → (ℕ → ℕ) → StateM C14nWriter β} {P : α → Prop}
    {Q : α → β → Prop} (hm : Asks m P) (hf : ∀ a, Asks (f a) (Q a)) :
    Asks (fun order => m order >>= fun a => f a order) fun b => ∃ a, P a ∧ Q a b :=
  (Realises.bind hm hf).congr fun k _ _ =>
    ⟨fun ⟨a, _, ⟨hP, hl⟩, hQ, hk⟩ => ⟨⟨a, hP, hQ⟩, hk.trans hl⟩,
      fun ⟨⟨a, hP, hQ⟩, hk⟩ => ⟨a, k, ⟨hP, rfl⟩, hQ, hk⟩⟩

theorem Asks.puts {m : (ℕ → ℕ) → StateM C14nWriter α} {f : α → (ℕ → ℕ) → StateM C14nWriter Unit} {P : α → Prop}
    {T : α → List Char → Prop} (hm : Asks m P) (hf : ∀ a, Puts (f a) (T a)) :
    Puts (fun order => m order >>= fun a => f a order) fun t => ∃ a, P a ∧ T a t :=
  (Realises.bind hm hf).congr fun k _ _ => by
    constructor
    · rintro ⟨a, l, ⟨hP, rfl⟩, t, hT, rfl⟩
      exact ⟨t, ⟨a, hP, hT⟩, rfl⟩
    · rintro ⟨t, ⟨a, hP, hT⟩, rfl⟩
      exact ⟨a, k, ⟨hP, rfl⟩, t, hT, rfl⟩

theorem puts_writeString (s : List Char) : Puts (fun _ => writeString s) (· = s) :=
  (Realises.of_run (f := fun w : C14nWriter => ((), { w with out := w.out ++ s })) (g := fun k => ((), k.append s))
    (fun _ _ => rfl) (fun _ => rfl) fun _ => rfl).congr fun k _ k' => by simp

theorem forall₂_eq_map {f : β → α} {xs : List β} {as : List α} :
    List.Forall₂ (fun x a => a = f x) xs as ↔ as = xs.map f := by
  induction xs generalizing as with
  | nil => simp
  | cons x xs ih =>
    cases as with
    | nil => simp
    | cons a as => simp [List.forall₂_cons, ih]

theorem puts_forM {xs : List β} {f : β → (ℕ → ℕ) → StateM C14nWriter Unit} {T : β → List Char → Prop}
    (h : ∀ x ∈ xs, Puts (f x) (T x)) :
    Puts (fun order => xs.forM fun x => f x order) fun t => ∃ ts, List.Forall₂ T xs ts ∧ t = ts.flatten := by
  refine (Realises.forM xs h).congr fun k _ k' => ?_
  induction xs generalizing k with
  | nil => simp [Realises.Through]
  | cons x xs ih =>
    have hrest := fun l => ih (fun y hy => h y (List.mem_cons_of_mem _ hy)) l
    constructor
    · rintro ⟨l, ⟨t, hT, rfl⟩, hthrough⟩
      obtain ⟨_, ⟨ts, hts, rfl⟩, rfl⟩ := (hrest _).1 hthrough
      exact ⟨_, ⟨t :: ts, .cons hT hts, rfl⟩, by simp⟩
    · rintro ⟨_, ⟨_, hts, rfl⟩, rfl⟩
      obtain ⟨t, ts, hT, htail, rfl⟩ := List.forall₂_cons_left_iff.1 hts
      exact ⟨k.append t, ⟨t, hT, rfl⟩, (hrest _).2 ⟨_, ⟨ts, htail, rfl⟩, by simp⟩⟩

end

/-! ### The parts of the writer -/

section

variable {uri : List Char} {scope : NsMap}

theorem prefixFor_run (order : ℕ → ℕ) (w : C14nWriter) (h : uri ≠ scope.get []) :
    (prefixFor order uri scope).run w =
      (((candidates scope uri)[order w.ranges % (candidates scope uri).length]?).getD uri,
        { w with ranges := w.ranges + 1 }) := by
  simp only [prefixFor, if_neg h, candidates, List.length_map, List.getElem?_map]
  cases hbound : (scope.filter fun p => decide (p.1 ≠ [] ∧ p.2 = uri))[order w.ranges %
      (scope.filter fun p => decide (p.1 ≠ [] ∧ p.2 = uri)).length]? with
  | none =>
    rw [StateT.run_bind]
    simp only [StateT.run_get, pure_bind, StateT.run_bind, StateT.run_set, hbound]
    rfl
  | some p =>
    rw [StateT.run_bind]
    simp only [StateT.run_get, pure_bind, StateT.run_bind, StateT.run_set, hbound]
    rfl

def nextRange (w : C14nWriter) : C14nWriter := { w with ranges := w.ranges + 1 }

theorem asks_prefixFor : Asks (fun order => prefixFor order uri scope) (Picks scope uri) := by
  by_cases hdefault : uri = scope.get []
  · have hpicks : Picks scope uri = (· = []) := funext fun p => if_pos hdefault
    simp only [hpicks, prefixFor, if_pos hdefault]
    exact asks_pure []
  by_cases hnone : candidates scope uri = []
  · have hpicks : Picks scope uri = (· ∈ [uri]) := funext fun p => by simp [Picks, hdefault, hnone]
    rw [hpicks]
    exact Realises.of_pick nextRange
      (fun order w => ⟨Nat.mod_lt _ Nat.one_pos, by simp [prefixFor_run order w hdefault, hnone, nextRange]⟩)
      (fun _ => rfl) fun _ => rfl
  · have hpicks : Picks scope uri = (· ∈ candidates scope uri) := funext fun p => by simp [Picks, hdefault, hnone]
    rw [hpicks]
    refine Realises.of_pick nextRange (fun order w => ?_) (fun _ => rfl) fun _ => rfl
    have hlt := Nat.mod_lt (order w.ranges) (List.length_pos_iff.2 hnone)
    exact ⟨hlt, by rw [prefixFor_run order w hdefault, List.getElem?_eq_getElem hlt, Option.getD_some]; rfl⟩

theorem asks_qname {n : XmlName} : Asks (fun order => qname order n scope) (ElementName scope n) := by
  by_cases hspace : n.space = []
  · have hname : ElementName scope n = (· = n.localName) := funext fun q => if_pos hspace
    simp only [hname, qname, if_pos hspace]
    exact asks_pure _
  · have hname : ElementName scope n = fun q => ∃ p, Picks scope n.space p ∧
        q = if p = [] then n.localName else p ++ ':' :: n.localName := funext fun q => if_neg hspace
    simp only [hname, qname, if_neg hspace]
    refine asks_prefixFor.bind fun p => ?_
    by_cases hp : p = []
    · simp only [if_pos hp]
      exact asks_pure _
    · simp only [if_neg hp]
      exact asks_pure _

/-- The parts of `writeStart`. -/
def ownPrefix (order : ℕ → ℕ) (scope : NsMap) (name : XmlName) : StateM C14nWriter (List Char) :=
  if name.space = [] then pure [] else prefixFor order name.space scope

def usedPrefixes (order : ℕ → ℕ) (inclusive : List (List Char)) (scope : NsMap) (name : XmlName) (attrs : List Attr) :
    StateM C14nWriter (List (List Char)) := do
  let own ← ownPrefix order scope name
  let ofAttrs ← ((plainAttrs attrs).filter fun a => decide (a.name.space ≠ [])).mapM fun a =>
    prefixFor order a.name.space scope
  pure (own :: (ofAttrs ++ inclusive)).dedup

def attrName (order : ℕ → ℕ) (scope : NsMap) (n : XmlName) : StateM C14nWriter (List Char) :=
  if n.space = [] then pure n.localName
  else prefixFor order n.space scope >>= fun p => pure (p ++ ':' :: n.localName)

def openScope (attrs : List Attr) : StateM C14nWriter (NsMap × NsMap) := fun w =>
  ((declared (top w.scope) attrs, top w.rendered), { w with scope := declared (top w.scope) attrs :: w.scope })

def render (parentRendered emit : NsMap) : StateM C14nWriter Unit :=
  modify fun w => { w with rendered := layer parentRendered emit :: w.rendered }

def startTag (order : ℕ → ℕ) (inclusive : List (List Char)) (scope parentRendered : NsMap) (name : XmlName)
    (attrs : List Attr) : StateM C14nWriter Unit := do
  let used ← usedPrefixes order inclusive scope name attrs
  let q ← qname order name scope
  writeString ('<' :: q)
  (sortedDecls (emitOf scope parentRendered used)).forM fun p => writeString (declText p)
  render parentRendered (emitOf scope parentRendered used)
  ((plainAttrs attrs).insertionSort attrLe).forM fun a => do
    let q ← attrName order scope a.name
    writeString (attrText q a.value)
  writeString ['>']

theorem writeStart_run (order : ℕ → ℕ) (inclusive : List (List Char)) (name : XmlName) (attrs : List Attr)
    (w : C14nWriter) :
    (writeStart order inclusive name attrs).run w =
      (startTag order inclusive (declared (top w.scope) attrs) (top w.rendered) name attrs).run
        { w with scope := declared (top w.scope) attrs :: w.scope } := by
  have hdecl (p : List Char × List Char) :
      (if p.1 = [] then writeString (" xmlns=\"".toList ++ escapeAttr p.2 ++ "\"".toList)
        else writeString (" xmlns:".toList ++ p.1 ++ "=\"".toList ++ escapeAttr p.2 ++ "\"".toList)) =
      writeString (declText p) := by
    unfold declText
    split <;> rfl
  have hattr (a : Attr) (name : List Char) :
      writeString (' ' :: name ++ "=\"".toList ++ escapeAttr a.value ++ "\"".toList) =
        writeString (attrText name a.value) := rfl
  have hname (a : Attr) (scope : NsMap) :
      (if a.name.space = [] then writeString (attrText a.name.localName a.value)
        else prefixFor order a.name.space scope >>= fun p =>
          writeString (attrText (p ++ ':' :: a.name.localName) a.value)) =
      attrName order scope a.name >>= fun q => writeString (attrText q a.value) := by
    unfold attrName
    split
    · rw [pure_bind]
    · simp only [bind_assoc, pure_bind]
  unfold writeStart startTag usedPrefixes ownPrefix
  by_cases hspace : name.space = []
  · simp only [hdecl, hattr, hname, if_pos hspace, pure_bind, bind_assoc, StateT.run_bind, StateT.run_get,
      StateT.run_set]
    rfl
  · simp only [hdecl, hattr, hname, if_neg hspace, pure_bind, bind_assoc, StateT.run_bind, StateT.run_get,
      StateT.run_set]
    rfl

theorem asks_ownPrefix {name : XmlName} : Asks (fun order => ownPrefix order scope name)
    fun own => if name.space = [] then own = [] else Picks scope name.space own := by
  unfold ownPrefix
  by_cases hspace : name.space = []
  · simp only [if_pos hspace]
    exact asks_pure []
  · simp only [if_neg hspace]
    exact asks_prefixFor

theorem asks_usedPrefixes {inclusive : List (List Char)} {name : XmlName} {attrs : List Attr} :
    Asks (fun order => usedPrefixes order inclusive scope name attrs) (Used inclusive scope name attrs) := by
  have hattrs : Asks (fun order => ((plainAttrs attrs).filter fun a => decide (a.name.space ≠ [])).mapM fun a =>
      prefixFor order a.name.space scope) _ := Realises.mapM _ fun a _ => asks_prefixFor
  refine (asks_ownPrefix.bind fun own => hattrs.bind fun ofAttrs =>
    asks_pure (own :: (ofAttrs ++ inclusive)).dedup).congr fun k used k' => ?_
  simp [Used]

theorem asks_attrName {n : XmlName} : Asks (fun order => attrName order scope n) (AttrName scope n) := by
  unfold attrName AttrName
  by_cases hspace : n.space = []
  · simp only [if_pos hspace]
    exact asks_pure _
  · simp only [if_neg hspace]
    exact asks_prefixFor.bind fun p => asks_pure _

theorem realises_startTag {inclusive : List (List Char)} {parentRendered : NsMap} {name : XmlName} {attrs : List Attr} :
    Realises pageOf C14nWriter.ranges (fun order => startTag order inclusive scope parentRendered name attrs)
      fun k _ k' => ∃ text rendered, StartTag inclusive scope parentRendered name attrs text rendered ∧
        k' = { k.append text with rendered := rendered :: k.rendered } := by
  have hdecls (emit : NsMap) : Puts (fun _ => (sortedDecls emit).forM fun p => writeString (declText p))
      (· = (sortedDecls emit).flatMap declText) :=
    (puts_forM fun p _ => puts_writeString (declText p)).congr fun k _ k' => by
      simp [forall₂_eq_map, List.flatMap]
  have hrender (emit : NsMap) : Realises pageOf C14nWriter.ranges (fun _ => render parentRendered emit) fun k _ k' =>
      k' = { k with rendered := layer parentRendered emit :: k.rendered } :=
    (Realises.of_run (f := fun w : C14nWriter => ((), { w with rendered := layer parentRendered emit :: w.rendered }))
      (g := fun k : Page => ((), { k with rendered := layer parentRendered emit :: k.rendered }))
      (fun _ _ => rfl) (fun _ => rfl) fun _ => rfl).congr fun k _ k' => by simp
  have hattrs : Puts (fun order => ((plainAttrs attrs).insertionSort attrLe).forM fun a =>
      attrName order scope a.name >>= fun q => writeString (attrText q a.value)) _ :=
    puts_forM fun a _ => asks_attrName.puts fun q => puts_writeString (attrText q a.value)
  refine (Realises.bind asks_usedPrefixes fun used => Realises.bind asks_qname fun q =>
    Realises.bind (puts_writeString ('<' :: q)) fun _ =>
      Realises.bind (hdecls (emitOf scope parentRendered used)) fun _ =>
        Realises.bind (hrender (emitOf scope parentRendered used)) fun _ => Realises.bind hattrs fun _ =>
          puts_writeString ['>']).congr fun k a k' => ?_
  constructor
  · rintro ⟨used, l, ⟨hused, rfl⟩, q, l, ⟨hq, rfl⟩, _, l, ⟨_, rfl, rfl⟩, _, l, ⟨_, rfl, rfl⟩, _, l, rfl, _, l,
      ⟨_, ⟨as, has, rfl⟩, rfl⟩, _, rfl, rfl⟩
    exact ⟨_, _, ⟨used, q, as, hused, hq, has, rfl, rfl⟩, by simp [Page.append]⟩
  · rintro ⟨_, _, ⟨used, q, as, hused, hq, has, rfl, rfl⟩, rfl⟩
    exact ⟨used, k, ⟨hused, rfl⟩, q, k, ⟨hq, rfl⟩, (), _, ⟨_, rfl, rfl⟩, (), _, ⟨_, rfl, rfl⟩, (), _, rfl, (), _,
      ⟨_, ⟨as, has, rfl⟩, rfl⟩, _, rfl, by simp [Page.append]⟩

theorem writeStart_eq (order : ℕ → ℕ) (inclusive : List (List Char)) (name : XmlName) (attrs : List Attr) :
    writeStart order inclusive name attrs = openScope attrs >>= fun p => startTag order inclusive p.1 p.2 name attrs :=
  funext (writeStart_run order inclusive name attrs)

end

/-- What one token does to the page. -/
def Step (inclusive : List (List Char)) : Token → Page → Page → Prop
  | .startElement name attrs, k, k' =>
    ∃ text rendered, StartTag inclusive (declared (top k.scope) attrs) (top k.rendered) name attrs text rendered ∧
      k' = ⟨k.out ++ text, declared (top k.scope) attrs :: k.scope, rendered :: k.rendered⟩
  | .endElement name, k, k' =>
    ∃ q, ElementName (top k.scope) name q ∧
      k' = ⟨k.out ++ ("</".toList ++ q ++ ['>']), k.scope.tail, k.rendered.tail⟩
  | .charData t, k, k' => k' = k.append (escapeText t)
  | .other, k, k' => k' = k

theorem realises_writeStart {inclusive : List (List Char)} {name : XmlName} {attrs : List Attr} :
    Realises pageOf C14nWriter.ranges (fun order => writeStart order inclusive name attrs)
      fun k _ k' => Step inclusive (.startElement name attrs) k k' := by
  simp only [writeStart_eq]
  have hopen : Realises pageOf C14nWriter.ranges (fun _ => openScope attrs) _ := Realises.of_run
    (f := fun w => ((declared (top w.scope) attrs, top w.rendered),
      { w with scope := declared (top w.scope) attrs :: w.scope }))
    (g := fun k => ((declared (top k.scope) attrs, top k.rendered),
      { k with scope := declared (top k.scope) attrs :: k.scope })) (fun _ _ => rfl) (fun _ => rfl) fun _ => rfl
  refine (hopen.bind fun p => realises_startTag).congr fun k _ k' => ?_
  constructor
  · rintro ⟨_, _, heq, text, rendered, htag, rfl⟩
    obtain ⟨rfl, rfl⟩ := Prod.mk.inj heq
    exact ⟨text, rendered, htag, rfl⟩
  · rintro ⟨text, rendered, htag, rfl⟩
    exact ⟨_, _, rfl, text, rendered, htag, rfl⟩

theorem realises_writeEnd {inclusive : List (List Char)} {name : XmlName} :
    Realises pageOf C14nWriter.ranges (fun order => writeEnd order name)
      fun k _ k' => Step inclusive (.endElement name) k k' := by
  have hread : Realises pageOf C14nWriter.ranges (fun _ => (fun w => (top w.scope, w) : StateM C14nWriter NsMap)) _ :=
    Realises.of_run (g := fun k : Page => (top k.scope, k)) (fun _ _ => rfl) (fun _ => rfl) fun _ => rfl
  have hpop : Realises pageOf C14nWriter.ranges (fun _ => (modify fun w =>
      { w with scope := w.scope.tail, rendered := w.rendered.tail } : StateM C14nWriter Unit)) _ :=
    Realises.of_run (f := fun w : C14nWriter => ((), { w with scope := w.scope.tail, rendered := w.rendered.tail }))
      (g := fun k : Page => ((), { k with scope := k.scope.tail, rendered := k.rendered.tail }))
      (fun _ _ => rfl) (fun _ => rfl) fun _ => rfl
  have hend : (fun order => writeEnd order name) = fun order =>
      (fun w => (top w.scope, w) : StateM C14nWriter NsMap) >>= fun scope => qname order name scope >>= fun q =>
        writeString ("</".toList ++ q ++ ['>']) >>= fun _ =>
          modify fun w => { w with scope := w.scope.tail, rendered := w.rendered.tail } := rfl
  rw [hend]
  refine (hread.bind fun scope => Realises.bind (asks_qname (n := name)) fun q =>
    Realises.bind (puts_writeString ("</".toList ++ q ++ ['>'])) fun _ => hpop).congr fun k _ k' => ?_
  constructor
  · rintro ⟨_, _, heq, q, l, ⟨hq, rfl⟩, _, _, ⟨_, rfl, rfl⟩, hk⟩
    obtain ⟨rfl, rfl⟩ := Prod.mk.inj heq
    exact ⟨q, hq, (Prod.mk.inj hk).2⟩
  · rintro ⟨q, hq, rfl⟩
    exact ⟨_, _, rfl, q, k, ⟨hq, rfl⟩, (), _, ⟨_, rfl, rfl⟩, rfl⟩

theorem realises_write (inclusive : List (List Char)) (t : Token) :
    Realises pageOf C14nWriter.ranges (fun order => write order inclusive t) fun k _ k' => Step inclusive t k k' := by
  cases t with
  | startElement name attrs => exact realises_writeStart
  | endElement name => exact realises_writeEnd
  | charData text => exact (puts_writeString (escapeText text)).congr fun k _ k' => by simp [Step]
  | other => exact (Realises.pure ()).congr fun k _ k' => by simp [Step]

theorem through_step (inclusive : List (List Char)) (out : List Char) : ∀ (ts : List Token) (k : Page),
    (∃ k', Realises.Through (Step inclusive) ts k k' ∧ k'.out = out) ↔
      ∃ text, Written inclusive k.scope k.rendered ts text ∧ out = k.out ++ text
  | [], k => by simp [Realises.Through, Written, eq_comm]
  | t :: ts, k => by
    have hrest := through_step inclusive out ts
    have hstep : (∃ k', Realises.Through (Step inclusive) (t :: ts) k k' ∧ k'.out = out) ↔
        ∃ l, Step inclusive t k l ∧ ∃ text, Written inclusive l.scope l.rendered ts text ∧ out = l.out ++ text := by
      simp only [Realises.Through, ← hrest]
      constructor
      · rintro ⟨k', ⟨l, hl, hk⟩, hout⟩
        exact ⟨l, hl, k', hk, hout⟩
      · rintro ⟨l, hl, k', hk, hout⟩
        exact ⟨k', ⟨l, hl, hk⟩, hout⟩
    rw [hstep]
    cases t with
    | startElement name attrs =>
      constructor
      · rintro ⟨_, ⟨tag, rendered, htag, rfl⟩, rest, hwritten, rfl⟩
        exact ⟨_, ⟨tag, rendered, rest, htag, hwritten, rfl⟩, List.append_assoc ..⟩
      · rintro ⟨_, ⟨tag, rendered, rest, htag, hwritten, rfl⟩, rfl⟩
        exact ⟨_, ⟨tag, rendered, htag, rfl⟩, rest, hwritten, (List.append_assoc ..).symm⟩
    | endElement name =>
      constructor
      · rintro ⟨_, ⟨q, hq, rfl⟩, rest, hwritten, rfl⟩
        exact ⟨_, ⟨q, rest, hq, hwritten, rfl⟩, List.append_assoc ..⟩
      · rintro ⟨_, ⟨q, rest, hq, hwritten, rfl⟩, rfl⟩
        exact ⟨_, ⟨q, hq, rfl⟩, rest, hwritten, (List.append_assoc ..).symm⟩
    | charData t =>
      constructor
      · rintro ⟨_, rfl, rest, hwritten, rfl⟩
        exact ⟨_, ⟨rest, hwritten, rfl⟩, List.append_assoc ..⟩
      · rintro ⟨_, ⟨rest, hwritten, rfl⟩, rfl⟩
        exact ⟨_, rfl, rest, hwritten, (List.append_assoc ..).symm⟩
    | other =>
      constructor
      · rintro ⟨_, rfl, rest, hwritten, rfl⟩
        exact ⟨rest, hwritten, rfl⟩
      · rintro ⟨rest, hwritten, rfl⟩
        exact ⟨k, rfl, rest, hwritten, rfl⟩

/-- **The canonical forms of a document**, over all the orders in which maps are ranged over. -/
theorem canonicalizeExclusive_iff {inclusive : List (List Char)} {raw : List RawToken} {text : List Char} :
    (∃ order, canonicalizeExclusive order inclusive raw = some text) ↔
      ∃ tokens, resolve [] [] raw = some tokens ∧ Written (setOf inclusive) [[]] [[]] tokens text := by
  have hrun (tokens : List Token) :
      (∃ order, ((tokens.forM (write order (setOf inclusive))).run {}).2.out = text) ↔
        Written (setOf inclusive) [[]] [[]] tokens text := by
    have hwrite := Realises.forM tokens fun t _ => realises_write (setOf inclusive) t
    have hthrough := through_step (setOf inclusive) text tokens (pageOf {})
    constructor
    · rintro ⟨order, rfl⟩
      obtain ⟨_, hwritten, rfl⟩ := hthrough.1 ⟨_, hwrite.sound order {}, rfl⟩
      exact hwritten
    · intro hwritten
      obtain ⟨k', hk, rfl⟩ := hthrough.2 ⟨text, hwritten, rfl⟩
      obtain ⟨order, -, hrun⟩ := (hwrite.run_iff (a := ())).2 hk
      exact ⟨order, by rw [← hrun]; rfl⟩
  constructor
  · rintro ⟨order, h⟩
    obtain ⟨tokens, htokens, hout⟩ := Option.map_eq_some_iff.1 h
    exact ⟨tokens, htokens, (hrun tokens).1 ⟨order, hout⟩⟩
  · rintro ⟨tokens, htokens, hwritten⟩
    obtain ⟨order, hout⟩ := (hrun tokens).2 hwritten
    exact ⟨order, Option.map_eq_some_iff.2 ⟨tokens, htokens, hout⟩⟩

end BookingSystem.Effects.CanonicalText
