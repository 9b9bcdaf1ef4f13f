import Mathlib.Data.List.TakeWhile
import BookingSystem.Effects.AuditChain

/-!
# Tampering with the audit chain

A row of a table that the verifier finds in order is edited, and the verifier should report a break. It does not when
the row is not hashed, when the edited row composes to the same bytes or to nothing that can be compared, and when the
row moves to a place where the same hash comes before it. `edit_detected_iff` says exactly when it does.
-/

namespace BookingSystem.Contracts.AuditTampering

open Base Model.AuditChain Effects.AuditChain

/-- An edit of one row that leaves its tenant and its hashes alone, in a table whose identifiers are a primary key. -/
structure Edit where
  pre : List AuditRow
  row : AuditRow
  edited : AuditRow
  post : List AuditRow
  tenantId_eq : edited.tenantId = row.tenantId
  prevHash_eq : edited.prevHash = row.prevHash
  entryHash_eq : edited.entryHash = row.entryHash
  unique : ((pre ++ row :: post).map AuditRow.id).Nodup
  unique_edited : ((pre ++ edited :: post).map AuditRow.id).Nodup

namespace Edit

def before (e : Edit) : List AuditRow := e.pre ++ e.row :: e.post

def after (e : Edit) : List AuditRow := e.pre ++ e.edited :: e.post

def others (e : Edit) : List AuditRow := chainOf (e.pre ++ e.post) e.row.tenantId

def hashBelow (e : Edit) : List Char := lastHash [] (e.others.takeWhile fun s => decide (s.key < e.edited.key))

/-- Some row came after the row and comes before the edited one. -/
def MovesUp (e : Edit) : Prop := ∃ s ∈ e.others, e.row.key < s.key ∧ s.key < e.edited.key

/-- Some row came before the row and comes after the edited one. -/
def MovesDown (e : Edit) : Prop := ∃ s ∈ e.others, e.edited.key < s.key ∧ s.key < e.row.key

end Edit

/-! ### What is hashed of a row -/

/-- `bytea` can be read from the texts of both states. -/
def Readable (r : AuditRow) : Prop := (stateBytes r.previousState).isSome = true ∧ (stateBytes r.newState).isSome = true

/-- The row composes to bytes: besides, it has a target, and its time is finite. -/
def Comparable (r : AuditRow) : Prop :=
  Readable r ∧ r.targetId ≠ none ∧ r.timestamp ≠ .negInfinity ∧ r.timestamp ≠ .infinity

def Alike : Timestamp → Timestamp → Prop
  | .instant c us, .instant c' us' =>
    (c.month, c.day, c.hour, c.minute, c.second) = (c'.month, c'.day, c'.hour, c'.minute, c'.second) ∧ us = us' ∧
      (c.year = c'.year ∨ c.year + c'.year = 1)
  | _, _ => False

def freeTexts (r : AuditRow) : List (List Char) :=
  [r.actionType, r.targetEntity, r.targetId.getD [], r.ipAddress.getD [], r.userAgent.getD [], r.outcome.getD [],
    r.severity.getD [], r.sessionId.getD [], r.requestId.getD []]

/-- The fields that the bytes of a row tell: of the free texts only how they read one after the other. -/
structure SameFields (r s : AuditRow) : Prop where
  id : r.id = s.id
  timestamp : Alike r.timestamp s.timestamp
  actor : r.actorUserId = s.actorUserId
  texts : delimited (freeTexts r) = delimited (freeTexts s)
  previous : r.previousState = s.previousState
  next : r.newState = s.newState

/-! ### The bytes tell the fields -/

theorem stateBytes_injective {state state' : Option Jsonb} {bytes : List Char} (h : stateBytes state = some bytes)
    (h' : stateBytes state' = some bytes) : state = state' := by
  have hne : ∀ j : Jsonb, byteaIn j.text ≠ some [] := fun j hj => by
    obtain ⟨v, hv⟩ := j.spelt
    obtain ⟨c, t, htext, -⟩ := Json.head_print jsonbStyle v
    have hnil := eq_of_byteaIn hj
    rw [← hv, htext] at hnil
    cases hnil
  match state, state', h, h' with
  | none, none, _, _ => rfl
  | none, some j, h, h' =>
    cases h
    exact absurd h' (hne j)
  | some j, none, h, h' =>
    cases h'
    exact absurd h (hne j)
  | some ⟨text, _⟩, some ⟨text', _⟩, h, h' =>
    have htext : text = text' := (eq_of_byteaIn h).trans (eq_of_byteaIn h').symm
    subst htext
    rfl

theorem yearOfEra_eq_iff {y y' : ℤ} : Timestamp.yearOfEra y = Timestamp.yearOfEra y' ↔ y = y' ∨ y + y' = 1 := by
  unfold Timestamp.yearOfEra
  split <;> split <;> omega

theorem toChar_eq_iff {t t' : Timestamp} {text : List Char} (h : t.toChar = some text) :
    t'.toChar = some text ↔ Alike t t' := by
  match t, t', h with
  | .instant c us, .negInfinity, h => simp [Timestamp.toChar, Alike]
  | .instant c us, .infinity, h => simp [Timestamp.toChar, Alike]
  | .instant c us, .instant c' us', h =>
    cases h
    simp only [Timestamp.toChar, Option.some.injEq, Alike]
    constructor
    · intro heq
      obtain ⟨hyear, hcivil, hrest⟩ := civil_append_inj heq
      refine ⟨hcivil.symm, ?_, (yearOfEra_eq_iff.1 hyear.symm)⟩
      exact Fin.ext (decimals_inj us.isLt us'.isLt (List.append_inj hrest.symm (by simp)).1)
    · rintro ⟨hcivil, rfl, hyear⟩
      simp only [Prod.mk.injEq] at hcivil
      obtain ⟨hmonth, hday, hhour, hminute, hsecond⟩ := hcivil
      simp only [Civil.text, yearOfEra_eq_iff.2 hyear, hmonth, hday, hhour, hminute, hsecond]

theorem comparable_iff {r : AuditRow} : Comparable r ↔ ∃ bytes, composed r = some (some bytes) := by
  simp only [composed_eq_bytes]
  constructor
  · rintro ⟨⟨hprevious, hnext⟩, htarget, hneg, hinf⟩
    obtain ⟨previous, hprevious⟩ := Option.isSome_iff_exists.1 hprevious
    obtain ⟨next, hnext⟩ := Option.isSome_iff_exists.1 hnext
    obtain ⟨targetId, htarget⟩ := Option.ne_none_iff_exists'.1 htarget
    cases ht : r.timestamp with
    | negInfinity => exact absurd ht hneg
    | infinity => exact absurd ht hinf
    | instant c us => exact ⟨_, _, _, _, _, hprevious, hnext, rfl, htarget, rfl⟩
  · rintro ⟨_, previous, next, timestamp, targetId, hprevious, hnext, htimestamp, htarget, -⟩
    refine ⟨⟨by rw [hprevious]; rfl, by rw [hnext]; rfl⟩, by rw [htarget]; nofun, ?_, ?_⟩
    · intro ht
      rw [ht] at htimestamp
      cases htimestamp
    · intro ht
      rw [ht] at htimestamp
      cases htimestamp

theorem readable_iff {r : AuditRow} : Readable r ↔ composed r ≠ none := by
  unfold Readable composed
  cases stateBytes r.previousState <;> cases stateBytes r.newState <;> simp

theorem eq_of_append_last {x x' rest rest' : List Char} (hrest : us ∉ rest) (hrest' : us ∉ rest')
    (h : x ++ us :: rest = x' ++ us :: rest') : x = x' ∧ rest = rest' := by
  have hreverse := congrArg List.reverse h
  simp only [List.reverse_append, List.reverse_cons, List.append_assoc, List.singleton_append] at hreverse
  obtain ⟨hr, hx⟩ := eq_of_append_sep (by simpa using hrest) (by simpa using hrest') hreverse
  exact ⟨List.reverse_injective hx, List.reverse_injective hr⟩

theorem delimited_ends (parts : List (List Char)) (part : List Char) :
    ∃ text, delimited (parts ++ [part]) = text ++ [us] := ⟨delimited parts ++ part, by simp [delimited]⟩

theorem rowBytes_eq (r : AuditRow) (timestamp targetId previous next : List Char)
    (htarget : r.targetId = some targetId) :
    rowBytes r timestamp targetId previous next =
      r.prevHash.getD [] ++ us :: (r.id.text ++ us :: (r.tenantId.text ++ us :: (timestamp ++ us ::
        ((r.actorUserId.map PgUuid.text).getD [] ++ us :: (delimited (freeTexts r) ++ previous ++ us :: next))))) := by
  simp only [rowBytes, freeTexts, delimited_cons, htarget, Option.getD_some, List.append_assoc, List.cons_append]

theorem actorText_injective {actor actor' : Option PgUuid}
    (h : (actor.map PgUuid.text).getD [] = (actor'.map PgUuid.text).getD []) : actor = actor' := by
  match actor, actor', h with
  | none, none, _ => rfl
  | none, some u, h => exact absurd h.symm (text_ne_nil u)
  | some u, none, h => exact absurd h (text_ne_nil u)
  | some u, some v, h => rw [text_injective h]

theorem us_notMem_actorText (actor : Option PgUuid) : us ∉ (actor.map PgUuid.text).getD [] := by
  cases actor with
  | none => exact List.not_mem_nil
  | some u => exact us_notMem_uuid u

/-- **The bytes of two rows with the same hash before them are the same iff the fields they tell are.** -/
theorem composed_eq_iff {r s : AuditRow} {bytes : List Char} (hprev : s.prevHash = r.prevHash)
    (htenant : s.tenantId = r.tenantId) (hr : composed r = some (some bytes)) (hs : Comparable s) :
    composed s = some (some bytes) ↔ SameFields r s := by
  obtain ⟨previous, next, timestamp, targetId, hprevious, hnext, htimestamp, htarget, rfl⟩ := composed_eq_bytes.1 hr
  obtain ⟨bytes', hs'⟩ := comparable_iff.1 hs
  obtain ⟨previous', next', timestamp', targetId', hprevious', hnext', htimestamp', htarget', hbytes'⟩ :=
    composed_eq_bytes.1 hs'
  have hsame : composed s = some (some (rowBytes r timestamp targetId previous next)) ↔
      rowBytes r timestamp targetId previous next = rowBytes s timestamp' targetId' previous' next' := by
    rw [hs', hbytes']
    simp only [Option.some.injEq]
    exact eq_comm
  rw [hsame, rowBytes_eq _ _ _ _ _ htarget, rowBytes_eq _ _ _ _ _ htarget', hprev, htenant]
  constructor
  · intro heq
    have heq := (List.cons.inj (List.append_cancel_left heq)).2
    obtain ⟨hid, heq⟩ := eq_of_append_sep (us_notMem_uuid _) (us_notMem_uuid _) heq
    have heq := (List.cons.inj (List.append_cancel_left heq)).2
    obtain ⟨htime, heq⟩ := eq_of_append_sep (us_notMem_toChar htimestamp) (us_notMem_toChar htimestamp') heq
    obtain ⟨hactor, heq⟩ := eq_of_append_sep (us_notMem_actorText _) (us_notMem_actorText _) heq
    -- from the end: the states do not hold the separator, and one stands before the first of them
    obtain ⟨heq, hnexts⟩ := eq_of_append_last (us_notMem_stateBytes hnext) (us_notMem_stateBytes hnext') heq
    obtain ⟨text, htext⟩ := delimited_ends ((freeTexts r).take 8) (r.requestId.getD [])
    obtain ⟨text', htext'⟩ := delimited_ends ((freeTexts s).take 8) (s.requestId.getD [])
    change delimited (freeTexts r) = text ++ [us] at htext
    change delimited (freeTexts s) = text' ++ [us] at htext'
    rw [htext, htext', List.append_assoc, List.append_assoc] at heq
    obtain ⟨htexts, hpreviouses⟩ := eq_of_append_last (us_notMem_stateBytes hprevious)
      (us_notMem_stateBytes hprevious') heq
    exact {
      id := text_injective hid
      timestamp := (toChar_eq_iff htimestamp).1 (htime ▸ htimestamp')
      actor := actorText_injective hactor
      texts := by rw [htext, htext', htexts]
      previous := stateBytes_injective hprevious (hpreviouses ▸ hprevious')
      next := stateBytes_injective hnext (hnexts ▸ hnext') }
  · intro h
    have htime : timestamp = timestamp' :=
      Option.some.inj (((toChar_eq_iff htimestamp).2 h.timestamp).symm.trans htimestamp')
    have hprevs : previous = previous' := Option.some.inj (hprevious.symm.trans (h.previous ▸ hprevious'))
    have hnexts : next = next' := Option.some.inj (hnext.symm.trans (h.next ▸ hnext'))
    rw [h.id, htime, h.actor, h.texts, hprevs, hnexts]

/-! ### The walk over an edited chain -/

section

variable (sha256 : List Char → List Char)

/-- The hash of the row is there to compare, and is another one. -/
def Fails (r : AuditRow) : Prop := ∃ bytes, composed r = some (some bytes) ∧ sha256 bytes ≠ r.entryHash.getD []

def Breaks : List Char → List AuditRow → Prop
  | _, [] => False
  | expected, r :: rest =>
    r.prevHash.getD [] ≠ expected ∨ Fails sha256 r ∨ (Passes sha256 r ∧ Breaks (r.entryHash.getD []) rest)

variable {sha256} {expected : List Char} {rows rows' : List AuditRow}

theorem not_passes_of_fails {r : AuditRow} (h : Fails sha256 r) : ¬ Passes sha256 r := by
  rintro ⟨composition, hcomposed, hbytes⟩
  obtain ⟨bytes, hbytes', hne⟩ := h
  rw [hcomposed, Option.some.injEq] at hbytes'
  exact hne (hbytes bytes hbytes')

theorem passes_iff {r : AuditRow} : Passes sha256 r ↔ Readable r ∧ ¬ Fails sha256 r := by
  rw [readable_iff]
  constructor
  · refine fun h => ⟨fun hnone => ?_, fun hfails => not_passes_of_fails hfails h⟩
    obtain ⟨_, hcomposed, -⟩ := h
    rw [hnone] at hcomposed
    cases hcomposed
  · rintro ⟨hreadable, hfails⟩
    obtain ⟨composition, hcomposed⟩ := Option.ne_none_iff_exists'.1 hreadable
    refine ⟨composition, hcomposed, fun bytes hbytes => ?_⟩
    by_contra hne
    exact hfails ⟨bytes, hbytes ▸ hcomposed, hne⟩

theorem walk_breaks_iff (seen : ℕ) : (∃ finding, walk sha256 expected seen rows = some finding ∧ finding.reason ≠ .ok) ↔
    Breaks sha256 expected rows := by
  induction rows generalizing expected seen with
  | nil =>
    refine iff_of_false ?_ id
    rintro ⟨_, hwalk, hne⟩
    cases hwalk
    exact hne rfl
  | cons r rest ih =>
    by_cases hprev : r.prevHash.getD [] = expected
    · by_cases hfails : Fails sha256 r
      · obtain ⟨bytes, hcomposed, hne⟩ := id hfails
        refine iff_of_true ⟨⟨seen + 1, some (r.id, r.timestamp), .hashMismatch⟩, ?_, ?_⟩ (.inr (.inl hfails))
        · rw [walk, if_neg (not_not.2 hprev), hcomposed]
          simp only [hne, ne_eq, not_false_eq_true, if_true]
        · exact fun h => by cases h
      · by_cases hpasses : Passes sha256 r
        · rw [walk_cons hprev hpasses, ih]
          simp [Breaks, hprev, hfails, hpasses]
        · have hraises : composed r = none := by
            by_contra hne
            exact hpasses (passes_iff.2 ⟨readable_iff.2 hne, hfails⟩)
          refine iff_of_false ?_ (by simp [Breaks, hprev, hfails, hpasses])
          rintro ⟨_, hwalk, -⟩
          simp [walk, hprev, hraises] at hwalk
    · refine iff_of_true ⟨⟨seen + 1, some (r.id, r.timestamp), .prevMismatch⟩, ?_, ?_⟩ (.inl hprev)
      · rw [walk, if_pos hprev]
      · exact fun h => by cases h

theorem breaks_append (h : Chained sha256 expected rows) :
    Breaks sha256 expected (rows ++ rows') ↔ Breaks sha256 (lastHash expected rows) rows' := by
  induction rows generalizing expected with
  | nil => rfl
  | cons r rows ih =>
    obtain ⟨hprev, hpasses, hrest⟩ := h
    have hfails : ¬ Fails sha256 r := (passes_iff.1 hpasses).2
    simp [Breaks, lastHash, hprev, hpasses, hfails, ih hrest]

theorem not_breaks (h : Chained sha256 expected rows) : ¬ Breaks sha256 expected rows := by
  have happend : Breaks sha256 expected (rows ++ []) ↔ Breaks sha256 (lastHash expected rows) [] := breaks_append h
  rw [List.append_nil] at happend
  exact fun hbreaks => happend.1 hbreaks

theorem breaks_of_ne {hash : List Char} (h : Chained sha256 hash rows) (hne : rows ≠ []) (hhash : hash ≠ expected)
    (rest : List AuditRow) : Breaks sha256 expected (rows ++ rest) := by
  cases rows with
  | nil => exact absurd rfl hne
  | cons r rows => exact .inl (h.1 ▸ hhash)

theorem chained_rest {r : AuditRow} {rest : List AuditRow} (h : Chained sha256 expected (rows ++ r :: rest)) :
    Chained sha256 expected rows ∧ r.prevHash.getD [] = lastHash expected rows ∧ Passes sha256 r ∧
      Chained sha256 (r.entryHash.getD []) rest := by
  obtain ⟨hrows, hprev, hpasses, hrest⟩ := chained_append.1 h
  exact ⟨hrows, hprev, hpasses, hrest⟩

variable {r edited : AuditRow} {as bs cs : List AuditRow}

theorem breaks_edited (h : Chained sha256 expected as) (hprev : edited.prevHash.getD [] = lastHash expected as)
    (rest : List AuditRow) : Breaks sha256 expected (as ++ edited :: rest) ↔
      Fails sha256 edited ∨ Passes sha256 edited ∧ Breaks sha256 (edited.entryHash.getD []) rest := by
  rw [breaks_append h]
  simp [Breaks, hprev]

theorem breaks_inPlace (h : Chained sha256 [] (as ++ r :: bs)) (hprev : edited.prevHash = r.prevHash)
    (hhash : edited.entryHash = r.entryHash) : Breaks sha256 [] (as ++ edited :: bs) ↔ Fails sha256 edited := by
  obtain ⟨has, hlink, -, hbs⟩ := chained_rest h
  rw [breaks_edited has (by rw [hprev, hlink]), hhash]
  simp [not_breaks hbs]

/-- The row moves up behind `cs`. -/
theorem breaks_up (h : Chained sha256 [] (as ++ r :: (cs ++ bs))) (hcs : cs ≠ []) (hprev : edited.prevHash = r.prevHash)
    (hhash : edited.entryHash = r.entryHash) : Breaks sha256 [] (as ++ cs ++ edited :: bs) ↔
      lastHash [] (as ++ cs) ≠ r.prevHash.getD [] ∨ Fails sha256 edited ∨ r.entryHash.getD [] ≠ r.prevHash.getD [] := by
  obtain ⟨has, hlink, -, hrest⟩ := chained_rest h
  obtain ⟨hcschain, hbs⟩ := chained_append.1 hrest
  by_cases hsame : r.entryHash.getD [] = r.prevHash.getD []
  · rw [hsame] at hcschain hbs
    have hascs : Chained sha256 [] (as ++ cs) := chained_append.2 ⟨has, hlink ▸ hcschain⟩
    by_cases hlast : lastHash [] (as ++ cs) = r.prevHash.getD []
    · have hback : lastHash (r.prevHash.getD []) cs = r.prevHash.getD [] := by
        rw [hlink, ← lastHash_append, hlast, hlink]
      rw [hback] at hbs
      rw [breaks_edited hascs (by rw [hprev, hlast]), hhash, hsame]
      simp [hlast, not_breaks hbs]
    · refine iff_of_true ?_ (.inl hlast)
      rw [breaks_append hascs]
      exact .inl (by rw [hprev]; exact Ne.symm hlast)
  · refine iff_of_true ?_ (.inr (.inr hsame))
    rw [List.append_assoc, breaks_append has]
    exact breaks_of_ne hcschain hcs (fun heq => hsame (heq.trans hlink.symm)) _

/-- The row moves down before `cs`. -/
theorem breaks_down (h : Chained sha256 [] (as ++ (cs ++ r :: bs))) (hcs : cs ≠ [])
    (hprev : edited.prevHash = r.prevHash) (hhash : edited.entryHash = r.entryHash) :
    Breaks sha256 [] (as ++ edited :: (cs ++ bs)) ↔
      lastHash [] as ≠ r.prevHash.getD [] ∨ Fails sha256 edited ∨
        r.entryHash.getD [] ≠ r.prevHash.getD [] ∧ Readable edited := by
  obtain ⟨has, hrest⟩ := chained_append.1 h
  obtain ⟨hcschain, hlink, -, hbs⟩ := chained_rest hrest
  by_cases hlast : lastHash [] as = r.prevHash.getD []
  · rw [breaks_edited has (by rw [hprev, hlast]), hhash]
    by_cases hsame : r.entryHash.getD [] = r.prevHash.getD []
    · have hback : Chained sha256 (r.entryHash.getD []) (cs ++ bs) := by
        rw [hsame, ← hlast]
        refine chained_append.2 ⟨hcschain, ?_⟩
        rw [← hlink, ← hsame]
        exact hbs
      simp [hlast, hsame, not_breaks (hsame ▸ hback)]
    · have hbreak : Breaks sha256 (r.entryHash.getD []) (cs ++ bs) :=
        breaks_of_ne hcschain hcs (fun heq => hsame (heq.symm.trans hlast)) _
      simp only [hlast, hbreak, hsame, passes_iff, ne_eq, not_true_eq_false, not_false_eq_true, false_or, and_true,
        true_and]
      tauto
  · refine iff_of_true ?_ (.inl hlast)
    rw [breaks_append has]
    exact .inl (by rw [hprev]; exact Ne.symm hlast)

/-! ### The place of a row -/

theorem takeWhile_split {α : Type} {p q : α → Bool} (hpq : ∀ a, p a = true → q a = true) (l : List α) :
    l.takeWhile q = l.takeWhile p ++ (l.dropWhile p).takeWhile q ∧ l.dropWhile q = (l.dropWhile p).dropWhile q := by
  induction l with
  | nil => exact ⟨rfl, rfl⟩
  | cons a l ih =>
    cases hp : p a with
    | true => simp [hp, hpq a hp, ih.1, ih.2]
    | false => simp [hp]

theorem le_of_mem_dropWhile {k : List ℤ} (hsorted : rows.Pairwise fun a b => a.key ≤ b.key)
    (hr : r ∈ rows.dropWhile fun s => decide (s.key < k)) : k ≤ r.key := by
  induction rows with
  | nil => cases hr
  | cons a rows ih =>
    rw [List.dropWhile_cons] at hr
    split at hr
    · exact ih (List.pairwise_cons.1 hsorted).2 hr
    · rename_i ha
      have hka : k ≤ a.key := not_lt.1 fun hlt => ha (decide_eq_true hlt)
      rcases List.mem_cons.1 hr with rfl | hr
      · exact hka
      · exact le_trans hka ((List.pairwise_cons.1 hsorted).1 r hr)

theorem lt_of_mem_takeWhile {k : List ℤ} (hr : r ∈ rows.takeWhile fun s => decide (s.key < k)) : r.key < k :=
  of_decide_eq_true (List.mem_takeWhile_imp (p := fun s : AuditRow => decide (s.key < k)) hr)

/-- A hashed row of the tenant stands between the smaller and the greater ones. -/
theorem chainOf_insert {pre post : List AuditRow} {x : AuditRow} {tenantId : PgUuid} (htenant : x.tenantId = tenantId)
    (hhashed : x.entryHash.isSome = true) (hunique : ((pre ++ x :: post).map AuditRow.id).Nodup) :
    chainOf (pre ++ x :: post) tenantId =
      (chainOf (pre ++ post) tenantId).takeWhile (fun s => decide (s.key < x.key)) ++
        x :: (chainOf (pre ++ post) tenantId).dropWhile (fun s => decide (s.key < x.key)) := by
  have hsorted := sorted_chainOf (pre ++ post) tenantId
  have hperm : (chainOf (pre ++ x :: post) tenantId).Perm (x :: chainOf (pre ++ post) tenantId) := by
    unfold chainOf
    refine (List.perm_insertionSort _ _).trans (.trans ?_ ((List.perm_insertionSort _ _).symm.cons x))
    rw [List.filter_append, List.filter_cons_of_pos (by simp [htenant, hhashed]), List.filter_append]
    exact List.perm_middle
  refine List.Perm.eq_of_pairwise (fun a b ha hb hab hba => ?_) (sorted_chainOf _ _) ?_
    (hperm.trans (.trans (by rw [List.takeWhile_append_dropWhile]) List.perm_middle.symm))
  · -- rows of the table with the same key are one
    have hmem : ∀ c ∈ chainOf (pre ++ x :: post) tenantId, c ∈ pre ++ x :: post := fun c hc => (mem_chainOf.1 hc).1
    have hb' : b ∈ chainOf (pre ++ x :: post) tenantId := by
      refine hperm.mem_iff.2 ?_
      rw [← List.takeWhile_append_dropWhile (p := fun s : AuditRow => decide (s.key < x.key))
        (l := chainOf (pre ++ post) tenantId)]
      exact List.perm_middle.mem_iff.1 hb
    exact List.inj_on_of_nodup_map hunique (hmem a ha) (hmem b hb') (id_eq_of_key (le_antisymm hab hba))
  · refine List.pairwise_append.2 ⟨hsorted.sublist (List.takeWhile_sublist _), List.pairwise_cons.2 ⟨fun b hb => ?_,
      hsorted.sublist (List.dropWhile_sublist _)⟩, fun a ha b hb => ?_⟩
    · exact le_of_mem_dropWhile hsorted hb
    · have hax : a.key < x.key := lt_of_mem_takeWhile ha
      rcases List.mem_cons.1 hb with rfl | hb
      · exact le_of_lt hax
      · exact le_of_lt (lt_of_lt_of_le hax (le_of_mem_dropWhile hsorted hb))

/-! ### An edit -/

namespace Edit

variable {e : Edit}

theorem chain_before (hhashed : e.row.entryHash.isSome = true) : chainOf e.before e.row.tenantId =
    e.others.takeWhile (fun s => decide (s.key < e.row.key)) ++
      e.row :: e.others.dropWhile (fun s => decide (s.key < e.row.key)) := chainOf_insert rfl hhashed e.unique

theorem chain_after (hhashed : e.row.entryHash.isSome = true) : chainOf e.after e.row.tenantId =
    e.others.takeWhile (fun s => decide (s.key < e.edited.key)) ++
      e.edited :: e.others.dropWhile (fun s => decide (s.key < e.edited.key)) :=
  chainOf_insert e.tenantId_eq (e.entryHash_eq ▸ hhashed) e.unique_edited

theorem sorted_others : e.others.Pairwise fun a b => a.key ≤ b.key := sorted_chainOf _ _

theorem key_ne_row {s : AuditRow} (hs : s ∈ e.others) : s.key ≠ e.row.key := fun hkey => by
  have hmem := (mem_chainOf.1 hs).1
  have hnodup := (List.perm_middle.map AuditRow.id).nodup_iff.1 e.unique
  rw [List.map_cons, List.nodup_cons] at hnodup
  exact hnodup.1 (id_eq_of_key hkey ▸ List.mem_map_of_mem hmem)

theorem key_ne_edited {s : AuditRow} (hs : s ∈ e.others) : s.key ≠ e.edited.key := fun hkey => by
  have hmem := (mem_chainOf.1 hs).1
  have hnodup := (List.perm_middle.map AuditRow.id).nodup_iff.1 e.unique_edited
  rw [List.map_cons, List.nodup_cons] at hnodup
  exact hnodup.1 (id_eq_of_key hkey ▸ List.mem_map_of_mem hmem)

/-- Between two places there is a row iff there is one among the rows from the first place on and before the second. -/
theorem between_iff {low high : List ℤ} (hlow : ∀ s ∈ e.others, s.key ≠ low) :
    (e.others.dropWhile (fun s => decide (s.key < low))).takeWhile (fun s => decide (s.key < high)) ≠ [] ↔
      ∃ s ∈ e.others, low < s.key ∧ s.key < high := by
  constructor
  · intro hne
    obtain ⟨s, hs⟩ := List.exists_mem_of_ne_nil _ hne
    have hdrop := (List.takeWhile_sublist _).mem hs
    have hmem := (List.dropWhile_sublist _).mem hdrop
    exact ⟨s, hmem, lt_of_le_of_ne (le_of_mem_dropWhile sorted_others hdrop) (Ne.symm (hlow s hmem)),
      lt_of_mem_takeWhile hs⟩
  · rintro ⟨s, hs, hlt, hgt⟩ hnil
    have hdrop : s ∈ e.others.dropWhile (fun s => decide (s.key < low)) := by
      rw [← List.takeWhile_append_dropWhile (p := fun s : AuditRow => decide (s.key < low)) (l := e.others)] at hs
      refine (List.mem_append.1 hs).resolve_left fun htake => ?_
      exact lt_asymm hlt (lt_of_mem_takeWhile htake)
    have hsorted := e.sorted_others.sublist (List.dropWhile_sublist fun s => decide (s.key < low))
    cases hrows : e.others.dropWhile (fun s => decide (s.key < low)) with
    | nil =>
      rw [hrows] at hdrop
      cases hdrop
    | cons a rows =>
      rw [hrows] at hdrop hsorted hnil
      have has : a.key ≤ s.key := by
        rcases List.mem_cons.1 hdrop with rfl | hdrop
        · exact le_refl _
        · exact (List.pairwise_cons.1 hsorted).1 s hdrop
      rw [List.takeWhile_cons, if_pos (decide_eq_true (lt_of_le_of_lt has hgt))] at hnil
      cases hnil

variable (sha256 : List Char → List Char)

/-- The check of the edited row fails: it composes to bytes that tell other fields than those of the row, or, if the row
composed to `NULL`, to bytes with another digest than the stored one. -/
def Differs (e : Edit) : Prop :=
  Comparable e.edited ∧ (Comparable e.row → ¬ SameFields e.row e.edited) ∧ (¬ Comparable e.row → Fails sha256 e.edited)

/-- **When an edit is detected**: the row is hashed, and another hash comes before its new place, or its own check
fails, or it has moved away from rows that do not fit without it, and the verifier reaches them. -/
def Detectable (e : Edit) : Prop :=
  e.row.entryHash.isSome = true ∧ (e.hashBelow ≠ e.row.prevHash.getD [] ∨ e.Differs sha256 ∨
    e.row.entryHash.getD [] ≠ e.row.prevHash.getD [] ∧ (e.MovesUp ∨ e.MovesDown ∧ Readable e.edited))

variable {sha256}

theorem fails_iff (hinjective : Function.Injective sha256) (hpasses : Passes sha256 e.row) :
    Fails sha256 e.edited ↔ e.Differs sha256 := by
  unfold Differs
  by_cases hrow : Comparable e.row
  · simp only [hrow, true_implies, not_true_eq_false, false_implies, and_true]
    obtain ⟨bytes, hbytes⟩ := comparable_iff.1 hrow
    obtain ⟨_, hcomposed, hhash⟩ := hpasses
    rw [hbytes, Option.some.injEq] at hcomposed
    have hhash := hhash bytes hcomposed.symm
    constructor
    · rintro ⟨bytes', hbytes', hne⟩
      have hcomparable := comparable_iff.2 ⟨_, hbytes'⟩
      refine ⟨hcomparable, fun hsame => hne ?_⟩
      have hsame := (composed_eq_iff e.prevHash_eq e.tenantId_eq hbytes hcomparable).2 hsame
      rw [hbytes', Option.some.injEq, Option.some.injEq] at hsame
      rw [hsame, hhash, e.entryHash_eq]
    · rintro ⟨hcomparable, hdiffers⟩
      obtain ⟨bytes', hbytes'⟩ := comparable_iff.1 hcomparable
      refine ⟨bytes', hbytes', fun hsame => hdiffers ?_⟩
      rw [e.entryHash_eq, ← hhash] at hsame
      exact (composed_eq_iff e.prevHash_eq e.tenantId_eq hbytes hcomparable).1 (hinjective hsame ▸ hbytes')
  · simp only [hrow, false_implies, not_false_eq_true, true_implies, true_and]
    exact ⟨fun h => ⟨comparable_iff.2 (h.imp fun _ => And.left), h⟩, And.right⟩

/-- **The walk over the edited chain breaks iff the edit is detectable.** -/
theorem breaks_after_iff (hinjective : Function.Injective sha256) (hhashed : e.row.entryHash.isSome = true)
    (hchained : Chained sha256 [] (chainOf e.before e.row.tenantId)) :
    Breaks sha256 [] (chainOf e.after e.row.tenantId) ↔ e.Detectable sha256 := by
  rw [chain_before hhashed] at hchained
  obtain ⟨has, hlink, hpasses, hds⟩ := chained_rest hchained
  rw [chain_after hhashed]
  unfold Detectable hashBelow
  rw [← fails_iff hinjective hpasses]
  simp only [hhashed, true_and]
  rcases le_or_gt e.row.key e.edited.key with hle | hlt
  · have hdown : ¬ e.MovesDown := fun ⟨s, _, hs, hs'⟩ => not_lt.2 hle (lt_trans hs hs')
    obtain ⟨htake, hdrop⟩ := takeWhile_split (p := fun s : AuditRow => decide (s.key < e.row.key))
      (q := fun s : AuditRow => decide (s.key < e.edited.key))
      (fun s hs => decide_eq_true (lt_of_lt_of_le (of_decide_eq_true hs) hle)) e.others
    have hup : e.MovesUp ↔ _ := (between_iff (fun s hs => key_ne_row hs)).symm
    rw [htake, hdrop]
    rw [← List.takeWhile_append_dropWhile (p := fun s : AuditRow => decide (s.key < e.edited.key))
      (l := e.others.dropWhile _)] at hchained
    by_cases hstays : (e.others.dropWhile (fun s => decide (s.key < e.row.key))).takeWhile
        (fun s => decide (s.key < e.edited.key)) = []
    · rw [hstays, List.nil_append] at hchained
      rw [hstays, List.append_nil, breaks_inPlace hchained e.prevHash_eq e.entryHash_eq]
      simp [hup, hstays, hdown, hlink]
    · rw [breaks_up hchained hstays e.prevHash_eq e.entryHash_eq]
      simp [hup, hstays, hdown]
  · have hup : ¬ e.MovesUp := fun ⟨s, _, hs, hs'⟩ => lt_asymm hlt (lt_trans hs hs')
    obtain ⟨htake, hdrop⟩ := takeWhile_split (p := fun s : AuditRow => decide (s.key < e.edited.key))
      (q := fun s : AuditRow => decide (s.key < e.row.key))
      (fun s hs => decide_eq_true (lt_trans (of_decide_eq_true hs) hlt)) e.others
    have hdown : e.MovesDown ↔ _ := (between_iff (fun s hs => key_ne_edited hs)).symm
    rw [htake, hdrop, List.append_assoc] at hchained
    rw [← List.takeWhile_append_dropWhile (p := fun s : AuditRow => decide (s.key < e.row.key))
      (l := e.others.dropWhile fun s => decide (s.key < e.edited.key))]
    by_cases hstays : (e.others.dropWhile (fun s => decide (s.key < e.edited.key))).takeWhile
        (fun s => decide (s.key < e.row.key)) = []
    · rw [hstays, List.nil_append] at hchained
      rw [htake, hstays, List.append_nil] at hlink
      rw [hstays, List.nil_append, breaks_inPlace hchained e.prevHash_eq e.entryHash_eq]
      simp [hup, hstays, hdown, hlink]
    · rw [breaks_down hchained hstays e.prevHash_eq e.entryHash_eq]
      simp [hup, hstays, hdown]

end Edit

/-! ### The report -/

theorem mem_of_mapM {α β : Type} {f : α → Option β} {xs : List α} {ys : List β} (h : xs.mapM f = some ys) {y : β} :
    y ∈ ys ↔ ∃ x ∈ xs, f x = some y := by
  induction xs generalizing ys with
  | nil =>
    cases h
    simp
  | cons x xs ih =>
    simp only [List.mapM_cons, Option.bind_eq_bind, Option.bind_eq_some_iff, Option.pure_def, Option.some.injEq] at h
    obtain ⟨z, hz, zs, hzs, rfl⟩ := h
    rw [List.mem_cons, ih hzs, List.exists_mem_cons_iff, hz, Option.some.injEq]
    exact or_congr eq_comm Iff.rfl

/-- The verifier runs to its end and reports on the tenant. -/
def Reports (sha256 : List Char → List Char) (columns : Columns) (table : List AuditRow) (tenantId : PgUuid)
    (P : Finding → Prop) : Prop :=
  ∃ reports, verifyAuditChain sha256 columns table = some reports ∧
    ∃ r ∈ reports, r.tenantId = tenantId ∧ P r.finding

theorem reports_iff {columns : Columns} {table : List AuditRow} {tenantId : PgUuid} {P : Finding → Prop} :
    Reports sha256 columns table tenantId P ↔
      tenantId ∈ tenantsOf table ∧ columns.readable = true ∧
        (∀ t ∈ tenantsOf table, walk sha256 [] 0 (chainOf table t) ≠ none) ∧
        ∃ finding, walk sha256 [] 0 (chainOf table tenantId) = some finding ∧ P finding := by
  unfold Reports verifyAuditChain
  constructor
  · rintro ⟨reports, hreports, r, hr, rfl, hP⟩
    obtain ⟨t, ht, hwalk⟩ := (mem_of_mapM hreports).1 hr
    have hall := (mapM_some_iff (P := fun _ => True)).1 ⟨reports, hreports, fun _ _ => trivial⟩
    cases hreadable : columns.readable with
    | false => simp [hreadable] at hwalk
    | true =>
      simp only [hreadable, if_true, Option.map_eq_some_iff] at hwalk hall
      obtain ⟨finding, hfinding, rfl⟩ := hwalk
      refine ⟨ht, rfl, fun u hu hnone => ?_, finding, hfinding, hP⟩
      obtain ⟨_, ⟨_, hsome, -⟩, -⟩ := hall u hu
      rw [hnone] at hsome
      cases hsome
  · rintro ⟨ht, hreadable, hall, finding, hfinding, hP⟩
    simp only [hreadable, if_true]
    have hruns : ∀ u ∈ tenantsOf table, ∃ r : Report,
        (walk sha256 [] 0 (chainOf table u)).map (fun finding => ⟨u, finding⟩) = some r ∧ True := fun u hu => by
      obtain ⟨found, hfound⟩ := Option.ne_none_iff_exists'.1 (hall u hu)
      exact ⟨⟨u, found⟩, by rw [hfound]; rfl, trivial⟩
    obtain ⟨reports, hreports, -⟩ := mapM_some_iff.2 hruns
    refine ⟨reports, hreports, ⟨tenantId, finding⟩, (mem_of_mapM hreports).2 ⟨tenantId, ht, ?_⟩, rfl, hP⟩
    rw [hfinding]
    rfl

namespace Edit

variable {e : Edit}

theorem tenantsOf_after : tenantsOf e.after = tenantsOf e.before := by
  unfold tenantsOf after before
  simp only [List.filter_append, List.filter_cons, e.entryHash_eq, List.map_append]
  split
  · simp only [List.map_cons, e.tenantId_eq]
  · rfl

theorem chainOf_after {tenantId : PgUuid} (h : e.row.tenantId = tenantId → e.row.entryHash.isSome = false) :
    chainOf e.after tenantId = chainOf e.before tenantId := by
  have hskip : (decide (e.row.tenantId = tenantId) && e.row.entryHash.isSome) = false := by
    by_cases htenant : e.row.tenantId = tenantId
    · rw [h htenant, Bool.and_false]
    · rw [decide_eq_false htenant, Bool.false_and]
  have hskip' : (decide (e.edited.tenantId = tenantId) && e.edited.entryHash.isSome) = false := by
    rw [e.tenantId_eq, e.entryHash_eq]
    exact hskip
  unfold chainOf after before
  rw [List.filter_append, List.filter_append, List.filter_cons_of_neg (by rw [hskip']; exact Bool.false_ne_true),
    List.filter_cons_of_neg (by rw [hskip]; exact Bool.false_ne_true)]

theorem reports_after_iff {columns : Columns}
    (hok : Reports sha256 columns e.before e.row.tenantId fun f => f.reason = .ok) :
    Reports sha256 columns e.after e.row.tenantId (fun f => f.reason ≠ .ok) ↔
      Breaks sha256 [] (chainOf e.after e.row.tenantId) := by
  obtain ⟨htenant, hreadable, hall, -⟩ := reports_iff.1 hok
  rw [reports_iff, walk_breaks_iff, tenantsOf_after]
  refine ⟨fun h => h.2.2.2, fun h => ⟨htenant, hreadable, fun t ht => ?_, h⟩⟩
  by_cases hsame : e.row.tenantId = t
  · obtain ⟨finding, hfinding, -⟩ := (walk_breaks_iff 0).2 h
    rw [← hsame, hfinding]
    nofun
  · rw [chainOf_after fun heq => absurd heq hsame]
    exact hall t ht

end Edit

/-- **An edit is reported iff it is detectable**, when the verifier said `ok` before it and the digest tells bytes
apart. -/
theorem edit_detected_iff (hinjective : Function.Injective sha256) (columns : Columns) (e : Edit)
    (hok : Reports sha256 columns e.before e.row.tenantId fun f => f.reason = .ok) :
    Reports sha256 columns e.after e.row.tenantId (fun f => f.reason ≠ .ok) ↔ e.Detectable sha256 := by
  have hchained := (walk_ok_iff 0).1 (reports_iff.1 hok).2.2.2
  rw [Edit.reports_after_iff hok]
  cases hhashed : e.row.entryHash.isSome with
  | true => exact Edit.breaks_after_iff hinjective hhashed hchained
  | false =>
    rw [Edit.chainOf_after fun _ => hhashed]
    refine iff_of_false (not_breaks hchained) fun h => ?_
    have hsome := h.1
    rw [hhashed] at hsome
    cases hsome

end

/-! ### A table of one row -/

theorem chainOf_single {r : AuditRow} (hhashed : r.entryHash.isSome = true) : chainOf [r] r.tenantId = [r] := by
  simp [chainOf, hhashed]

theorem chained_single {sha256 : List Char → List Char} {r : AuditRow} (hhashed : r.entryHash.isSome = true)
    (hprev : r.prevHash = none) (hpasses : Passes sha256 r) : Chained sha256 [] (chainOf [r] r.tenantId) := by
  rw [chainOf_single hhashed]
  exact ⟨by rw [hprev]; rfl, hpasses, trivial⟩

theorem reports_single {sha256 : List Char → List Char} {r : AuditRow} (hhashed : r.entryHash.isSome = true)
    (hprev : r.prevHash = none) (hpasses : Passes sha256 r) :
    Reports sha256 ⟨.text, .text⟩ [r] r.tenantId fun f => f.reason = .ok := by
  have hwalk := (walk_ok_iff 0).2 (chained_single hhashed hprev hpasses)
  have htenants : tenantsOf [r] = [r.tenantId] := by simp [tenantsOf, hhashed]
  refine reports_iff.2 ⟨by simp [htenants], rfl, fun t ht => ?_, hwalk⟩
  rw [htenants, List.mem_singleton] at ht
  obtain ⟨finding, hfinding, -⟩ := hwalk
  rw [ht, hfinding]
  intro h
  cases h

/-- A login row that has no hash yet. -/
def loginRow (targetId userAgent : List Char) (ipAddress : Option (List Char)) : AuditRow where
  id := .repeated 1
  tenantId := .repeated 2
  timestamp := .instant .nine 0
  actorUserId := none
  actionType := "LOGIN_SUCCESS".toList
  targetEntity := "user".toList
  targetId := some targetId
  previousState := none
  newState := none
  ipAddress := ipAddress
  userAgent := some userAgent
  outcome := some "success".toList
  severity := some "info".toList
  sessionId := none
  requestId := none
  prevHash := none
  entryHash := none

theorem comparable_loginRow (targetId userAgent : List Char) (ipAddress : Option (List Char)) :
    Comparable (loginRow targetId userAgent ipAddress) :=
  ⟨⟨rfl, rfl⟩, (fun h => by cases h), (fun h => by cases h), fun h => by cases h⟩

def sealedRow (r : AuditRow) : AuditRow := { r with entryHash := some (((composed r).bind id).getD []) }

theorem passes_sealedRow {r : AuditRow} (h : Comparable r) : Passes id (sealedRow r) := by
  obtain ⟨bytes, hbytes⟩ := comparable_iff.1 h
  refine ⟨some bytes, hbytes, fun bytes' heq => ?_⟩
  cases heq
  change bytes = ((composed r).bind id).getD []
  rw [hbytes]
  rfl

/-- The only row of a table, and what it is edited to. -/
def editLogin (targetId userAgent : List Char) (ipAddress : Option (List Char)) (edited : AuditRow)
    (hedited : (edited.tenantId, edited.prevHash) = (.repeated 2, none)) : Edit where
  pre := []
  row := sealedRow (loginRow targetId userAgent ipAddress)
  edited := { edited with entryHash := (sealedRow (loginRow targetId userAgent ipAddress)).entryHash }
  post := []
  tenantId_eq := congrArg Prod.fst hedited
  prevHash_eq := congrArg Prod.snd hedited
  entryHash_eq := rfl
  unique := List.nodup_singleton _
  unique_edited := List.nodup_singleton _

def editAgent : Edit := editLogin "amy".toList "curl".toList none (loginRow "amy".toList "wget".toList none) rfl

theorem edit_detected_agent :
    Reports id ⟨.text, .text⟩ editAgent.after editAgent.row.tenantId fun f => f.reason ≠ .ok := by
  have hok := reports_single rfl rfl (passes_sealedRow (comparable_loginRow "amy".toList "curl".toList none))
  refine (edit_detected_iff Function.injective_id _ editAgent hok).2
    ⟨rfl, .inr (.inl ⟨?_, fun _ hsame => ?_, fun h => ?_⟩)⟩
  · exact comparable_loginRow "amy".toList "wget".toList none
  · exact absurd hsame.texts (by decide)
  · exact absurd (comparable_loginRow "amy".toList "curl".toList none) h

def editTarget : Edit := editLogin ("amy".toList ++ us :: "x".toList) "curl".toList none
  (loginRow "amy".toList "curl".toList (some ("x".toList ++ [us]))) rfl

/-- **An edit that the verifier misses**: the edited row has another target and composes to the same bytes. -/
theorem moved_text_unreported : editTarget.row.targetId ≠ editTarget.edited.targetId ∧
    Reports id ⟨.text, .text⟩ editTarget.before editTarget.row.tenantId (fun f => f.reason = .ok) ∧
    ¬ Reports id ⟨.text, .text⟩ editTarget.after editTarget.row.tenantId fun f => f.reason ≠ .ok := by
  have hrow := comparable_loginRow ("amy".toList ++ us :: "x".toList) "curl".toList none
  have hedited := comparable_loginRow "amy".toList "curl".toList (some ("x".toList ++ [us]))
  have hok := reports_single rfl rfl (passes_sealedRow hrow)
  refine ⟨by decide, hok, fun hbroken => ?_⟩
  obtain ⟨bytes, hbytes⟩ := comparable_iff.1 hrow
  obtain ⟨composition, hcomposed, hhash⟩ := passes_sealedRow hrow
  have hsame : composed editTarget.edited = some (some bytes) :=
    (composed_eq_iff (s := editTarget.edited) rfl rfl hbytes hedited).2
      ⟨rfl, ⟨rfl, rfl, .inl rfl⟩, rfl, by decide, rfl, rfl⟩
  have hpasses : Passes id editTarget.edited := ⟨composition, hsame.trans (hbytes.symm.trans hcomposed), hhash⟩
  exact not_breaks (chained_single rfl rfl hpasses) ((Edit.reports_after_iff hok).1 hbroken)

end BookingSystem.Contracts.AuditTampering
