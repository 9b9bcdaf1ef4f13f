import BookingSystem.Base.Run
import BookingSystem.Service.Scim
import Mathlib.Data.List.Induction

/-!
# What a patch means

An operation sets attributes, those of its value when it has no path, or takes one away. `patchUser` acts on operations
with a path only, takes every text for active to be true, and removes nothing but active. What it makes of a request is
what the request means exactly when the last operation on each attribute is one of the others, or says what the ones it
acts on have said already (`meant_iff`). An administrator role is never given.

A user that is read and written back keeps all but the role, which becomes the one that provisioning may give, and an
empty display name, which is read as the username (`written_back`).
-/

namespace BookingSystem.Contracts.ScimPatch

open Base (Json Keyed Table run)
open Model (Instant Uuid adminRoles isAdmin)
open Service.Scim (Numbers User UserRow createUser findRow getUser lower patchOperation patchUser patched property
  replaceRow replaceUser replaced resolveScimRole shownName toScimUser truthy word)

/-! ### Operations -/

inductive Attribute where
  | active
  | displayName
  | title
  | userName
  deriving DecidableEq

def Attribute.name : Attribute → List Char
  | .active => "active".toList
  | .displayName => "displayName".toList
  | .title => "title".toList
  | .userName => "userName".toList

def Spelling (w : List Char) := { s : List Char // lower s = lower w }

/-- An attribute with its value; a truth value may be written as a text. -/
inductive Setting where
  | active (b asText : Bool)
  | displayName (s : List Char)
  | title (s : List Char)
  | userName (s : List Char)

/-- What a row is to have of an attribute. -/
inductive Change where
  | active (v : Json)
  | displayName (v : Json)
  | title (role : String)
  | userName (v : Json)

def Change.target : Change → Attribute
  | .active _ => .active
  | .displayName _ => .displayName
  | .title _ => .title
  | .userName _ => .userName

namespace Setting

def target : Setting → Attribute
  | .active _ _ => .active
  | .displayName _ => .displayName
  | .title _ => .title
  | .userName _ => .userName

def json : Setting → Json
  | .active b false => .bool b
  | .active true true => .str "True".toList
  | .active false true => .str "False".toList
  | .displayName s => .str s
  | .title s => .str s
  | .userName s => .str s

/-- A title stands for the role it names, if that may be given. -/
def change : Setting → Change
  | .active b _ => .active (.bool b)
  | .displayName s => .displayName (.str s)
  | .title s => .title (resolveScimRole (some (.str s)))
  | .userName s => .userName (.str s)

end Setting

/-- The attributes that need not be there. -/
inductive Removable where
  | active
  | displayName
  | title

namespace Removable

def target : Removable → Attribute
  | .active => .active
  | .displayName => .displayName
  | .title => .title

/-- Without a title a user has the role of a new one without a title. -/
def change : Removable → Change
  | .active => .active (.bool false)
  | .displayName => .displayName .null
  | .title => .title (resolveScimRole none)

end Removable

/-- `add` and `replace` say the same of an attribute with one value. -/
inductive Setter where
  | add
  | replace

def Setter.name : Setter → List Char
  | .add => "add".toList
  | .replace => "replace".toList

inductive Operation where
  | set (op : Setter) (name : Spelling op.name) (setting : Setting) (path : Spelling setting.target.name)
  | setAll (op : Setter) (name : Spelling op.name) (settings : List Setting)
  | remove (name : Spelling "remove".toList) (a : Removable) (path : Spelling a.target.name)

namespace Operation

def json : Operation → Json
  | .set _ name setting path =>
    .obj [("op".toList, .str name.1), ("path".toList, .str path.1), ("value".toList, setting.json)]
  | .setAll _ name settings =>
    .obj [("op".toList, .str name.1), ("value".toList, .obj (settings.map fun s => (s.target.name, s.json)))]
  | .remove name _ path => .obj [("op".toList, .str name.1), ("path".toList, .str path.1)]

/-- What an operation means, one change after another. -/
def meant : Operation → List Change
  | .set _ _ setting _ => [setting.change]
  | .setAll _ _ settings => settings.map Setting.change
  | .remove _ a _ => [a.change]

/-- What `patchUser` makes of it: a text for active is true. -/
def taken : Operation → Option Change
  | .set _ _ (.active _ true) _ => some (.active (.bool true))
  | .set _ _ setting _ => some setting.change
  | .setAll _ _ _ => none
  | .remove _ .active _ => some (.active (.bool false))
  | .remove _ _ _ => none

/-- `patchUser` reads what is meant. -/
def Understood : Operation → Prop
  | .set _ _ (.active false true) _ => False
  | .set _ _ _ _ => True
  | .setAll _ _ _ => False
  | .remove _ .active _ => True
  | .remove _ _ _ => False

/-- `patchUser` does nothing. -/
def PassedOver : Operation → Prop
  | .set _ _ _ _ => False
  | .setAll _ _ _ => True
  | .remove _ .active _ => False
  | .remove _ _ _ => True

def Mentions (a : Attribute) (op : Operation) : Prop := ∃ c ∈ op.meant, c.target = a

end Operation

/-! ### Rows -/

variable {users : Table User} {js : Numbers} {body : Json} {tenantId : Uuid} {u : User}

def current (u : User) : Attribute → Change
  | .active => .active u.isActive
  | .displayName => .displayName u.dn
  | .title => .title u.role
  | .userName => .userName u.username

def assign (u : User) : Change → User
  | .active v => { u with isActive := v }
  | .displayName v => { u with dn := v }
  | .title role => { u with role := role }
  | .userName v => { u with username := v }

def applied (u : User) (ops : List Operation) : User := (ops.flatMap Operation.meant).foldl assign u

def lastOf (a : Attribute) (cs : List Change) : Option Change := (cs.filter fun c => decide (c.target = a)).getLast?

theorem current_assign (u : User) (c : Change) (a : Attribute) :
    current (assign u c) a = if c.target = a then c else current u a := by
  cases c <;> cases a <;> rfl

theorem current_foldl (u : User) (cs : List Change) (a : Attribute) :
    current (cs.foldl assign u) a = (lastOf a cs).getD (current u a) := by
  induction cs using List.reverseRecOn with
  | nil => rfl
  | append_singleton cs c ih =>
    rw [List.foldl_append, List.foldl_cons, List.foldl_nil, current_assign, lastOf, List.filter_append]
    by_cases hc : c.target = a
    · simp [hc]
    · simp [hc, ih, lastOf]

theorem eq_of_current {u' : User} (hid : u.id = u'.id) (htenant : u.tenantId = u'.tenantId)
    (h : ∀ a, current u a = current u' a) : u = u' := by
  cases u
  cases u'
  have hactive := h .active
  have hdn := h .displayName
  have hrole := h .title
  have husername := h .userName
  simp only [current, Change.active.injEq, Change.displayName.injEq, Change.title.injEq, Change.userName.injEq] at *
  simp [*]

theorem keys_foldl (u : User) (cs : List Change) :
    (cs.foldl assign u).id = u.id ∧ (cs.foldl assign u).tenantId = u.tenantId := by
  induction cs generalizing u with
  | nil => exact ⟨rfl, rfl⟩
  | cons c cs ih =>
    have hassign : (assign u c).id = u.id ∧ (assign u c).tenantId = u.tenantId := by
      cases c <;> exact ⟨rfl, rfl⟩
    rw [List.foldl_cons, (ih _).1, (ih _).2]
    exact hassign

/-! ### What the loop does -/

theorem word_str (js : Numbers) (s : List Char) : word js (some (.str s)) = lower s := by
  cases s with
  | nil => rfl
  | cons c s => rfl

theorem lower_setter (op : Setter) : lower op.name = op.name := by
  cases op <;> decide

theorem patchOperation_json (js : Numbers) (u : User) (op : Operation) :
    patchOperation js u op.json = some (op.taken.elim u (assign u)) := by
  cases op with
  | set op name setting path =>
    change some (patched js u (word js (some (.str name.1))) (word js (some (.str path.1))) (some setting.json)) = _
    rw [word_str, word_str, name.2, path.2, lower_setter]
    cases setting with
    | active b asText => cases op <;> cases b <;> cases asText <;> rfl
    | displayName s => cases op <;> rfl
    | title s => cases op <;> rfl
    | userName s => cases op <;> rfl
  | setAll op name settings =>
    change some (patched js u (word js (some (.str name.1))) (word js none)
      (some (.obj (settings.map fun s => (s.target.name, s.json))))) = _
    rw [word_str, name.2, lower_setter]
    cases op <;> rfl
  | remove name a path =>
    change some (patched js u (word js (some (.str name.1))) (word js (some (.str path.1))) none) = _
    rw [word_str, word_str, name.2, path.2]
    cases a <;> rfl

theorem foldlM_json (js : Numbers) (u : User) (ops : List Operation) :
    (ops.map Operation.json).foldlM (patchOperation js) u =
      some ((ops.filterMap Operation.taken).foldl assign u) := by
  induction ops generalizing u with
  | nil => rfl
  | cons op ops ih =>
    rw [List.map_cons, List.foldlM_cons, patchOperation_json, Option.bind_eq_bind, Option.bind_some, ih]
    cases htaken : op.taken with
    | none => rw [List.filterMap_cons_none htaken, Option.elim_none]
    | some c => rw [List.filterMap_cons_some htaken, Option.elim_some, List.foldl_cons]

/-! ### Last changes -/

theorem lastOf_append (a : Attribute) (cs ds : List Change) : lastOf a (cs ++ ds) = (lastOf a ds).or (lastOf a cs) := by
  rw [lastOf, List.filter_append, List.getLast?_append]
  rfl

theorem lastOf_singleton {a : Attribute} {c : Change} (h : c.target = a) : lastOf a [c] = some c := by
  simp [lastOf, h]

theorem lastOf_eq_none_iff {a : Attribute} {cs : List Change} : lastOf a cs = none ↔ ∀ c ∈ cs, c.target ≠ a := by
  simp [lastOf]

def blank : User := ⟨"", "", .null, "", .null, .null⟩

def filled : User := ⟨"", "", .bool true, "role", .bool true, .bool true⟩

theorem current_blank_ne_filled (a : Attribute) : current blank a ≠ current filled a := by
  cases a <;> simp [current, blank, filled]

/-- Changes come to the same for every row iff the last ones are the same. -/
theorem foldl_eq_iff (cs ds : List Change) :
    (∀ u, cs.foldl assign u = ds.foldl assign u) ↔ ∀ a, lastOf a cs = lastOf a ds := by
  constructor
  · intro h a
    have hcurrent : ∀ u, (lastOf a cs).getD (current u a) = (lastOf a ds).getD (current u a) := fun u => by
      rw [← current_foldl, ← current_foldl, h]
    have hblank := hcurrent blank
    have hfilled := hcurrent filled
    have hne := current_blank_ne_filled a
    cases hc : lastOf a cs with
    | none =>
      cases hd : lastOf a ds with
      | none => rfl
      | some d =>
        rw [hc, hd] at hblank hfilled
        exact absurd (hblank.trans hfilled.symm) hne
    | some c =>
      cases hd : lastOf a ds with
      | none =>
        rw [hc, hd] at hblank hfilled
        exact absurd (hblank.symm.trans hfilled) hne
      | some d =>
        rw [hc, hd] at hblank
        exact congrArg some hblank
  · intro h u
    refine eq_of_current ?_ ?_ fun a => ?_
    · rw [(keys_foldl u cs).1, (keys_foldl u ds).1]
    · rw [(keys_foldl u cs).2, (keys_foldl u ds).2]
    · rw [current_foldl, current_foldl, h]

/-- The last operation on the attribute, if there is one, is understood, or it is passed over and says what the last one
before it that is taken says. -/
def Survives (ops : List Operation) (a : Attribute) : Prop :=
  ∀ before op after, ops = before ++ op :: after → op.Mentions a → (∀ o ∈ after, ¬ o.Mentions a) →
    op.Understood ∨ op.PassedOver ∧ lastOf a (before.filterMap Operation.taken) = lastOf a op.meant

/-- An operation that is taken speaks of the attribute it changes. -/
theorem mentions_of_taken {op : Operation} {c : Change} (h : op.taken = some c) : op.Mentions c.target := by
  cases op with
  | set op name setting path =>
    refine ⟨setting.change, List.mem_singleton_self _, ?_⟩
    cases setting with
    | active b asText =>
      cases asText <;>
      · cases h
        rfl
    | displayName s =>
      cases h
      rfl
    | title s =>
      cases h
      rfl
    | userName s =>
      cases h
      rfl
  | setAll op name settings => cases h
  | remove name a path =>
    refine ⟨a.change, List.mem_singleton_self _, ?_⟩
    cases a with
    | active =>
      cases h
      rfl
    | displayName => cases h
    | title => cases h

/-- An operation is understood, or passed over, or a text is taken for true. -/
theorem taken_cases (op : Operation) :
    op.Understood ∧ (∃ c, op.meant = [c] ∧ op.taken = some c) ∧ ¬ op.PassedOver ∨
      op.PassedOver ∧ op.taken = none ∧ ¬ op.Understood ∨
      ¬ op.Understood ∧ ¬ op.PassedOver ∧ op.meant = [.active (.bool false)] ∧
        op.taken = some (.active (.bool true)) := by
  cases op with
  | set op name setting path =>
    cases setting with
    | active b asText =>
      cases asText with
      | false => cases b <;> exact .inl ⟨trivial, ⟨_, rfl, rfl⟩, id⟩
      | true =>
        cases b with
        | false => exact .inr (.inr ⟨id, id, rfl, rfl⟩)
        | true => exact .inl ⟨trivial, ⟨_, rfl, rfl⟩, id⟩
    | displayName s => exact .inl ⟨trivial, ⟨_, rfl, rfl⟩, id⟩
    | title s => exact .inl ⟨trivial, ⟨_, rfl, rfl⟩, id⟩
    | userName s => exact .inl ⟨trivial, ⟨_, rfl, rfl⟩, id⟩
  | setAll op name settings => exact .inr (.inl ⟨trivial, rfl, id⟩)
  | remove name a path =>
    cases a with
    | active => exact .inl ⟨trivial, ⟨_, rfl, rfl⟩, id⟩
    | displayName => exact .inr (.inl ⟨trivial, rfl, id⟩)
    | title => exact .inr (.inl ⟨trivial, rfl, id⟩)

theorem exists_last {α : Type} (P : α → Prop) (xs : List α) :
    (∀ x ∈ xs, ¬ P x) ∨ ∃ before x after, xs = before ++ x :: after ∧ P x ∧ ∀ y ∈ after, ¬ P y := by
  induction xs with
  | nil => exact .inl nofun
  | cons x xs ih =>
    obtain hnone | ⟨before, y, after, rfl, hy, hafter⟩ := ih
    · by_cases hx : P x
      · exact .inr ⟨[], x, xs, rfl, hx, hnone⟩
      · exact .inl fun y hy => (List.mem_cons.1 hy).elim (fun h => h ▸ hx) (hnone y)
    · exact .inr ⟨x :: before, y, after, rfl, hy, hafter⟩

theorem lastOf_of_silent {ops : List Operation} {a : Attribute} (h : ∀ o ∈ ops, ¬ o.Mentions a) :
    lastOf a (ops.filterMap Operation.taken) = none ∧ lastOf a (ops.flatMap Operation.meant) = none := by
  refine ⟨lastOf_eq_none_iff.2 fun c hc hca => ?_, lastOf_eq_none_iff.2 fun c hc hca => ?_⟩
  · obtain ⟨op, hop, htaken⟩ := List.mem_filterMap.1 hc
    exact h op hop (hca ▸ mentions_of_taken htaken)
  · obtain ⟨op, hop, hmeant⟩ := List.mem_flatMap.1 hc
    exact h op hop ⟨c, hmeant, hca⟩

/-- Where the last operation on an attribute stands, it decides. -/
theorem lastOf_split (before : List Operation) {after : List Operation} {op : Operation} {a : Attribute}
    (hop : op.Mentions a) (hafter : ∀ o ∈ after, ¬ o.Mentions a) :
    lastOf a ((before ++ op :: after).filterMap Operation.taken) =
        (lastOf a op.taken.toList).or (lastOf a (before.filterMap Operation.taken)) ∧
      lastOf a ((before ++ op :: after).flatMap Operation.meant) = lastOf a op.meant := by
  obtain ⟨htaken, hmeant⟩ := lastOf_of_silent hafter
  refine ⟨?_, ?_⟩
  · rw [List.filterMap_append, lastOf_append]
    cases h : op.taken with
    | none =>
      rw [List.filterMap_cons_none h, htaken, Option.toList_none]
      rfl
    | some c =>
      rw [List.filterMap_cons_some h, ← List.singleton_append, lastOf_append, htaken, Option.none_or,
        Option.toList_some]
  · obtain ⟨c, hc, hca⟩ := hop
    have hsome : lastOf a op.meant ≠ none := fun h => lastOf_eq_none_iff.1 h c hc hca
    rw [List.flatMap_append, List.flatMap_cons, lastOf_append, lastOf_append, hmeant, Option.none_or]
    exact Option.or_of_isSome (Option.isSome_iff_ne_none.2 hsome)

theorem survives_iff (ops : List Operation) (a : Attribute) :
    lastOf a (ops.filterMap Operation.taken) = lastOf a (ops.flatMap Operation.meant) ↔ Survives ops a := by
  constructor
  · rintro h before op after rfl hop hafter
    obtain ⟨htaken, hmeant⟩ := lastOf_split before hop hafter
    rw [htaken, hmeant] at h
    obtain ⟨hunderstood, -, -⟩ | ⟨hpassed, hnone, -⟩ | ⟨-, -, hfalse, htrue⟩ := taken_cases op
    · exact .inl hunderstood
    · rw [hnone, Option.toList_none] at h
      exact .inr ⟨hpassed, h⟩
    · obtain ⟨c, hc, hca⟩ := hop
      rw [hfalse, List.mem_singleton] at hc
      subst hc
      have htarget : (Change.active (.bool true)).target = a := hca
      rw [htrue, hfalse, Option.toList_some, lastOf_singleton htarget, lastOf_singleton hca, Option.some_or] at h
      cases h
  · intro h
    obtain hsilent | ⟨before, op, after, rfl, hop, hafter⟩ := exists_last (fun o => o.Mentions a) ops
    · rw [(lastOf_of_silent hsilent).1, (lastOf_of_silent hsilent).2]
    · obtain ⟨htaken, hmeant⟩ := lastOf_split before hop hafter
      rw [htaken, hmeant]
      obtain hunderstood | ⟨hpassed, hsame⟩ := h before op after rfl hop hafter
      · obtain ⟨-, ⟨c, hc, hctaken⟩, -⟩ | ⟨-, -, hnot⟩ | ⟨hnot, -⟩ := taken_cases op
        · obtain ⟨c', hc', hca⟩ := hop
          rw [hc, List.mem_singleton] at hc'
          subst hc'
          rw [hc, hctaken, Option.toList_some, lastOf_singleton hca, Option.some_or]
        · exact absurd hunderstood hnot
        · exact absurd hunderstood hnot
      · obtain ⟨-, -, hnot⟩ | ⟨-, hnone, -⟩ | ⟨-, hnot, -⟩ := taken_cases op
        · exact absurd hpassed hnot
        · rw [hnone, Option.toList_none, ← hsame]
          rfl
        · exact absurd hpassed hnot

/-! ### Administrators -/

/-- The requests that write users; the database gives a new one its id. -/
inductive Request where
  | create (tenantId : Uuid) (body : Json) (id : Uuid)
  | replace (tenantId id : Uuid) (body : Json)
  | patch (tenantId id : Uuid) (body : Json)

def handle (js : Numbers) (users : Table User) : Request → Table User
  | .create tenantId body id => (createUser js users tenantId body id).getD users
  | .replace tenantId id body => (replaceUser js users tenantId id body).getD users
  | .patch tenantId id body => (patchUser js users tenantId id body).getD users

/-- Whoever has an administrator role had it before. -/
def NoNewAdmins (before after : Table User) : Prop :=
  ∀ u ∈ after.rows, isAdmin u.role = true → ∃ v ∈ before.rows, v.id = u.id ∧ v.role = u.role

theorem resolveScimRole_not_admin (title : Option Json) : isAdmin (resolveScimRole title) = false := by
  have hclamp : ∀ t : String, isAdmin (if (adminRoles ++ ["General User"]).contains t && !adminRoles.contains t then t
      else "General User") = false := by
    intro t
    split
    · rename_i h
      rw [Bool.and_eq_true] at h
      simpa [isAdmin] using h.2
    · decide
  exact hclamp _

theorem noNewAdmins_refl (users : Table User) : NoNewAdmins users users := fun u hu _ => ⟨u, hu, rfl, rfl⟩

theorem noNewAdmins_save {v : User} (hu : u ∈ users.rows) (hid : v.id = u.id)
    (hrole : v.role = u.role ∨ isAdmin v.role = false) : NoNewAdmins users (users.save v) := by
  intro w hw hadmin
  obtain ⟨rfl, -⟩ | ⟨hw, -⟩ := Table.mem_save.1 hw
  · obtain hrole | hrole := hrole
    · exact ⟨u, hu, hid.symm, hrole.symm⟩
    · rw [hrole] at hadmin
      cases hadmin
  · exact ⟨w, hw, rfl, rfl⟩

theorem mem_of_findOne {id : Uuid} (h : Service.Scim.findOne users tenantId id = some u) : u ∈ users.rows :=
  Table.mem_of_find? (Option.filter_eq_some_iff.1 h).1

/-- What the loop of `patchUser` keeps of the row it found: its key, and the role unless it is one of a title. -/
def Clamped (u v : User) : Prop := v.id = u.id ∧ (v.role = u.role ∨ isAdmin v.role = false)

theorem clamped_patched (js : Numbers) {v : User} (h : Clamped u v) (opName path : List Char) (val : Option Json) :
    Clamped u (patched js v opName path val) := by
  unfold patched
  split
  · split
    · exact h
    · split
      · exact h
      · split
        · exact ⟨h.1, .inr (resolveScimRole_not_admin val)⟩
        · split <;> exact h
  · split <;> exact h

theorem clamped_foldlM (js : Numbers) {v w : User} {ops : List Json} (h : Clamped u v)
    (hfold : ops.foldlM (patchOperation js) v = some w) : Clamped u w := by
  induction ops generalizing v with
  | nil =>
    cases hfold
    exact h
  | cons op ops ih =>
    obtain ⟨v', hv', hfold⟩ := Option.bind_eq_some_iff.1 hfold
    obtain ⟨path, -, hv'⟩ := Option.bind_eq_some_iff.1 hv'
    obtain ⟨val, -, hv'⟩ := Option.bind_eq_some_iff.1 hv'
    obtain ⟨name, -, hv'⟩ := Option.bind_eq_some_iff.1 hv'
    cases hv'
    exact ih (clamped_patched js h (word js name) (word js path) val) hfold

theorem noNewAdmins_create {users' : Table User} {id : Uuid} (h : createUser js users tenantId body id = some users') :
    NoNewAdmins users users' := by
  obtain ⟨userName, -, h⟩ := Option.bind_eq_some_iff.1 h
  obtain ⟨displayName, -, h⟩ := Option.bind_eq_some_iff.1 h
  obtain ⟨name, -, h⟩ := Option.bind_eq_some_iff.1 h
  obtain ⟨active, -, h⟩ := Option.bind_eq_some_iff.1 h
  obtain ⟨title, -, h⟩ := Option.bind_eq_some_iff.1 h
  split at h
  · cases h
  · obtain ⟨-, hrows⟩ := Table.insert?_eq_some_iff.1 h
    intro u hu hadmin
    rw [hrows, List.mem_append, List.mem_singleton] at hu
    obtain hu | rfl := hu
    · exact ⟨u, hu, rfl, rfl⟩
    · rw [show isAdmin (resolveScimRole title) = false from resolveScimRole_not_admin title] at hadmin
      cases hadmin

theorem noNewAdmins_replace {users' : Table User} {id : Uuid}
    (h : replaceUser js users tenantId id body = some users') : NoNewAdmins users users' := by
  obtain ⟨u, hu, h⟩ := Option.bind_eq_some_iff.1 h
  obtain ⟨userName, -, h⟩ := Option.bind_eq_some_iff.1 h
  obtain ⟨active, -, h⟩ := Option.bind_eq_some_iff.1 h
  obtain ⟨title, -, h⟩ := Option.bind_eq_some_iff.1 h
  obtain ⟨displayName, -, h⟩ := Option.bind_eq_some_iff.1 h
  cases h
  refine noNewAdmins_save (mem_of_findOne hu) rfl ?_
  by_cases htitle : truthy js title = true
  · exact .inr (by simpa [htitle] using resolveScimRole_not_admin title)
  · exact .inl (by simp [htitle])

theorem noNewAdmins_patch {users' : Table User} {id : Uuid} (h : patchUser js users tenantId id body = some users') :
    NoNewAdmins users users' := by
  obtain ⟨u, hu, h⟩ := Option.bind_eq_some_iff.1 h
  obtain ⟨ops, -, h⟩ := Option.bind_eq_some_iff.1 h
  obtain ⟨v, hv, h⟩ := Option.bind_eq_some_iff.1 h
  cases h
  obtain ⟨hid, hrole⟩ := clamped_foldlM js ⟨rfl, .inl rfl⟩ hv
  exact noNewAdmins_save (mem_of_findOne hu) hid hrole

theorem noNewAdmins_handle (js : Numbers) (users : Table User) (r : Request) :
    NoNewAdmins users (handle js users r) := by
  cases r with
  | create tenantId body id =>
    rw [handle]
    cases h : createUser js users tenantId body id with
    | none => exact noNewAdmins_refl users
    | some users' => exact noNewAdmins_create h
  | replace tenantId id body =>
    rw [handle]
    cases h : replaceUser js users tenantId id body with
    | none => exact noNewAdmins_refl users
    | some users' => exact noNewAdmins_replace h
  | patch tenantId id body =>
    rw [handle]
    cases h : patchUser js users tenantId id body with
    | none => exact noNewAdmins_refl users
    | some users' => exact noNewAdmins_patch h

theorem NoNewAdmins.trans {users' users'' : Table User} (h : NoNewAdmins users users')
    (h' : NoNewAdmins users' users'') : NoNewAdmins users users'' := by
  intro u hu hadmin
  obtain ⟨v, hv, hid, hrole⟩ := h' u hu hadmin
  obtain ⟨w, hw, hwid, hwrole⟩ := h v hv (by rwa [hrole])
  exact ⟨w, hw, hwid.trans hid, hwrole.trans hrole⟩

theorem noNewAdmins_run (js : Numbers) (users : Table User) (rs : List Request) :
    NoNewAdmins users (run (handle js) users rs) := by
  induction rs generalizing users with
  | nil => exact noNewAdmins_refl users
  | cons r rs ih => exact (noNewAdmins_handle js users r).trans (ih _)

/-! ### The meaning of a patch -/

/-- A request with the operations does to every user what they mean, and no run gives an administrator role. -/
def Meant (js : Numbers) (ops : List Operation) : Prop :=
  (∀ (users : Table User) (tenantId id : Uuid) (u : User), Service.Scim.findOne users tenantId id = some u →
    patchUser js users tenantId id (.obj [("Operations".toList, .arr (ops.map Operation.json))]) =
      some (users.save (applied u ops))) ∧
    ∀ users rs, NoNewAdmins users (run (handle js) users rs)

theorem patchUser_json (js : Numbers) {id : Uuid} (ops : List Operation)
    (h : Service.Scim.findOne users tenantId id = some u) :
    patchUser js users tenantId id (.obj [("Operations".toList, .arr (ops.map Operation.json))]) =
      some (users.save ((ops.filterMap Operation.taken).foldl assign u)) := by
  rw [patchUser, h, Option.bind_eq_bind, Option.bind_some]
  change ((ops.map Operation.json).foldlM (patchOperation js) u).bind (fun u => some (users.save u)) = _
  rw [foldlM_json, Option.bind_some]

theorem meant_iff_foldl (js : Numbers) (ops : List Operation) :
    Meant js ops ↔
      ∀ u, (ops.filterMap Operation.taken).foldl assign u = (ops.flatMap Operation.meant).foldl assign u := by
  constructor
  · rintro ⟨h, -⟩ u
    -- a table with this row alone shows what is saved
    obtain ⟨users, husers⟩ := Table.insert?_of_find? (t := Table.empty) (a := u) rfl
    have hfind : users.find? u.id = some u := by
      rw [Table.find?_insert? husers]
      exact if_pos rfl
    have hone : Service.Scim.findOne users u.tenantId u.id = some u := by
      rw [Service.Scim.findOne, hfind]
      simp
    have hsame := (patchUser_json js ops hone).symm.trans (h users u.tenantId u.id u hone)
    have hsaved (cs : List Change) : (users.save (cs.foldl assign u)).find? u.id = some (cs.foldl assign u) :=
      Table.find?_save_of_key (keys_foldl u cs).1 hfind
    have htaken := hsaved (ops.filterMap Operation.taken)
    rw [Option.some.inj hsame] at htaken
    exact Option.some.inj (htaken.symm.trans (hsaved (ops.flatMap Operation.meant)))
  · intro h
    refine ⟨fun users tenantId id u hu => ?_, noNewAdmins_run js⟩
    rw [patchUser_json js ops hu, h u, applied]

theorem meant_iff (js : Numbers) (ops : List Operation) : Meant js ops ↔ ∀ a, Survives ops a := by
  rw [meant_iff_foldl, foldl_eq_iff]
  exact forall_congr' fun a => survives_iff ops a

/-- Azure AD's request for someone who has left leaves them active, and so does one with a path and the text False. -/
theorem leaver_stays_active :
    ¬ Meant ⟨fun _ => [], fun _ => false⟩
        [.setAll .replace ⟨"Replace".toList, by decide⟩ [.active false false]] ∧
      ¬ Meant ⟨fun _ => [], fun _ => false⟩
        [.set .replace ⟨"Replace".toList, by decide⟩ (.active false true) ⟨"active".toList, rfl⟩] := by
  refine ⟨fun h => ?_, fun h => ?_⟩
  · have hrow := congrArg User.isActive ((meant_iff_foldl _ _).1 h filled)
    cases hrow
  · have hrow := congrArg User.isActive ((meant_iff_foldl _ _).1 h filled)
    cases hrow

/-! ### What is read is written back -/

section ReadBack

variable {C : Type} (js : Numbers) (date : Instant → Json) (now : Instant)

/-- `replaceUser(id, getUser(id))`. -/
def readBack (rows : Table (UserRow C)) (tenantId id : Uuid) : Option (Table (UserRow C)) :=
  (getUser js date rows tenantId id).bind (replaceRow js now rows tenantId id)

/-- The user has all it had before but `updatedAt`. -/
def KeptBack (rows : Table (UserRow C)) (tenantId id : Uuid) : Prop :=
  ∀ r, findRow rows tenantId id = some r →
    readBack js date now rows tenantId id = some (rows.save { r with updatedAt := now })

def settled (u : User) : User :=
  { u with
    role := if u.role = "" then "" else "General User"
    dn := if truthy js (some (shownName js u)) then shownName js u else u.dn }

/-- The role is the one that provisioning gives, and a name is shown that is the user's own. -/
def Settled (u : User) : Prop :=
  (u.role = "" ∨ u.role = "General User") ∧ (truthy js (some u.dn) = true ∨ truthy js (some u.username) = false)

theorem resolveScimRole_eq (title : Option Json) : resolveScimRole title = "General User" := by
  have hclamp : ∀ t : String, (if (adminRoles ++ ["General User"]).contains t && !adminRoles.contains t then t
      else "General User") = "General User" := by
    intro t
    split
    · rename_i h
      rw [Bool.and_eq_true, List.contains_iff_mem, List.mem_append, ← List.contains_iff_mem] at h
      rcases h.1 with hadmin | huser
      · rw [hadmin] at h
        exact absurd h.2 (by decide)
      · exact List.mem_singleton.1 huser
    · rfl
  exact hclamp _

theorem replaced_toScimUser (r : UserRow C) :
    replaced js r.toUser (toScimUser js date r) = some (settled js r.toUser) := by
  have htitle : truthy js (some (.str r.role.toList)) = true ↔ r.role ≠ "" := by
    change (r.role.toList != []) = true ↔ _
    rw [bne_iff_ne, ne_eq, String.toList_eq_nil_iff]
  have hname : property "userName" (toScimUser js date r) = some (some r.username) := rfl
  have hactive : property "active" (toScimUser js date r) = some (some r.isActive) := rfl
  have hrole : property "title" (toScimUser js date r) = some (some (.str r.role.toList)) := rfl
  have hshown : property "displayName" (toScimUser js date r) = some (some (shownName js r.toUser)) := rfl
  simp only [replaced, hname, hactive, hrole, hshown, htitle, resolveScimRole_eq, settled, Option.getD_some, bind,
    Option.bind_some]
  congr 2
  · cases r.username <;> rfl
  · by_cases hempty : r.role = ""
    · rw [if_neg fun h => h hempty, if_pos hempty, hempty]
    · rw [if_pos hempty, if_neg hempty]

theorem settled_eq_iff (u : User) : settled js u = u ↔ Settled js u := by
  cases u with
  | mk id tenantId username role isActive dn =>
    simp only [settled, Settled, shownName, User.mk.injEq, true_and]
    refine and_congr ?_ ?_
    · by_cases hrole : role = ""
      · simp [hrole]
      · rw [if_neg hrole, or_iff_right hrole]
        exact eq_comm
    · cases hdn : truthy js (some dn) <;> cases husername : truthy js (some username) <;> simp [hdn, husername]
      rintro rfl
      rw [hdn] at husername
      cases husername

theorem findRow_save {rows : Table (UserRow C)} {id : Uuid} {r v : UserRow C} (h : findRow rows tenantId id = some r)
    (hid : v.id = r.id) (htenant : v.tenantId = r.tenantId) : findRow (rows.save v) tenantId id = some v := by
  obtain ⟨hfind, hmine⟩ := Option.filter_eq_some_iff.1 h
  have hkey : r.id = id := Table.key_of_find? hfind
  have hsaved := Table.find?_save_of_key (hid.trans hkey : Base.key v = id) hfind
  rw [findRow, hsaved, Option.filter_some, htenant, if_pos hmine]

theorem readBack_of_row {rows : Table (UserRow C)} {id : Uuid} {r : UserRow C} (h : findRow rows tenantId id = some r) :
    readBack js date now rows tenantId id =
      some (rows.save { r with toUser := settled js r.toUser, updatedAt := now }) := by
  rw [readBack, getUser, h, Option.map_some, Option.bind_some, replaceRow, h]
  simp [replaced_toScimUser]

theorem keptBack_iff {rows : Table (UserRow C)} {id : Uuid} {r : UserRow C} (h : findRow rows tenantId id = some r) :
    KeptBack js date now rows tenantId id ↔ Settled js r.toUser := by
  rw [← settled_eq_iff]
  constructor
  · intro hkept
    have hsame := (readBack_of_row js date now h).symm.trans (hkept r h)
    have hsettled : findRow (rows.save { r with toUser := settled js r.toUser, updatedAt := now }) tenantId id =
        some { r with toUser := settled js r.toUser, updatedAt := now } := findRow_save h rfl rfl
    have hold : findRow (rows.save { r with updatedAt := now }) tenantId id = some { r with updatedAt := now } :=
      findRow_save h rfl rfl
    rw [Option.some.inj hsame, hold] at hsettled
    exact congrArg UserRow.toUser (Option.some.inj hsettled).symm
  · intro hsettled r' hr'
    obtain rfl := Option.some.inj (h.symm.trans hr')
    rw [readBack_of_row js date now h, hsettled]

theorem keys_of_replaced {u' : User} (h : replaced js u body = some u') : u'.id = u.id ∧ u'.tenantId = u.tenantId := by
  obtain ⟨userName, -, h⟩ := Option.bind_eq_some_iff.1 h
  obtain ⟨active, -, h⟩ := Option.bind_eq_some_iff.1 h
  obtain ⟨title, -, h⟩ := Option.bind_eq_some_iff.1 h
  obtain ⟨displayName, -, h⟩ := Option.bind_eq_some_iff.1 h
  cases h
  exact ⟨rfl, rfl⟩

/-- A user that is written from a title and a display name. -/
theorem settled_of_replaced {u' : User} (h : replaced js u body = some u')
    (htitle : ((property "title" body).any (truthy js)) = true)
    (hname : ((property "displayName" body).any (truthy js)) = true) : Settled js u' := by
  obtain ⟨userName, -, h⟩ := Option.bind_eq_some_iff.1 h
  obtain ⟨active, -, h⟩ := Option.bind_eq_some_iff.1 h
  obtain ⟨title, ht, h⟩ := Option.bind_eq_some_iff.1 h
  obtain ⟨displayName, hd, h⟩ := Option.bind_eq_some_iff.1 h
  rw [ht, Option.any_some] at htitle
  rw [hd, Option.any_some] at hname
  cases h
  cases displayName with
  | none => cases hname
  | some v => exact ⟨.inr (by simp [htitle, resolveScimRole_eq]), .inl (by simp [hname])⟩

end ReadBack

/-- **What is read is written back**, but for the role that may not be given and the name that was shown for none. -/
theorem written_back {C : Type} (js : Numbers) (date : Instant → Json) (now : Instant) (rows : Table (UserRow C))
    (tenantId id : Uuid) :
    (∀ r, findRow rows tenantId id = some r →
        readBack js date now rows tenantId id =
            some (rows.save { r with toUser := settled js r.toUser, updatedAt := now }) ∧
          (KeptBack js date now rows tenantId id ↔ Settled js r.toUser)) ∧
      ∀ stamp body rows', replaceRow js stamp rows tenantId id body = some rows' →
        ∃ r', findRow rows' tenantId id = some r' ∧ (KeptBack js date now rows' tenantId id ↔ Settled js r'.toUser) ∧
          ((property "title" body).any (truthy js) = true → (property "displayName" body).any (truthy js) = true →
            KeptBack js date now rows' tenantId id) := by
  refine ⟨fun r hr => ⟨readBack_of_row js date now hr, keptBack_iff js date now hr⟩, fun stamp body rows' h => ?_⟩
  obtain ⟨r, hr, h⟩ := Option.bind_eq_some_iff.1 h
  obtain ⟨u, hu, h⟩ := Option.bind_eq_some_iff.1 h
  have hkeys := keys_of_replaced js hu
  have hafter : findRow rows' tenantId id = some { r with toUser := u, updatedAt := stamp } := by
    rw [← Option.some.inj h]
    exact findRow_save hr hkeys.1 hkeys.2
  refine ⟨_, hafter, keptBack_iff js date now hafter, fun htitle hname => ?_⟩
  exact (keptBack_iff js date now hafter).2 (settled_of_replaced js hu htitle hname)

/-- An active user. -/
def amy (role : String) (dn : String) : UserRow Unit where
  id := "1"
  tenantId := "t"
  username := .str "amy".toList
  role := role
  isActive := .bool true
  dn := .str dn.toList
  createdAt := 0
  updatedAt := 0
  others := ()

def alone (r : UserRow Unit) : Table (UserRow Unit) := ⟨[r], List.nodup_singleton _⟩

theorem written_back_amy :
    KeptBack ⟨fun _ => [], fun _ => false⟩ (fun _ => .null) 0 (alone (amy "General User" "Amy")) "t" "1" := by
  have hback := written_back ⟨fun _ => [], fun _ => false⟩ (fun _ => .null) 0 (alone (amy "General User" "Amy")) "t" "1"
  exact (hback.1 _ rfl).2.2 ⟨.inr rfl, .inl rfl⟩

/-- A secretary is one no longer, and a user without a display name gets one. -/
theorem secretary_written_back :
    ¬ KeptBack ⟨fun _ => [], fun _ => false⟩ (fun _ => .null) 0 (alone (amy "Secretary" "Amy")) "t" "1" ∧
      ¬ KeptBack ⟨fun _ => [], fun _ => false⟩ (fun _ => .null) 0 (alone (amy "General User" "")) "t" "1" := by
  refine ⟨fun h => ?_, fun h => ?_⟩
  · rcases ((keptBack_iff _ _ _ rfl).1 h).1 with hrole | hrole
    · exact absurd hrole (by decide)
    · exact absurd hrole (by decide)
  · rcases ((keptBack_iff _ _ _ rfl).1 h).2 with hdn | husername
    · cases hdn
    · cases husername

end BookingSystem.Contracts.ScimPatch
