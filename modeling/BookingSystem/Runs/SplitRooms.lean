import Mathlib.Algebra.BigOperators.Group.List.Basic
import BookingSystem.Base.Run
import BookingSystem.Model.Resources

/-!
# Split rooms and their parts

A room in parent mode is to have room for its active parts (`Sound`). The check in `update` adds up the capacities that
a request gives, and it looks at the row that is edited and at no other. What a request asks for is a `Plan`: the row
that it writes, over which row, and the parts that it lists. It keeps the rows sound exactly if there is room for the
plan (`HasRoom`): in the rooms that the row is or was a part of, in the parts that are listed and have parts themselves,
and in the row, for the parts as they will be stored.
-/

namespace BookingSystem.Runs.SplitRooms

open Base Model Model.ResourcesService

/-- A parent with a capacity has room for `n`. -/
def Covers (mode : CompositeMode) (capacity n : ℤ) : Prop := mode = .parent → 0 < capacity → n ≤ capacity

/-- No split room is smaller than its parts. -/
def Sound (table : Table ResourceRow) : Prop :=
  ∀ q ∈ table.rows, Covers q.compositeMode q.capacity (activeChildrenCapacitySum table.rows q.tenantId q.id)

/-! ### What a request asks for -/

structure Plan where
  old : Option ResourceRow
  row : ResourceRow
  /-- What a new part gets that gives no capacity. -/
  inherited : ℤ
  subs : Option (List SubResourceWrite)

def listedParts : Option (List SubResourceWrite) → Option (List SubResourceWrite)
  | some (sub :: subs) => some (sub :: subs)
  | _ => none

def plan (call : Call) (table : Table ResourceRow) : Except HttpError Plan :=
  match call.request with
  | .create tenantId dto => do
    let fields := fieldsOf (← normalized dto)
    let row ← assign fields { id := call.rt.newId 0, tenantId }
    pure ⟨none, row, row.capacity, listedParts dto.subResources⟩
  | .update tenantId id dto => do
    let fields := fieldsOf (← normalized dto)
    let r ← found ((table.find? id).filter fun r => r.tenantId == tenantId) (.notFound "resource not found")
    let row ← assign fields r
    pure ⟨some r, row, (held fields.capacity (some row.capacity)).getD 1, dto.subResources⟩

/-- The rows with `v` among them. -/
def put (v : ResourceRow) (rows : List ResourceRow) : List ResourceRow :=
  if rows.any fun r => r.id == v.id then rows.map fun r => if r.id = v.id then v else r else rows ++ [v]

/-- The row is an active part of `q`. -/
def IsPart (q c : ResourceRow) : Prop := isUnder q.tenantId q.id c = true ∧ c.isActive = true

section Listed

variable (rt : Runtime) (kids : List ResourceRow) (subs : List SubResourceWrite)

def target (sub : SubResourceWrite) : Option Uuid :=
  if trim sub.name = "" then none else (byName rt kids (trim sub.name)).map fun c => c.id

def isNew (sub : SubResourceWrite) : Bool := trim sub.name != "" && (byName rt kids (trim sub.name)).isNone

def isListed (id : Uuid) : Bool := subs.any fun sub => decide (target rt kids sub = some id)

/-- The capacity of a part that had `n`: the last one that is given for it, if there is one. -/
def afterSubs (id : Uuid) (n : ℤ) : ℤ :=
  subs.foldl (fun n sub => if target rt kids sub = some id then sub.capacity.getD n else n) n

def listedSum (inherited : ℤ) : ℤ :=
  ((kids.filter fun c => isListed rt kids subs c.id).map fun c => afterSubs rt kids subs c.id c.capacity).sum +
    ((subs.filter (isNew rt kids)).map fun sub => sub.capacity.getD inherited).sum

end Listed

def kidsOf (rt : Runtime) (rows : List ResourceRow) (p : Plan) : List ResourceRow :=
  rt.order ((put p.row rows).filter (isUnder p.row.tenantId p.row.id))

/-- The row of the plan is a part of `q` or was one, or `q` is listed. -/
def Affects (rt : Runtime) (rows : List ResourceRow) (p : Plan) (q : ResourceRow) : Prop :=
  IsPart q p.row ∨ (∃ r, p.old = some r ∧ IsPart q r) ∨ isListed rt (kidsOf rt rows p) (p.subs.getD []) q.id = true

/-- There is room for what a request asks for. -/
structure HasRoom (rt : Runtime) (rows : List ResourceRow) (p : Plan) : Prop where
  around : ∀ q ∈ rows, q.id ≠ p.row.id → Affects rt rows p q →
    Covers q.compositeMode (afterSubs rt (kidsOf rt rows p) (p.subs.getD []) q.id q.capacity)
      (activeChildrenCapacitySum (put p.row rows) q.tenantId q.id)
  parts : ∀ subs, p.subs = some subs →
    Covers p.row.compositeMode (afterSubs rt (kidsOf rt rows p) subs p.row.id p.row.capacity)
      (listedSum rt (kidsOf rt rows p) subs p.inherited)
  itself : p.subs = none → p.old = none ∨ IsPart p.row p.row ∨ (∃ r, p.old = some r ∧ IsPart r r) →
    Covers p.row.compositeMode p.row.capacity
      (activeChildrenCapacitySum (put p.row rows) p.row.tenantId p.row.id)

/-- A request that is accepted finds room for what it asks for. -/
def Meets (table : Table ResourceRow) (call : Call) : Prop :=
  ∀ table', call.exec table = .ok table' → ∀ p, plan call table = .ok p → HasRoom call.rt table.rows p

/-! ### Sums -/

section Sums

def share (tenantId id : Uuid) (c : ResourceRow) : ℤ := if isUnder tenantId id c && c.isActive then c.capacity else 0

theorem sum_filter_map {α : Type} (p : α → Bool) (f : α → ℤ) (l : List α) :
    ((l.filter p).map f).sum = (l.map fun a => if p a then f a else 0).sum := by
  rw [List.sum_map_ite]
  simp

theorem activeSum_eq (rows : List ResourceRow) (tenantId id : Uuid) :
    activeChildrenCapacitySum rows tenantId id = (rows.map (share tenantId id)).sum :=
  sum_filter_map _ _ rows

theorem activeSum_append (rows rows' : List ResourceRow) (tenantId id : Uuid) :
    activeChildrenCapacitySum (rows ++ rows') tenantId id =
      activeChildrenCapacitySum rows tenantId id + activeChildrenCapacitySum rows' tenantId id := by
  rw [activeSum_eq, activeSum_eq, activeSum_eq, List.map_append, List.sum_append]

theorem activeSum_map {rows : List ResourceRow} {f : ResourceRow → ResourceRow} {tenantId id : Uuid}
    (h : ∀ r ∈ rows, share tenantId id (f r) = share tenantId id r) :
    activeChildrenCapacitySum (rows.map f) tenantId id = activeChildrenCapacitySum rows tenantId id := by
  rw [activeSum_eq, activeSum_eq, List.map_map]
  exact congrArg List.sum (List.map_congr_left h)

theorem share_of_not {tenantId id : Uuid} {c : ResourceRow} (h : ¬ (isUnder tenantId id c = true ∧ c.isActive = true)) :
    share tenantId id c = 0 := by
  rw [share, if_neg]
  rwa [Bool.and_eq_true]

end Sums

/-! ### The parts of a request, one after another -/

section Loop

variable {rt : Runtime} {tenantId : Uuid} {parent : ParentObject} {t : Table ResourceRow}
  {f : ResourceRow → ResourceRow} {news : List ResourceRow} {st st' : Sync} {subs : List SubResourceWrite}
  {sub : SubResourceWrite}

/-- What the loop over the parts leaves as it is. -/
structure Same (r r' : ResourceRow) : Prop where
  id : r'.id = r.id
  tenantId : r'.tenantId = r.tenantId
  name : r'.name = r.name
  parentResourceId : r'.parentResourceId = r.parentResourceId
  compositeMode : r'.compositeMode = r.compositeMode

theorem Same.refl (r : ResourceRow) : Same r r := ⟨rfl, rfl, rfl, rfl, rfl⟩

theorem Same.trans {a b c : ResourceRow} (h : Same a b) (h' : Same b c) : Same a c :=
  ⟨h'.id.trans h.id, h'.tenantId.trans h.tenantId, h'.name.trans h.name, h'.parentResourceId.trans h.parentResourceId,
    h'.compositeMode.trans h.compositeMode⟩

theorem same_patch (c : ResourceRow) : Same c (patch parent sub c) := ⟨rfl, rfl, rfl, rfl, rfl⟩

def kidsIn (rt : Runtime) (tenantId id : Uuid) (t : Table ResourceRow) : List ResourceRow :=
  rt.order (t.rows.filter (isUnder tenantId id))

theorem mem_kidsIn {id : Uuid} {r : ResourceRow} :
    r ∈ kidsIn rt tenantId id t ↔ r ∈ t.rows ∧ isUnder tenantId id r = true := by
  rw [kidsIn, (rt.order_perm _).mem_iff, List.mem_filter]

/-- The rows that were under the room are by now what `f` says, and `news` have come to them. -/
structure Progress (rt : Runtime) (tenantId : Uuid) (parent : ParentObject) (t : Table ResourceRow)
    (f : ResourceRow → ResourceRow) (news : List ResourceRow) (st : Sync) : Prop where
  rows : st.table.rows = (t.rows.map fun r => if isUnder tenantId parent.id r then f r else r) ++ news
  existing : st.existing = (kidsIn rt tenantId parent.id t).map f
  same : ∀ r, Same r (f r)
  news_child : ∀ n ∈ news, n.compositeMode = .child ∧ isUnder tenantId parent.id n = true ∧ n.isActive = true

theorem Progress.id_eq (hp : Progress rt tenantId parent t f news st) (r : ResourceRow) :
    (if isUnder tenantId parent.id r then f r else r).id = r.id := by
  split
  · exact (hp.same r).id
  · rfl

theorem Progress.news_id (hp : Progress rt tenantId parent t f news st) {n r : ResourceRow} (hn : n ∈ news)
    (hr : r ∈ t.rows) : n.id ≠ r.id := by
  intro he
  have hnodup := st.table.nodup
  rw [hp.rows, List.map_append, List.nodup_append] at hnodup
  refine hnodup.2.2 r.id ?_ n.id (List.mem_map_of_mem hn) he.symm
  rw [List.map_map]
  exact List.mem_map.2 ⟨r, hr, hp.id_eq r⟩

theorem Progress.start : Progress rt tenantId parent t id [] ⟨t, kidsIn rt tenantId parent.id t, []⟩ :=
  ⟨by simp, by simp, Same.refl, by simp⟩

/-- What the items `subs` have done. -/
structure Advance (rt : Runtime) (kids : List ResourceRow) (t : Table ResourceRow) (inherited : ℤ)
    (subs : List SubResourceWrite) (f f' : ResourceRow → ResourceRow) (news : List ResourceRow)
    (keep keep' : List Uuid) : Prop where
  capacity : ∀ r, (f' r).capacity = afterSubs rt kids subs r.id (f r).capacity
  active : ∀ r, (f' r).isActive = ((f r).isActive || isListed rt kids subs r.id)
  created : news.map (fun n => n.capacity) = (subs.filter (isNew rt kids)).map fun s => s.capacity.getD inherited
  kept : ∀ r ∈ t.rows, r.id ∈ keep' ↔ r.id ∈ keep ∨ isListed rt kids subs r.id = true

def patches (rt : Runtime) (kids : List ResourceRow) (parent : ParentObject) (subs : List SubResourceWrite) (id : Uuid)
    (c : ResourceRow) : ResourceRow :=
  subs.foldl (fun c sub => if target rt kids sub = some id then patch parent sub c else c) c

/-- What the items `subs` have done, with all the fields of the rows and what was checked of them. -/
structure Done (rt : Runtime) (kids : List ResourceRow) (t : Table ResourceRow) (tenantId : Uuid)
    (parent : ParentObject) (subs : List SubResourceWrite) (f f' : ResourceRow → ResourceRow)
    (news : List ResourceRow) (keep keep' : List Uuid) : Prop where
  patched : ∀ r, f' r = patches rt kids parent subs r.id (f r)
  created : List.Forall₂ (fun sub n => n = newChild tenantId parent n.id sub) (subs.filter (isNew rt kids)) news
  kept : ∀ r ∈ t.rows, r.id ∈ keep' ↔ r.id ∈ keep ∨ isListed rt kids subs r.id = true
  checked : ∀ r ∈ kids, isListed rt kids subs r.id = true → checkRow (f' r) = .ok ()
  checked_new : ∀ n ∈ news, checkRow n = .ok ()
  fits : ∀ sub ∈ subs, trim sub.name ≠ "" → ∀ n, sub.capacity = some n → fitsInteger n = true

section Items

variable {kids : List ResourceRow} {f' f'' : ResourceRow → ResourceRow} {subs' : List SubResourceWrite}
  {news' : List ResourceRow} {keep keep' keep'' : List Uuid}

theorem capacity_patches (id : Uuid) (c : ResourceRow) :
    (patches rt kids parent subs id c).capacity = afterSubs rt kids subs id c.capacity := by
  unfold patches afterSubs
  induction subs generalizing c with
  | nil => rfl
  | cons sub subs ih =>
    rw [List.foldl_cons, List.foldl_cons, ih]
    refine congrArg (fun n => List.foldl _ n subs) ?_
    split <;> rfl

theorem isActive_patches (id : Uuid) (c : ResourceRow) :
    (patches rt kids parent subs id c).isActive = (c.isActive || isListed rt kids subs id) := by
  unfold patches isListed
  induction subs generalizing c with
  | nil => simp
  | cons sub subs ih =>
    rw [List.foldl_cons, ih, List.any_cons]
    by_cases h : target rt kids sub = some id
    · simp [h, patch]
    · simp [h]

theorem patches_of_not {id : Uuid} (h : isListed rt kids subs id = false) (c : ResourceRow) :
    patches rt kids parent subs id c = c := by
  unfold patches
  unfold isListed at h
  induction subs generalizing c with
  | nil => rfl
  | cons sub subs ih =>
    rw [List.any_cons, Bool.or_eq_false_iff] at h
    rw [List.foldl_cons, if_neg (by simpa using h.1), ih h.2]

theorem Done.nil : Done rt kids t tenantId parent [] f f [] keep keep where
  patched r := rfl
  created := .nil
  kept r hr := by simp [isListed]
  checked r hr h := by simp [isListed] at h
  checked_new := by simp
  fits := by simp

theorem Done.append (h : Done rt kids t tenantId parent subs f f' news keep keep')
    (h' : Done rt kids t tenantId parent subs' f' f'' news' keep' keep'') :
    Done rt kids t tenantId parent (subs ++ subs') f f'' (news ++ news') keep keep'' where
  patched r := by rw [h'.patched, h.patched, patches, patches, patches, List.foldl_append]
  created := by
    rw [List.filter_append]
    exact List.rel_append h.created h'.created
  kept r hr := by
    rw [h'.kept r hr, h.kept r hr, or_assoc, isListed, isListed, isListed, List.any_append, Bool.or_eq_true]
  checked r hr hlisted := by
    cases hlater : isListed rt kids subs' r.id with
    | true => exact h'.checked r hr hlater
    | false =>
      rw [h'.patched, patches_of_not hlater]
      refine h.checked r hr ?_
      rw [isListed, List.any_append, Bool.or_eq_true] at hlisted
      exact hlisted.resolve_right fun hl => Bool.false_ne_true (hlater.symm.trans hl)
  checked_new n hn := (List.mem_append.1 hn).elim (h.checked_new n) (h'.checked_new n)
  fits sub hsub := (List.mem_append.1 hsub).elim (h.fits sub) (h'.fits sub)

theorem Done.advance (h : Done rt kids t tenantId parent subs f f' news keep keep') :
    Advance rt kids t (parent.capacity.getD 1) subs f f' news keep keep' where
  capacity r := by rw [h.patched, capacity_patches]
  active r := by rw [h.patched, isActive_patches]
  created := by
    have hcreated := h.created
    clear h
    generalize subs.filter (isNew rt kids) = items at hcreated
    induction hcreated with
    | nil => rfl
    | cons hn _ ih =>
      rw [List.map_cons, List.map_cons, ih, hn]
      rfl
  kept := h.kept

end Items

theorem byName_map {rows : List ResourceRow} {name : String} (h : ∀ r, Same r (f r)) :
    byName rt (rows.map f) name = (byName rt rows name).map f := by
  rw [byName, byName, ← List.map_reverse, List.find?_map]
  congr 2
  funext r
  rw [Function.comp_apply, (h r).name]

theorem mem_of_byName {rows : List ResourceRow} {name : String} {m : ResourceRow} (h : byName rt rows name = some m) :
    m ∈ rows := List.mem_reverse.1 (List.mem_of_find?_eq_some h)

/-- The part with the id of `m`, patched. -/
def patchAt (parent : ParentObject) (sub : SubResourceWrite) (id : Uuid) (f : ResourceRow → ResourceRow)
    (r : ResourceRow) : ResourceRow :=
  if r.id = id then patch parent sub (f r) else f r

theorem same_patchAt {id : Uuid} (h : ∀ r, Same r (f r)) (r : ResourceRow) : Same r (patchAt parent sub id f r) := by
  unfold patchAt
  split
  · exact (h r).trans (same_patch _)
  · exact h r

/-- An item that stands for the part `m`. -/
theorem Progress.patched {m : ResourceRow} (hp : Progress rt tenantId parent t f news st)
    (hm : m ∈ kidsIn rt tenantId parent.id t) {keep : List Uuid} :
    Progress rt tenantId parent t (patchAt parent sub m.id f) news
      ⟨st.table.save (patch parent sub (f m)),
        st.existing.map fun c => if c.id = (f m).id then patch parent sub (f m) else c, keep⟩ where
  rows := by
    obtain ⟨hmem, hunder⟩ := mem_kidsIn.1 hm
    have hid : (patch parent sub (f m)).id = m.id := (hp.same m).id
    rw [Table.rows_save, hp.rows, List.map_append, List.map_map]
    congr 1
    · refine List.map_congr_left fun r hr => ?_
      rw [Function.comp_apply, key_resourceRow, key_resourceRow, hp.id_eq r, hid]
      by_cases he : r.id = m.id
      · obtain rfl := Table.eq_of_key hr hmem he
        rw [if_pos rfl, if_pos hunder, patchAt, if_pos rfl]
      · rw [if_neg he, patchAt, if_neg he]
    · conv_rhs => rw [← List.map_id news]
      refine List.map_congr_left fun n hn => ?_
      rw [key_resourceRow, key_resourceRow, hid, if_neg (hp.news_id hn hmem)]
      rfl
  existing := by
    rw [hp.existing, List.map_map]
    refine List.map_congr_left fun r hr => ?_
    rw [Function.comp_apply, (hp.same r).id, (hp.same m).id, patchAt]
    by_cases he : r.id = m.id
    · obtain rfl := Table.eq_of_key (mem_kidsIn.1 hr).1 (mem_kidsIn.1 hm).1 he
      rw [if_pos rfl]
    · rw [if_neg he, if_neg he]
  same := same_patchAt hp.same
  news_child := hp.news_child

/-- An item that stands for a new part. -/
theorem Progress.inserted {child : ResourceRow} {table : Table ResourceRow}
    (hp : Progress rt tenantId parent t f news st) (h : st.table.insert? child = some table)
    (hchild : child.compositeMode = .child ∧ isUnder tenantId parent.id child = true ∧ child.isActive = true)
    {keep : List Uuid} :
    Progress rt tenantId parent t f (news ++ [child]) { st with table, keepIds := keep } where
  rows := by rw [(Table.insert?_eq_some_iff.1 h).2, hp.rows, List.append_assoc]
  existing := hp.existing
  same := hp.same
  news_child := by
    intro n hn
    rcases List.mem_append.1 hn with hn | hn
    · exact hp.news_child n hn
    · rw [List.mem_singleton.1 hn]
      exact hchild

theorem saveRow_ok {table table' : Table ResourceRow} {r : ResourceRow} (h : saveRow table r = .ok table') :
    table' = table.save r ∧ checkRow r = .ok () := by
  obtain ⟨_, hcheck, h⟩ := bind_eq_ok.1 h
  exact ⟨(pure_eq_ok.1 h).symm, hcheck⟩

theorem insertRow_ok {table table' : Table ResourceRow} {r : ResourceRow} (h : insertRow table r = .ok table') :
    table.insert? r = some table' ∧ checkRow r = .ok () := by
  obtain ⟨_, hcheck, h⟩ := bind_eq_ok.1 h
  exact ⟨found_eq_ok.1 h, hcheck⟩

theorem checkRow_ok_iff {r : ResourceRow} :
    checkRow r = .ok () ↔ fitsInteger r.capacity = true ∧ fitsInteger r.sharedCapacity = true := by
  rw [checkRow, require_eq_ok, Bool.and_eq_true]

/-- One item of the list. -/
theorem syncSub_spec {i : ℕ} (hp : Progress rt tenantId parent t f news st)
    (h : syncSub rt tenantId parent i sub st = .ok st') :
    ∃ f' news', Progress rt tenantId parent t f' (news ++ news') st' ∧
      Done rt (kidsIn rt tenantId parent.id t) t tenantId parent [sub] f f' news' st.keepIds st'.keepIds := by
  unfold syncSub at h
  by_cases hname : trim sub.name = ""
  · rw [if_pos hname] at h
    obtain rfl := Except.ok.inj h
    have htarget : target rt (kidsIn rt tenantId parent.id t) sub = none := by rw [target, if_pos hname]
    exact ⟨f, [], by rwa [List.append_nil], by simp [patches, htarget], by simp [isNew, hname],
      by simp [isListed, htarget], by simp [isListed, htarget], by simp, by simp [hname]⟩
  · have hfound : byName rt st.existing (trim sub.name) =
        (byName rt (kidsIn rt tenantId parent.id t) (trim sub.name)).map f := by rw [hp.existing, byName_map hp.same]
    rw [if_neg hname, hfound] at h
    cases hby : byName rt (kidsIn rt tenantId parent.id t) (trim sub.name) with
    | some m =>
      rw [hby] at h
      obtain ⟨table, htable, h⟩ := bind_eq_ok.1 h
      obtain ⟨rfl, hcheck⟩ := saveRow_ok htable
      obtain rfl := pure_eq_ok.1 h
      have htarget : target rt (kidsIn rt tenantId parent.id t) sub = some m.id := by
        rw [target, if_neg hname, hby]
        rfl
      have hm := mem_of_byName hby
      refine ⟨patchAt parent sub m.id f, [], ?_, fun r => ?_, ?_, fun r hr => ?_, fun r hr hlisted => ?_, by simp, ?_⟩
      · rw [List.append_nil]
        exact hp.patched hm
      · by_cases he : r.id = m.id
        · simp [patches, htarget, patchAt, he]
        · simp [patches, htarget, patchAt, he, Ne.symm he]
      · simp [isNew, hby]
      · simp [isListed, htarget, (hp.same m).id, eq_comm]
      · have he : r.id = m.id := by
          have he : m.id = r.id := by simpa [isListed, htarget] using hlisted
          exact he.symm
        obtain rfl := Table.eq_of_key (mem_kidsIn.1 hr).1 (mem_kidsIn.1 hm).1 he
        rw [patchAt, if_pos rfl]
        exact hcheck
      · rw [checkRow_ok_iff] at hcheck
        rintro s hs - n hn
        obtain rfl := List.mem_singleton.1 hs
        have hcapacity := hcheck.1
        rwa [patch, hn] at hcapacity
    | none =>
      rw [hby] at h
      obtain ⟨table, htable, h⟩ := bind_eq_ok.1 h
      obtain ⟨hinsert, hcheck⟩ := insertRow_ok htable
      obtain rfl := pure_eq_ok.1 h
      have htarget : target rt (kidsIn rt tenantId parent.id t) sub = none := by
        rw [target, if_neg hname, hby]
        rfl
      refine ⟨f, [newChild tenantId parent (rt.newId i) sub], ?_, fun r => ?_, ?_, fun r hr => ?_, ?_, ?_, ?_⟩
      · exact hp.inserted hinsert ⟨rfl, by simp [newChild, isUnder], rfl⟩
      · simp [patches, htarget]
      · have hnew : isNew rt (kidsIn rt tenantId parent.id t) sub = true := by simp [isNew, hby, hname]
        rw [List.filter_singleton, hnew]
        exact .cons rfl .nil
      · have hne : r.id ≠ rt.newId i := by
          intro he
          have hnone := (Table.insert?_eq_some_iff.1 hinsert).1
          rw [Table.find?_eq_none_iff, hp.rows] at hnone
          exact hnone _ (List.mem_append_left _ (List.mem_map_of_mem hr)) ((hp.id_eq r).trans he)
        simp [isListed, htarget, hne]
      · simp [isListed, htarget]
      · intro n hn
        rw [List.mem_singleton.1 hn]
        exact hcheck
      · rw [checkRow_ok_iff] at hcheck
        rintro s hs - n hn
        obtain rfl := List.mem_singleton.1 hs
        have hcapacity := hcheck.1
        rwa [newChild, hn] at hcapacity

theorem syncSubs_spec {i : ℕ} (hp : Progress rt tenantId parent t f news st)
    (h : syncSubs rt tenantId parent i subs st = .ok st') :
    ∃ f' news', Progress rt tenantId parent t f' (news ++ news') st' ∧
      Done rt (kidsIn rt tenantId parent.id t) t tenantId parent subs f f' news' st.keepIds st'.keepIds := by
  induction subs generalizing i st f news with
  | nil =>
    obtain rfl := Except.ok.inj h
    exact ⟨f, [], by rwa [List.append_nil], .nil⟩
  | cons sub subs ih =>
    obtain ⟨st₁, h₁, h⟩ := bind_eq_ok.1 h
    obtain ⟨f₁, news₁, hp₁, hd₁⟩ := syncSub_spec hp h₁
    obtain ⟨f₂, news₂, hp₂, hd₂⟩ := ih hp₁ h
    refine ⟨f₂, news₁ ++ news₂, ?_, hd₁.append hd₂⟩
    rwa [← List.append_assoc]

/-- The rows with the ids of `removed` are deactivated. -/
theorem rows_deactivate {table : Table ResourceRow} {removed : List ResourceRow}
    (hmem : ∀ c ∈ removed, c ∈ table.rows) (hnodup : (removed.map fun c => c.id).Nodup) :
    (deactivate table removed).rows =
      table.rows.map fun r => if removed.any (fun c => c.id == r.id) then { r with isActive := false } else r := by
  induction removed generalizing table with
  | nil => simp [deactivate]
  | cons c removed ih =>
    rw [List.map_cons, List.nodup_cons] at hnodup
    have hne : ∀ c' ∈ removed, c'.id ≠ c.id := fun c' hc' he => hnodup.1 (List.mem_map.2 ⟨c', hc', he⟩)
    have hrest := @ih (table.save { c with isActive := false }) (fun c' hc' => by
      rw [Table.mem_save]
      exact .inr ⟨hmem c' (.tail _ hc'), hne c' hc'⟩) hnodup.2
    have hstep : deactivate table (c :: removed) = deactivate (table.save { c with isActive := false }) removed := rfl
    rw [hstep, hrest, Table.rows_save, List.map_map]
    refine List.map_congr_left fun r hr => ?_
    rw [Function.comp_apply, List.any_cons]
    by_cases he : r.id = c.id
    · obtain rfl := Table.eq_of_key hr (hmem c List.mem_cons_self) he
      simp
    · simp [he, Ne.symm he]

/-- What `syncSubResources` makes of the rows `t`: every row becomes what `f` says, and `news` come to them. -/
structure Synced (kids : List ResourceRow) (rt : Runtime) (tenantId : Uuid) (parent : ParentObject)
    (subs : List SubResourceWrite) (t t' : Table ResourceRow) (f : ResourceRow → ResourceRow)
    (news : List ResourceRow) : Prop where
  rows : t'.rows = t.rows.map f ++ news
  other : ∀ r ∈ t.rows, isUnder tenantId parent.id r = false → f r = r
  same : ∀ r ∈ t.rows, Same r (f r)
  capacity : ∀ r ∈ t.rows, isUnder tenantId parent.id r = true →
    (f r).capacity = afterSubs rt kids subs r.id r.capacity
  active : ∀ r ∈ t.rows, isUnder tenantId parent.id r = true → (f r).isActive = isListed rt kids subs r.id
  news_child : ∀ n ∈ news, n.compositeMode = .child ∧ isUnder tenantId parent.id n = true ∧ n.isActive = true
  created : news.map (fun n => n.capacity) =
    (subs.filter (isNew rt kids)).map fun s => s.capacity.getD (parent.capacity.getD 1)

def removedOf (st : Sync) : List ResourceRow :=
  st.existing.filter fun c => !st.keepIds.contains c.id && c.isActive

section Whole

variable (hp : Progress rt tenantId parent t f news st)
include hp

theorem Progress.mem_removedOf {c : ResourceRow}
    (hc : c ∈ removedOf st) :
    ∃ k ∈ t.rows, isUnder tenantId parent.id k = true ∧ c = f k ∧ k.id ∉ st.keepIds ∧ (f k).isActive = true := by
  obtain ⟨hmem, htest⟩ := List.mem_filter.1 hc
  rw [hp.existing] at hmem
  obtain ⟨k, hk, rfl⟩ := List.mem_map.1 hmem
  obtain ⟨hk, hunder⟩ := mem_kidsIn.1 hk
  rw [Bool.and_eq_true, Bool.not_eq_true', (hp.same k).id] at htest
  exact ⟨k, hk, hunder, rfl, by simpa using htest.1, htest.2⟩

theorem Progress.rows_removed :
    (deactivate st.table (removedOf st)).rows =
      st.table.rows.map fun r =>
        if (removedOf st).any (fun c => c.id == r.id) then { r with isActive := false } else r := by
  refine rows_deactivate (fun c hc => ?_) ?_
  · obtain ⟨k, hk, hunder, rfl, -⟩ := hp.mem_removedOf hc
    rw [hp.rows]
    exact List.mem_append_left _ (List.mem_map.2 ⟨k, hk, if_pos hunder⟩)
  · have hkids : ((kidsIn rt tenantId parent.id t).map fun c => c.id).Nodup :=
      ((rt.order_perm _).map _).nodup_iff.2 (t.nodup.sublist (List.filter_sublist.map _))
    have hexisting : st.existing.map (fun c => c.id) = (kidsIn rt tenantId parent.id t).map fun c => c.id := by
      rw [hp.existing, List.map_map]
      exact List.map_congr_left fun r _ => (hp.same r).id
    rw [← hexisting] at hkids
    exact hkids.sublist (List.filter_sublist.map _)

theorem Progress.any_removedOf {r : ResourceRow} (hr : r ∈ t.rows) :
    (removedOf st).any (fun c => c.id == r.id) = true ↔
      isUnder tenantId parent.id r = true ∧ r.id ∉ st.keepIds ∧ (f r).isActive = true := by
  rw [List.any_eq_true]
  constructor
  · rintro ⟨c, hc, he⟩
    obtain ⟨k, hk, hunder, rfl, hkeep, hactive⟩ := hp.mem_removedOf hc
    rw [beq_iff_eq, (hp.same k).id] at he
    obtain rfl := Table.eq_of_key hk hr he
    exact ⟨hunder, hkeep, hactive⟩
  · rintro ⟨hunder, hkeep, hactive⟩
    refine ⟨f r, List.mem_filter.2 ⟨?_, ?_⟩, by rw [beq_iff_eq, (hp.same r).id]⟩
    · rw [hp.existing]
      exact List.mem_map_of_mem (mem_kidsIn.2 ⟨hr, hunder⟩)
    · simp [(hp.same r).id, hkeep, hactive]

def finalRow (tenantId : Uuid) (parent : ParentObject) (f : ResourceRow → ResourceRow) (st : Sync) (r : ResourceRow) :
    ResourceRow :=
  if (removedOf st).any (fun c => c.id == r.id) then { f r with isActive := false }
  else if isUnder tenantId parent.id r then f r else r

theorem Progress.rows_final :
    (deactivate st.table (removedOf st)).rows = t.rows.map (finalRow tenantId parent f st) ++ news := by
  rw [hp.rows_removed, hp.rows, List.map_append, List.map_map]
  congr 1
  · refine List.map_congr_left fun r hr => ?_
    have hid : ((removedOf st).any fun c => c.id == (if isUnder tenantId parent.id r then f r else r).id) =
        (removedOf st).any fun c => c.id == r.id := by rw [hp.id_eq r]
    rw [Function.comp_apply, hid, finalRow]
    split
    · rename_i hremoved
      rw [if_pos ((hp.any_removedOf hr).1 hremoved).1]
    · rfl
  · conv_rhs => rw [← List.map_id news]
    refine List.map_congr_left fun n hn => if_neg ?_
    rw [List.any_eq_true]
    rintro ⟨c, hc, he⟩
    obtain ⟨k, hk, -, rfl, -⟩ := hp.mem_removedOf hc
    rw [beq_iff_eq, (hp.same k).id] at he
    exact hp.news_id hn hk he.symm

theorem Progress.same_final (r : ResourceRow) :
    Same r (finalRow tenantId parent f st r) := by
  have hsame := hp.same r
  unfold finalRow
  split
  · exact ⟨hsame.id, hsame.tenantId, hsame.name, hsame.parentResourceId, hsame.compositeMode⟩
  · split
    · exact hsame
    · exact .refl r

/-- In the end the parts that are listed are active, and no other. -/
theorem Progress.active_final {kids : List ResourceRow} {inherited : ℤ}
    (ha : Advance rt kids t inherited subs id f news [] st.keepIds) {r : ResourceRow} (hr : r ∈ t.rows)
    (hunder : isUnder tenantId parent.id r = true) :
    (finalRow tenantId parent f st r).isActive = isListed rt kids subs r.id := by
  have hactive := ha.active r
  have hkept := ha.kept r hr
  unfold finalRow
  rw [if_pos hunder]
  split
  · rename_i hremoved
    have hnot := mt hkept.2 ((hp.any_removedOf hr).1 hremoved).2.1
    simpa using hnot
  · rename_i hremoved
    cases hlisted : isListed rt kids subs r.id with
    | true => rw [hactive, hlisted, Bool.or_true]
    | false =>
      have hnot : r.id ∉ st.keepIds := mt hkept.1 (by simp [hlisted])
      rw [hp.any_removedOf hr] at hremoved
      simpa [hunder, hnot] using hremoved

end Whole

theorem syncSubResources_ok {bookings : Table Booking} {t' : Table ResourceRow}
    (h : syncSubResources rt bookings tenantId parent subs t = .ok t') :
    ∃ f news, Synced (kidsIn rt tenantId parent.id t) rt tenantId parent subs t t' f news := by
  obtain ⟨st, hst, h⟩ := bind_eq_ok.1 h
  obtain ⟨-, -, h⟩ := bind_eq_ok.1 h
  obtain rfl := pure_eq_ok.1 h
  obtain ⟨f, news, hp, hd⟩ := syncSubs_spec Progress.start hst
  have ha := hd.advance
  rw [List.nil_append] at hp
  refine ⟨finalRow tenantId parent f st, news, hp.rows_final, fun r hr hunder => ?_, fun r _ => hp.same_final r,
    fun r hr hunder => ?_, fun r hr hunder => hp.active_final ha hr hunder, hp.news_child, ha.created⟩
  · rw [finalRow, if_neg, if_neg (by simp [hunder])]
    intro hremoved
    rw [((hp.any_removedOf hr).1 hremoved).1] at hunder
    cases hunder
  · unfold finalRow
    rw [if_pos hunder]
    split
    · exact ha.capacity r
    · exact ha.capacity r

end Loop

/-! ### One request -/

section Step

variable {rt : Runtime} {tenantId : Uuid} {parent : ParentObject} {subs : List SubResourceWrite}
  {kids : List ResourceRow} {t t' : Table ResourceRow} {f : ResourceRow → ResourceRow} {news : List ResourceRow}
  {v : ResourceRow}

theorem parent_of_isUnder {id : Uuid} {c : ResourceRow} (h : isUnder tenantId id c = true) :
    c.tenantId = tenantId ∧ c.parentResourceId = some id := by
  simpa [isUnder] using h

theorem share_of_isUnder {id tid id' : Uuid} {c : ResourceRow} (h : isUnder tenantId id c = true) (hne : id' ≠ id) :
    share tid id' c = 0 := by
  refine share_of_not fun hc => hne ?_
  exact Option.some.inj ((parent_of_isUnder hc.1).2.symm.trans (parent_of_isUnder h).2)

/-- The parts of the other rooms hold what they held. -/
theorem Synced.sum_other (h : Synced kids rt tenantId parent subs t t' f news) {tid id : Uuid} (hne : id ≠ parent.id) :
    activeChildrenCapacitySum t'.rows tid id = activeChildrenCapacitySum t.rows tid id := by
  have hnews : activeChildrenCapacitySum news tid id = 0 := by
    rw [activeSum_eq, List.map_congr_left fun n hn => share_of_isUnder (h.news_child n hn).2.1 hne]
    simp
  rw [h.rows, activeSum_append, hnews, Int.add_zero]
  refine activeSum_map fun r hr => ?_
  cases hunder : isUnder tenantId parent.id r with
  | true =>
    have hunder' : isUnder tenantId parent.id (f r) = true := by
      rw [isUnder, (h.same r hr).tenantId, (h.same r hr).parentResourceId]
      exact hunder
    rw [share_of_isUnder hunder hne, share_of_isUnder hunder' hne]
  | false => rw [h.other r hr hunder]

/-- The parts of the room hold what the list says. -/
theorem Synced.sum_parent (h : Synced (kidsIn rt tenantId parent.id t) rt tenantId parent subs t t' f news) :
    activeChildrenCapacitySum t'.rows tenantId parent.id =
      listedSum rt (kidsIn rt tenantId parent.id t) subs (parent.capacity.getD 1) := by
  have hnews : activeChildrenCapacitySum news tenantId parent.id = (news.map fun n => n.capacity).sum := by
    rw [activeChildrenCapacitySum, List.filter_eq_self.2]
    intro n hn
    rw [(h.news_child n hn).2.1, (h.news_child n hn).2.2]
    rfl
  rw [h.rows, activeSum_append, hnews, h.created, listedSum]
  congr 1
  have hperm := (((rt.order_perm (t.rows.filter (isUnder tenantId parent.id))).filter fun c =>
    isListed rt (kidsIn rt tenantId parent.id t) subs c.id).map fun c =>
      afterSubs rt (kidsIn rt tenantId parent.id t) subs c.id c.capacity).sum_eq
  refine Eq.trans ?_ hperm.symm
  rw [List.filter_filter, sum_filter_map, activeSum_eq, List.map_map]
  refine congrArg List.sum (List.map_congr_left fun r hr => ?_)
  have hunder' : isUnder tenantId parent.id (f r) = isUnder tenantId parent.id r := by
    rw [isUnder, (h.same r hr).tenantId, (h.same r hr).parentResourceId]
    rfl
  rw [Function.comp_apply, share, hunder']
  cases hunder : isUnder tenantId parent.id r with
  | true => rw [h.active r hr hunder, h.capacity r hr hunder, Bool.true_and, Bool.and_true]
  | false => rw [Bool.false_and, Bool.and_false, if_neg Bool.false_ne_true, if_neg Bool.false_ne_true]

/-! #### The row that is written -/

theorem mem_put {rows : List ResourceRow} {q : ResourceRow} :
    q ∈ put v rows ↔ q = v ∨ (q ∈ rows ∧ q.id ≠ v.id) := by
  unfold put
  split
  · rename_i hany
    rw [List.any_eq_true] at hany
    obtain ⟨r, hr, hid⟩ := hany
    rw [beq_iff_eq] at hid
    rw [List.mem_map]
    constructor
    · rintro ⟨x, hx, rfl⟩
      by_cases he : x.id = v.id
      · exact .inl (if_pos he)
      · rw [if_neg he]
        exact .inr ⟨hx, he⟩
    · rintro (rfl | ⟨hq, hne⟩)
      · exact ⟨r, hr, if_pos hid⟩
      · exact ⟨q, hq, if_neg hne⟩
  · rename_i hany
    have hne : ∀ r ∈ rows, r.id ≠ v.id := fun r hr he => hany (List.any_eq_true.2 ⟨r, hr, by simpa using he⟩)
    rw [List.mem_append, List.mem_singleton]
    constructor
    · rintro (hq | rfl)
      · exact .inr ⟨hq, hne q hq⟩
      · exact .inl rfl
    · rintro (rfl | ⟨hq, -⟩)
      · exact .inr rfl
      · exact .inl hq

theorem sum_put {rows : List ResourceRow} {tid id : Uuid} (hv : share tid id v = 0)
    (hold : ∀ r ∈ rows, r.id = v.id → share tid id r = 0) :
    activeChildrenCapacitySum (put v rows) tid id = activeChildrenCapacitySum rows tid id := by
  unfold put
  split
  · refine activeSum_map fun r hr => ?_
    by_cases he : r.id = v.id
    · rw [if_pos he, hv, hold r hr he]
    · rw [if_neg he]
  · rw [activeSum_append, activeSum_eq [v]]
    simp [hv]

theorem rows_save_put {r : ResourceRow} (hr : r ∈ t.rows) (hid : r.id = v.id) : (t.save v).rows = put v t.rows := by
  rw [Table.rows_save, put, if_pos (List.any_eq_true.2 ⟨r, hr, by simpa using hid⟩)]
  rfl

theorem rows_insert_put (h : t.insert? v = some t') : t'.rows = put v t.rows := by
  obtain ⟨hnone, hrows⟩ := Table.insert?_eq_some_iff.1 h
  rw [Table.find?_eq_none_iff] at hnone
  rw [hrows, put, if_neg]
  rw [List.any_eq_true]
  rintro ⟨r, hr, he⟩
  exact hnone r hr (by simpa using he)

/-! #### From the rows with the row in place to the rows after the request -/

/-- What has become of the rows: `cap` are the new capacities, and the parts of the room `v` hold `n`. -/
structure Outcome (t t' : Table ResourceRow) (v : ResourceRow) (cap : ResourceRow → ℤ) (n : ℤ) : Prop where
  forth : ∀ q ∈ t.rows, ∃ q' ∈ t'.rows, Same q q' ∧ q'.capacity = cap q
  back : ∀ q' ∈ t'.rows, q'.compositeMode = .child ∨ ∃ q ∈ t.rows, Same q q' ∧ q'.capacity = cap q
  around : ∀ tid id, id ≠ v.id →
    activeChildrenCapacitySum t'.rows tid id = activeChildrenCapacitySum t.rows tid id
  inside : activeChildrenCapacitySum t'.rows v.tenantId v.id = n

theorem Outcome.sound_iff {cap : ResourceRow → ℤ} {n : ℤ} (h : Outcome t t' v cap n) (hv : v ∈ t.rows) :
    Sound t' ↔
      (∀ q ∈ t.rows, q.id ≠ v.id →
        Covers q.compositeMode (cap q) (activeChildrenCapacitySum t.rows q.tenantId q.id)) ∧
      Covers v.compositeMode (cap v) n := by
  constructor
  · intro hs
    refine ⟨fun q hq hne => ?_, ?_⟩
    · obtain ⟨q', hq', hsame, hcap⟩ := h.forth q hq
      have hcovers := hs q' hq'
      rwa [hsame.compositeMode, hcap, hsame.tenantId, hsame.id, h.around _ _ hne] at hcovers
    · obtain ⟨v', hv', hsame, hcap⟩ := h.forth v hv
      have hcovers := hs v' hv'
      rwa [hsame.compositeMode, hcap, hsame.tenantId, hsame.id, h.inside] at hcovers
  · rintro ⟨haround, hinside⟩ q' hq'
    rcases h.back q' hq' with hchild | ⟨q, hq, hsame, hcap⟩
    · intro hparent
      rw [hchild] at hparent
      cases hparent
    · rw [hsame.compositeMode, hcap, hsame.tenantId, hsame.id]
      by_cases hid : q.id = v.id
      · obtain rfl := Table.eq_of_key hq hv hid
        rwa [h.inside]
      · rw [h.around _ _ hid]
        exact haround q hq hid

theorem Outcome.refl : Outcome t t v (fun q => q.capacity) (activeChildrenCapacitySum t.rows v.tenantId v.id) where
  forth q hq := ⟨q, hq, .refl q, rfl⟩
  back q hq := .inr ⟨q, hq, .refl q, rfl⟩
  around _ _ _ := rfl
  inside := rfl

theorem afterSubs_of_not_listed {id : Uuid} (h : isListed rt kids subs id = false) (n : ℤ) :
    afterSubs rt kids subs id n = n := by
  induction subs with
  | nil => rfl
  | cons sub subs ih =>
    rw [isListed, List.any_cons, Bool.or_eq_false_iff, decide_eq_false_iff_not] at h
    rw [afterSubs, List.foldl_cons, if_neg h.1]
    exact ih h.2

theorem isUnder_of_listed {id : Uuid} {r : ResourceRow} (hr : r ∈ t.rows)
    (h : isListed rt (kidsIn rt tenantId id t) subs r.id = true) : isUnder tenantId id r = true := by
  rw [isListed, List.any_eq_true] at h
  obtain ⟨sub, -, htarget⟩ := h
  rw [decide_eq_true_iff, target] at htarget
  split at htarget
  · cases htarget
  · obtain ⟨m, hm, hid⟩ := Option.map_eq_some_iff.1 htarget
    obtain ⟨hmem, hunder⟩ := mem_kidsIn.1 (mem_of_byName hm)
    obtain rfl := Table.eq_of_key hmem hr hid
    exact hunder

theorem Synced.outcome (h : Synced (kidsIn rt v.tenantId v.id t) rt v.tenantId parent subs t t' f news)
    (hid : parent.id = v.id) :
    Outcome t t' v (fun q => afterSubs rt (kidsIn rt v.tenantId v.id t) subs q.id q.capacity)
      (listedSum rt (kidsIn rt v.tenantId v.id t) subs (parent.capacity.getD 1)) := by
  rw [← hid] at h ⊢
  have hcap : ∀ q ∈ t.rows, (f q).capacity = afterSubs rt (kidsIn rt v.tenantId parent.id t) subs q.id q.capacity := by
    intro q hq
    cases hunder : isUnder v.tenantId parent.id q with
    | true => exact h.capacity q hq hunder
    | false =>
      rw [h.other q hq hunder, afterSubs_of_not_listed]
      rw [← Bool.not_eq_true]
      intro hlisted
      rw [isUnder_of_listed hq hlisted] at hunder
      cases hunder
  refine ⟨fun q hq => ?_, fun q' hq' => ?_, fun tid id hne => ?_, ?_⟩
  · refine ⟨f q, ?_, h.same q hq, hcap q hq⟩
    rw [h.rows]
    exact List.mem_append_left _ (List.mem_map_of_mem hq)
  · rw [h.rows, List.mem_append, List.mem_map] at hq'
    rcases hq' with ⟨q, hq, rfl⟩ | hnew
    · exact .inr ⟨q, hq, h.same q hq, hcap q hq⟩
    · exact .inl (h.news_child q' hnew).1
  · exact h.sum_other (hid ▸ hne)
  · rw [← hid]
    exact h.sum_parent

/-! #### The plan of a request -/

/-- The rows with the row of the plan in place. -/
structure Written (t t₁ : Table ResourceRow) (p : Plan) : Prop where
  rows : t₁.rows = put p.row t.rows
  fresh : p.old = none → ∀ r ∈ t.rows, r.id ≠ p.row.id
  replaces : ∀ r, p.old = some r → r ∈ t.rows ∧ r.id = p.row.id ∧ r.tenantId = p.row.tenantId

theorem column_ok {α : Type} {p : Option (Slot α)} {old a : α} (h : column p old = .ok a) :
    a = (given p).getD old := by
  rcases p with _ | _ | _ | b
  · exact (Except.ok.inj h).symm
  · exact (Except.ok.inj h).symm
  · cases h
  · exact (Except.ok.inj h).symm

/-- What is known of a row that was assigned the fields of a request. -/
theorem assign_ok {fields : ResourceWriteDto} {r row : ResourceRow} (h : assign fields r = .ok row) :
    row.id = r.id ∧ row.tenantId = r.tenantId ∧ row.capacity = (given fields.capacity).getD r.capacity ∧
      row.compositeMode = (given fields.compositeMode).getD r.compositeMode := by
  obtain ⟨_, -, h⟩ := bind_eq_ok.1 h
  obtain ⟨_, -, h⟩ := bind_eq_ok.1 h
  obtain ⟨_, hcapacity, h⟩ := bind_eq_ok.1 h
  obtain ⟨_, -, h⟩ := bind_eq_ok.1 h
  obtain ⟨_, -, h⟩ := bind_eq_ok.1 h
  obtain ⟨_, -, h⟩ := bind_eq_ok.1 h
  obtain ⟨_, hmode, h⟩ := bind_eq_ok.1 h
  obtain ⟨_, -, h⟩ := bind_eq_ok.1 h
  obtain ⟨_, -, h⟩ := bind_eq_ok.1 h
  obtain rfl := pure_eq_ok.1 h
  exact ⟨rfl, rfl, column_ok hcapacity, column_ok hmode⟩

/-- The rows after a request, by its plan; the last part is what the check has shown. -/
structure Planned (call : Call) (t t' t₁ : Table ResourceRow) (p : Plan) : Prop where
  written : Written t t₁ p
  synced : ∀ subs, p.subs = some subs → ∃ parent : ParentObject,
    parent.id = p.row.id ∧ parent.capacity.getD 1 = p.inherited ∧
      syncSubResources call.rt call.bookings p.row.tenantId parent subs t₁ = .ok t'
  done : p.subs = none → t' = t₁
  checked : p.subs = none → ∀ r, p.old = some r →
    Covers p.row.compositeMode p.row.capacity (activeChildrenCapacitySum t.rows p.row.tenantId p.row.id)

theorem planned_create {call : Call} {dto : ResourceWriteDto} (hreq : call.request = .create tenantId dto)
    (h : call.exec t = .ok t') : ∃ p t₁, plan call t = .ok p ∧ Planned call t t' t₁ p := by
  unfold Call.exec at h
  rw [hreq] at h
  obtain ⟨_, -, h⟩ := bind_eq_ok.1 h
  obtain ⟨dto', hdto, h⟩ := bind_eq_ok.1 h
  obtain ⟨_, -, h⟩ := bind_eq_ok.1 h
  obtain ⟨row, hrow, h⟩ := bind_eq_ok.1 h
  obtain ⟨t₁, ht₁, h⟩ := bind_eq_ok.1 h
  obtain ⟨hinsert, -⟩ := insertRow_ok ht₁
  obtain ⟨hid, htenant, -⟩ := assign_ok hrow
  refine ⟨⟨none, row, row.capacity, listedParts dto.subResources⟩, t₁, ?_, ⟨?_, ?_, ?_⟩, ?_, ?_, ?_⟩
  · unfold plan
    rw [hreq]
    exact bind_eq_ok.2 ⟨dto', hdto, bind_eq_ok.2 ⟨row, hrow, rfl⟩⟩
  · exact rows_insert_put hinsert
  · intro _ r hr he
    exact Table.find?_eq_none_iff.1 (Table.insert?_eq_some_iff.1 hinsert).1 r hr he
  · intro r hr
    cases hr
  · intro subs hsubs
    refine ⟨insertedObject row, rfl, rfl, ?_⟩
    rcases hlist : dto.subResources with _ | _ | ⟨sub, rest⟩
    · rw [hlist] at hsubs
      cases hsubs
    · rw [hlist] at hsubs
      cases hsubs
    · rw [hlist] at hsubs h
      obtain rfl := Option.some.inj hsubs
      rw [htenant]
      exact h
  · intro hsubs
    rcases hlist : dto.subResources with _ | _ | ⟨sub, rest⟩
    · rw [hlist] at h
      exact (pure_eq_ok.1 h).symm
    · rw [hlist] at h
      exact (pure_eq_ok.1 h).symm
    · rw [hlist] at hsubs
      cases hsubs
  · intro _ r hr
    cases hr

theorem covers_of_assertCovers {dto fields : ResourceWriteDto} {r : ResourceRow} {u : Unit}
    (h : assertCovers t tenantId dto fields r = .ok u) (hnone : dto.subResources = none) :
    Covers ((given fields.compositeMode).getD r.compositeMode)
      ((given fields.capacity).getD r.capacity) (activeChildrenCapacitySum t.rows tenantId r.id) := by
  intro hmode hpos
  rw [assertCovers, if_pos hmode, require_eq_ok] at h
  simpa [hnone, hpos] using h

theorem planned_update {call : Call} {id : Uuid} {dto : ResourceWriteDto}
    (hreq : call.request = .update tenantId id dto) (h : call.exec t = .ok t') :
    ∃ p t₁, plan call t = .ok p ∧ Planned call t t' t₁ p := by
  unfold Call.exec at h
  rw [hreq] at h
  obtain ⟨dto', hdto, h⟩ := bind_eq_ok.1 h
  obtain ⟨r, hr, h⟩ := bind_eq_ok.1 h
  obtain ⟨_, hcovers, h⟩ := bind_eq_ok.1 h
  obtain ⟨row, hrow, h⟩ := bind_eq_ok.1 h
  obtain ⟨t₁, ht₁, h⟩ := bind_eq_ok.1 h
  obtain ⟨rfl, -⟩ := saveRow_ok ht₁
  obtain ⟨hid, htenant, hcapacity, hmode⟩ := assign_ok hrow
  obtain ⟨hfind, htest⟩ := Option.filter_eq_some_iff.1 (found_eq_ok.1 hr)
  have hmem := Table.mem_of_find? hfind
  have hr_tenant : r.tenantId = tenantId := by simpa using htest
  refine ⟨⟨some r, row, (held (fieldsOf dto').capacity (some row.capacity)).getD 1, dto.subResources⟩, t.save row,
    ?_, ⟨?_, ?_, ?_⟩, ?_, ?_, ?_⟩
  · unfold plan
    rw [hreq]
    exact bind_eq_ok.2 ⟨dto', hdto, bind_eq_ok.2 ⟨r, hr, bind_eq_ok.2 ⟨row, hrow, rfl⟩⟩⟩
  · exact rows_save_put hmem hid.symm
  · intro hnone
    cases hnone
  · intro r' hr'
    obtain rfl := Option.some.inj hr'
    exact ⟨hmem, hid.symm, htenant.symm⟩
  · intro subs hsubs
    refine ⟨savedObject call.rt (fieldsOf dto') row, rfl, rfl, ?_⟩
    rw [show dto.subResources = some subs from hsubs] at h
    rw [htenant, hr_tenant]
    exact h
  · intro hsubs
    rw [show dto.subResources = none from hsubs] at h
    exact (pure_eq_ok.1 h).symm
  · intro hsubs r' hr'
    rw [hcapacity, hmode, hid, htenant, hr_tenant]
    exact covers_of_assertCovers hcovers hsubs

theorem planned {call : Call} (h : call.exec t = .ok t') : ∃ p t₁, plan call t = .ok p ∧ Planned call t t' t₁ p := by
  cases hreq : call.request with
  | create tenantId dto => exact planned_create hreq h
  | update tenantId id dto => exact planned_update hreq h

/-! #### Room for the plan -/

variable {call : Call} {p : Plan} {t₁ : Table ResourceRow}

theorem kidsIn_of_written (h : Written t t₁ p) : kidsIn rt p.row.tenantId p.row.id t₁ = kidsOf rt t.rows p := by
  rw [kidsIn, kidsOf, h.rows]

theorem Written.sum_put_of_apart (h : Written t t₁ p) {q : ResourceRow} (hnew : ¬ IsPart q p.row)
    (hold : ∀ r, p.old = some r → ¬ IsPart q r) :
    activeChildrenCapacitySum (put p.row t.rows) q.tenantId q.id =
      activeChildrenCapacitySum t.rows q.tenantId q.id := by
  refine sum_put (share_of_not hnew) fun r hr he => ?_
  cases hp : p.old with
  | none => exact absurd he (h.fresh hp r hr)
  | some r' =>
    obtain ⟨hr', hid', -⟩ := h.replaces r' hp
    obtain rfl := Table.eq_of_key hr hr' (he.trans hid'.symm)
    exact share_of_not (hold r hp)

theorem Written.around_iff (h : Written t t₁ p) (hs : Sound t) :
    (∀ q ∈ t₁.rows, q.id ≠ p.row.id →
        Covers q.compositeMode (afterSubs rt (kidsOf rt t.rows p) (p.subs.getD []) q.id q.capacity)
          (activeChildrenCapacitySum t₁.rows q.tenantId q.id)) ↔
      ∀ q ∈ t.rows, q.id ≠ p.row.id → Affects rt t.rows p q →
        Covers q.compositeMode (afterSubs rt (kidsOf rt t.rows p) (p.subs.getD []) q.id q.capacity)
          (activeChildrenCapacitySum (put p.row t.rows) q.tenantId q.id) := by
  rw [h.rows]
  constructor
  · intro hall q hq hne _
    exact hall q (mem_put.2 (.inr ⟨hq, hne⟩)) hne
  · intro hall q hq hne
    obtain rfl | ⟨hq, -⟩ := mem_put.1 hq
    · exact absurd rfl hne
    · by_cases haffects : Affects rt t.rows p q
      · exact hall q hq hne haffects
      · obtain ⟨hnew, hrest⟩ := not_or.1 haffects
        obtain ⟨hold, hlisted⟩ := not_or.1 hrest
        rw [afterSubs_of_not_listed (by simpa using hlisted),
          h.sum_put_of_apart hnew fun r hr hpart => hold ⟨r, hr, hpart⟩]
        exact hs q hq

/-- A room without a list: the check has looked at its parts, unless it is new or a part of itself. -/
theorem Planned.covers_itself (h : Planned call t t' t₁ p) (hsubs : p.subs = none)
    (hroom : p.old = none ∨ IsPart p.row p.row ∨ (∃ r, p.old = some r ∧ IsPart r r) →
      Covers p.row.compositeMode p.row.capacity
        (activeChildrenCapacitySum (put p.row t.rows) p.row.tenantId p.row.id)) :
    Covers p.row.compositeMode p.row.capacity
      (activeChildrenCapacitySum (put p.row t.rows) p.row.tenantId p.row.id) := by
  by_cases hself : p.old = none ∨ IsPart p.row p.row ∨ ∃ r, p.old = some r ∧ IsPart r r
  · exact hroom hself
  · obtain ⟨hold, hrest⟩ := not_or.1 hself
    obtain ⟨hnew, hwas⟩ := not_or.1 hrest
    obtain ⟨r, hr⟩ := Option.ne_none_iff_exists'.1 hold
    rw [h.written.sum_put_of_apart hnew]
    · exact h.checked hsubs r hr
    · intro r' hr' hpart
      obtain ⟨-, hid, htenant⟩ := h.written.replaces r' hr'
      rw [IsPart, ← hid, ← htenant] at hpart
      exact hwas ⟨r', hr', hpart⟩

theorem Planned.outcome_of_subs (h : Planned call t t' t₁ p) {subs : List SubResourceWrite}
    (hsubs : p.subs = some subs) :
    Outcome t₁ t' p.row (fun q => afterSubs call.rt (kidsOf call.rt t.rows p) subs q.id q.capacity)
      (listedSum call.rt (kidsOf call.rt t.rows p) subs p.inherited) := by
  obtain ⟨parent, hid, hinherited, hsync⟩ := h.synced subs hsubs
  obtain ⟨f, news, hsynced⟩ := syncSubResources_ok hsync
  rw [hid] at hsynced
  have houtcome := hsynced.outcome hid
  rwa [kidsIn_of_written h.written, hinherited] at houtcome

/-- **One request.** An accepted request leaves sound rows sound exactly if there is room for its plan. -/
theorem sound_iff_hasRoom (hs : Sound t) (h : Planned call t t' t₁ p) :
    Sound t' ↔ HasRoom call.rt t.rows p := by
  have hv : p.row ∈ t₁.rows := by
    rw [h.written.rows]
    exact mem_put.2 (.inl rfl)
  have haround := @Written.around_iff call.rt t p t₁ h.written hs
  cases hsubs : p.subs with
  | some subs =>
    have hget : p.subs.getD [] = subs := by rw [hsubs, Option.getD_some]
    rw [hget] at haround
    rw [(h.outcome_of_subs hsubs).sound_iff hv, haround]
    constructor
    · rintro ⟨haround', hparts⟩
      refine ⟨by rwa [hget], ?_, ?_⟩
      · intro subs' hsubs'
        obtain rfl := Option.some.inj (hsubs.symm.trans hsubs')
        exact hparts
      · intro hnone
        rw [hsubs] at hnone
        cases hnone
    · intro hroom
      have haround' := hroom.around
      rw [hget] at haround'
      exact ⟨haround', hroom.parts subs hsubs⟩
  | none =>
    have hget : p.subs.getD [] = [] := by rw [hsubs, Option.getD_none]
    rw [hget] at haround
    obtain rfl := h.done hsubs
    rw [Outcome.refl.sound_iff hv]
    constructor
    · rintro ⟨haround', hitself⟩
      refine ⟨?_, ?_, ?_⟩
      · rw [hget]
        exact haround.1 haround'
      · intro subs hsome
        rw [hsubs] at hsome
        cases hsome
      · intro _ _
        rwa [h.written.rows] at hitself
    · intro hroom
      have haround' := hroom.around
      rw [hget] at haround'
      refine ⟨haround.2 haround', ?_⟩
      rw [h.written.rows]
      exact h.covers_itself hsubs (hroom.itself hsubs)

end Step

/-! ### Runs -/

section Runs

variable {t : Table ResourceRow} {call : Call}

theorem sound_serve (hs : Sound t) (h : Meets t call) : Sound (serve t call) := by
  unfold serve
  cases hexec : call.exec t with
  | error e => exact hs
  | ok t' =>
    obtain ⟨p, t₁, hplan, hplanned⟩ := planned hexec
    exact (sound_iff_hasRoom hs hplanned).2 (h t' hexec p hplan)

theorem meets_of_sound_serve (hs : Sound t) (h : Sound (serve t call)) : Meets t call := by
  intro t' hexec p hplan
  obtain ⟨p', t₁, hplan', hplanned⟩ := planned hexec
  obtain rfl := Except.ok.inj (hplan.symm.trans hplan')
  rw [serve, hexec] at h
  exact (sound_iff_hasRoom hs hplanned).1 h

/-- **Every run.** From sound rows, the rows stay sound all along a run if and only if every request that is accepted
finds room for what it asks for. -/
theorem sound_all_along_iff (hs : Sound t) (calls : List Call) :
    (∀ done rest, calls = done ++ rest → Sound (run serve t done)) ↔ AllSteps serve Meets t calls := by
  have hall : ∀ call ∈ calls, (fun _ : Call => True) call := fun _ _ => trivial
  rw [ allSteps_iff_forall_prefix (fun _ hs => hs) (fun _ _ hs _ hmeets => sound_serve hs hmeets)
    (fun _ _ hs _ hsound => meets_of_sound_serve hs hsound) hs hall]

end Runs

instance (mode : CompositeMode) (capacity n : ℤ) : Decidable (Covers mode capacity n) :=
  inferInstanceAs (Decidable (mode = .parent → 0 < capacity → n ≤ capacity))

instance (table : Table ResourceRow) : Decidable (Sound table) :=
  inferInstanceAs (Decidable (∀ q ∈ table.rows,
    Covers q.compositeMode q.capacity (activeChildrenCapacitySum table.rows q.tenantId q.id)))

def runtime (base : String) : Runtime where
  toLowerCase := id
  now := 0
  newId i := base ++ toString i
  order := id
  order_perm _ := .refl _

def splitHall : Call where
  rt := runtime "hall"
  bookings := .empty
  request := .create "t"
    { name := some (.value "Hall"), region := some (.value "HK"), capacity := some (.value 10)
      subResources := some [{ name := "A", capacity := some 5 }] }

def growPart : Call where
  rt := runtime "part"
  bookings := .empty
  request := .update "t" "hall1" { capacity := some (.value 50) }

theorem sound_splitHall :
    Sound (Table.empty : Table ResourceRow) ∧ AllSteps serve Meets (Table.empty : Table ResourceRow) [splitHall] := by
  have hempty : Sound (Table.empty : Table ResourceRow) := by decide
  have hsplit : Sound (run serve Table.empty [splitHall]) := by decide +kernel
  refine ⟨hempty, (sound_all_along_iff hempty [splitHall]).1 fun done rest h => ?_⟩
  cases done with
  | nil => exact hempty
  | cons call done =>
    obtain ⟨rfl, hnil⟩ := List.cons.inj h
    rw [(List.append_eq_nil_iff.1 hnil.symm).1]
    exact hsplit

theorem part_outgrows_hall :
    Sound (run serve Table.empty [splitHall]) ∧ ¬ Sound (run serve Table.empty [splitHall, growPart]) := by
  decide +kernel

end BookingSystem.Runs.SplitRooms
