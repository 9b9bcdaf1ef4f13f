import Mathlib.Data.List.DropRight
import BookingSystem.Runs.SplitRooms

/-!
# One part for each name

`syncSubResources` is to leave a room with one active part for each name of the list, up to case and blanks, and it is
to change nothing when it is applied again. It looks a name up among the parts that were there when it began, so a new
name that is listed twice becomes two parts. And of two parts with one name it takes the one that the database returns
last, which need not be the same one the next time. `exact_and_settled_iff` says that nothing else goes wrong.
-/

namespace BookingSystem.Contracts.SubRooms

open Base Model Model.ResourcesService Runs.SplitRooms

/-! ### What is asked of the parts -/

section Names

variable (lower : String → String) (tenantId id : Uuid) (subs : List SubResourceWrite) (t : Table ResourceRow)

def nameKey (name : String) : String := lower (trim name)

/-- The names of a list that are not blank. -/
def listedNames : List String :=
  (subs.filter fun sub => trim sub.name != "").map fun sub => nameKey lower sub.name

def parts : List ResourceRow := t.rows.filter (isUnder tenantId id)

def activeNames : List String := ((parts tenantId id t).filter fun c => c.isActive).map fun c => nameKey lower c.name

/-- There is one active part for each name of the list, and no other. -/
structure Exact : Prop where
  one : (activeNames lower tenantId id t).Nodup
  listed : ∀ k, k ∈ activeNames lower tenantId id t ↔ k ∈ listedNames lower subs

def newNames : List String :=
  (listedNames lower subs).filter fun k => !((parts tenantId id t).map fun c => nameKey lower c.name).contains k

/-- No two parts have one listed name, active or not. -/
def Unique : Prop :=
  ∀ c ∈ parts tenantId id t, ∀ d ∈ parts tenantId id t, nameKey lower c.name = nameKey lower d.name →
    nameKey lower c.name ∈ listedNames lower subs → c = d

end Names

/-- The list changes nothing, in whatever order the database returns the parts. -/
def Settled (lower : String → String) (tenantId : Uuid) (parent : ParentObject) (subs : List SubResourceWrite)
    (t : Table ResourceRow) : Prop :=
  ∀ (rt : Runtime) (bookings : Table Booking), rt.toLowerCase = lower →
    syncSubResources rt bookings tenantId parent subs t = .ok t

/-! ### Names -/

theorem trim_trim (s : String) : trim (trim s) = trim s := by
  have htrim : ∀ s, (trim s).toList = (s.toList.dropWhile isSpace).rdropWhile isSpace := by
    intro s
    rw [trim, String.toList_ofList, List.rdropWhile]
  apply String.toList_injective
  rw [htrim, htrim]
  have hstart : ((s.toList.dropWhile isSpace).rdropWhile isSpace).dropWhile isSpace =
      (s.toList.dropWhile isSpace).rdropWhile isSpace := by
    obtain ⟨rest, hrest⟩ := List.rdropWhile_prefix isSpace (s.toList.dropWhile isSpace)
    cases hr : (s.toList.dropWhile isSpace).rdropWhile isSpace with
    | nil => rfl
    | cons a r =>
      have hsame := List.dropWhile_idempotent isSpace s.toList
      rw [← hrest, hr, List.cons_append, List.dropWhile_cons] at hsame
      rw [List.dropWhile_cons]
      split
      · rename_i ha
        rw [if_pos ha] at hsame
        have hlength := congrArg List.length hsame
        have hle := (List.dropWhile_sublist isSpace (l := r ++ rest)).length_le
        rw [List.length_cons] at hlength
        omega
      · rfl
  rw [hstart, List.rdropWhile_idempotent]

section Lookup

variable {rt : Runtime} {kids : List ResourceRow} {sub : SubResourceWrite} {name : String} {m c : ResourceRow}

theorem byName_some (h : byName rt kids name = some m) :
    m ∈ kids ∧ nameKey rt.toLowerCase m.name = rt.toLowerCase name := by
  refine ⟨mem_of_byName h, ?_⟩
  have htest := List.find?_some h
  simpa [nameKey] using htest

theorem byName_none : byName rt kids name = none ↔ ∀ c ∈ kids, nameKey rt.toLowerCase c.name ≠ rt.toLowerCase name := by
  rw [byName, List.find?_eq_none]
  simp [nameKey]

theorem byName_congr {name' : String} (h : rt.toLowerCase name = rt.toLowerCase name') :
    byName rt kids name = byName rt kids name' := by
  rw [byName, byName, h]

theorem target_some {id : Uuid} :
    target rt kids sub = some id ↔ trim sub.name ≠ "" ∧ ∃ m, byName rt kids (trim sub.name) = some m ∧ m.id = id := by
  unfold target
  split
  · rename_i h
    simp [h]
  · rename_i h
    rw [Option.map_eq_some_iff]
    exact ⟨fun hm => ⟨h, hm⟩, fun hm => hm.2⟩

end Lookup

/-! ### What the list makes of the parts -/

section Reconciled

variable {rt : Runtime} {tenantId : Uuid} {parent : ParentObject} {t t' : Table ResourceRow}
  {subs : List SubResourceWrite} {news : List ResourceRow} {bookings : Table Booking}

/-- A row as the list leaves it. -/
def reconciled (rt : Runtime) (tenantId : Uuid) (parent : ParentObject) (subs : List SubResourceWrite)
    (t : Table ResourceRow) (r : ResourceRow) : ResourceRow :=
  if isUnder tenantId parent.id r then
    { patches rt (kidsIn rt tenantId parent.id t) parent subs r.id r with
      isActive := isListed rt (kidsIn rt tenantId parent.id t) subs r.id }
  else r

/-- The rows after the call, with what was checked of them. -/
structure Reconciled (rt : Runtime) (tenantId : Uuid) (parent : ParentObject) (subs : List SubResourceWrite)
    (t t' : Table ResourceRow) (news : List ResourceRow) : Prop where
  rows : t'.rows = t.rows.map (reconciled rt tenantId parent subs t) ++ news
  created : List.Forall₂ (fun sub n => n = newChild tenantId parent n.id sub)
    (subs.filter (isNew rt (kidsIn rt tenantId parent.id t))) news
  checked : ∀ r ∈ parts tenantId parent.id t, isListed rt (kidsIn rt tenantId parent.id t) subs r.id = true →
    checkRow (reconciled rt tenantId parent subs t r) = .ok ()
  checked_new : ∀ n ∈ news, checkRow n = .ok ()
  fits : ∀ sub ∈ subs, trim sub.name ≠ "" → ∀ n, sub.capacity = some n → fitsInteger n = true

theorem mem_parts {id : Uuid} {r : ResourceRow} :
    r ∈ parts tenantId id t ↔ r ∈ t.rows ∧ isUnder tenantId id r = true := List.mem_filter

theorem mem_kidsIn_iff {id : Uuid} {r : ResourceRow} : r ∈ kidsIn rt tenantId id t ↔ r ∈ parts tenantId id t :=
  mem_kidsIn.trans mem_parts.symm

theorem reconciled_of_syncSubResources (h : syncSubResources rt bookings tenantId parent subs t = .ok t') :
    ∃ news, Reconciled rt tenantId parent subs t t' news := by
  obtain ⟨st, hst, h⟩ := bind_eq_ok.1 h
  obtain ⟨-, -, h⟩ := bind_eq_ok.1 h
  obtain rfl := pure_eq_ok.1 h
  obtain ⟨f, news, hp, hd⟩ := syncSubs_spec Progress.start hst
  rw [List.nil_append] at hp
  have hfinal : ∀ r ∈ t.rows, finalRow tenantId parent f st r = reconciled rt tenantId parent subs t r := by
    intro r hr
    unfold reconciled
    split
    · rename_i hunder
      rw [← hp.active_final hd.advance hr hunder]
      unfold finalRow
      rw [if_pos hunder, hd.patched]
      split <;> rfl
    · rename_i hunder
      rw [finalRow, if_neg, if_neg hunder]
      exact fun hremoved => hunder ((hp.any_removedOf hr).1 hremoved).1
  refine ⟨news, ?_, hd.created, fun r hr hlisted => ?_, hd.checked_new, hd.fits⟩
  · exact hp.rows_final.trans (congrArg (· ++ news) (List.map_congr_left hfinal))
  · have hchecked := hd.checked r (mem_kidsIn_iff.2 hr) hlisted
    rw [hd.patched, checkRow_ok_iff] at hchecked
    rw [reconciled, if_pos (mem_parts.1 hr).2, checkRow_ok_iff]
    exact hchecked

theorem same_patches {kids : List ResourceRow} (id : Uuid) (c : ResourceRow) :
    Same c (patches rt kids parent subs id c) := by
  unfold patches
  induction subs generalizing c with
  | nil => exact .refl c
  | cons sub subs ih =>
    rw [List.foldl_cons]
    refine Same.trans ?_ (ih _)
    split
    · exact same_patch c
    · exact .refl c

theorem same_reconciled (r : ResourceRow) : Same r (reconciled rt tenantId parent subs t r) := by
  unfold reconciled
  split
  · obtain ⟨hid, htenant, hname, hparent, hmode⟩ := @same_patches rt parent subs (kidsIn rt tenantId parent.id t) r.id r
    exact ⟨hid, htenant, hname, hparent, hmode⟩
  · exact .refl r

theorem isUnder_of_same {id : Uuid} {r r' : ResourceRow} (h : Same r r') :
    isUnder tenantId id r' = isUnder tenantId id r := by
  rw [isUnder, isUnder, h.tenantId, h.parentResourceId]

theorem Reconciled.mem_news (h : Reconciled rt tenantId parent subs t t' news) {n : ResourceRow} (hn : n ∈ news) :
    ∃ sub ∈ subs, isNew rt (kidsIn rt tenantId parent.id t) sub = true ∧ n = newChild tenantId parent n.id sub := by
  have hcreated := h.created
  clear h
  generalize hitems : subs.filter (isNew rt (kidsIn rt tenantId parent.id t)) = items at hcreated
  have hmem : ∀ sub ∈ items, sub ∈ subs ∧ isNew rt (kidsIn rt tenantId parent.id t) sub = true := by
    rw [← hitems]
    exact fun sub hsub => List.mem_filter.1 hsub
  clear hitems
  induction hcreated with
  | nil => cases hn
  | @cons sub n' items news hsub _ ih =>
    rcases List.mem_cons.1 hn with rfl | hn
    · exact ⟨sub, (hmem sub List.mem_cons_self).1, (hmem sub List.mem_cons_self).2, hsub⟩
    · exact ih hn fun s hs => hmem s (.tail _ hs)

theorem newChild_under {id : Uuid} {sub : SubResourceWrite} :
    isUnder tenantId parent.id (newChild tenantId parent id sub) = true := by
  simp [newChild, isUnder]

theorem nameKey_newChild {lower : String → String} {id : Uuid} {sub : SubResourceWrite} :
    nameKey lower (newChild tenantId parent id sub).name = nameKey lower sub.name := by
  rw [newChild, nameKey, nameKey, trim_trim]

theorem Reconciled.parts_eq (h : Reconciled rt tenantId parent subs t t' news) :
    parts tenantId parent.id t' = (parts tenantId parent.id t).map (reconciled rt tenantId parent subs t) ++ news := by
  rw [parts, h.rows, List.filter_append, List.filter_map]
  congr 1
  · rw [parts]
    congr 1
    exact List.filter_congr fun r _ => isUnder_of_same (same_reconciled r)
  · rw [List.filter_eq_self]
    intro n hn
    obtain ⟨sub, -, -, hsub⟩ := h.mem_news hn
    rw [hsub]
    exact newChild_under

theorem isNew_iff {sub : SubResourceWrite} :
    isNew rt (kidsIn rt tenantId parent.id t) sub = true ↔
      trim sub.name ≠ "" ∧ nameKey rt.toLowerCase sub.name ∉
        (parts tenantId parent.id t).map fun c => nameKey rt.toLowerCase c.name := by
  rw [isNew, Bool.and_eq_true, bne_iff_ne, Option.isNone_iff_eq_none, byName_none]
  simp only [mem_kidsIn_iff, List.mem_map, not_exists, not_and]
  rfl

theorem newNames_eq : newNames rt.toLowerCase tenantId parent.id subs t =
    (subs.filter (isNew rt (kidsIn rt tenantId parent.id t))).map fun sub => nameKey rt.toLowerCase sub.name := by
  rw [newNames, listedNames, List.filter_map, List.filter_filter]
  refine congrArg (List.map _) (List.filter_congr fun sub _ => ?_)
  rw [Bool.eq_iff_iff, isNew_iff, Bool.and_eq_true, and_comm, bne_iff_ne]
  simp

theorem Reconciled.names_news (h : Reconciled rt tenantId parent subs t t' news) :
    news.map (fun n => nameKey rt.toLowerCase n.name) = newNames rt.toLowerCase tenantId parent.id subs t := by
  rw [newNames_eq]
  have hcreated := h.created
  clear h
  generalize subs.filter (isNew rt (kidsIn rt tenantId parent.id t)) = items at hcreated
  induction hcreated with
  | nil => rfl
  | cons hn _ ih => rw [List.map_cons, List.map_cons, ih, hn, nameKey_newChild]

/-! ### One part for each name -/

def isNamed (lower : String → String) (k : String) (sub : SubResourceWrite) : Bool :=
  trim sub.name != "" && nameKey lower sub.name == k

theorem mem_listedNames {lower : String → String} {k : String} :
    k ∈ listedNames lower subs ↔ ∃ sub ∈ subs, isNamed lower k sub = true := by
  simp [listedNames, isNamed, and_assoc]

theorem isNamed_of_target {sub : SubResourceWrite} {c : ResourceRow} (hc : c ∈ parts tenantId parent.id t)
    (h : target rt (kidsIn rt tenantId parent.id t) sub = some c.id) :
    isNamed rt.toLowerCase (nameKey rt.toLowerCase c.name) sub = true := by
  obtain ⟨hname, m, hm, hid⟩ := target_some.1 h
  obtain ⟨hmem, hkey⟩ := byName_some hm
  obtain rfl : m = c := Table.eq_of_key (mem_kidsIn.1 hmem).1 (mem_parts.1 hc).1 hid
  rw [isNamed, Bool.and_eq_true, bne_iff_ne, beq_iff_eq]
  exact ⟨hname, hkey.symm⟩

theorem eq_of_isListed {c d : ResourceRow} (hc : c ∈ parts tenantId parent.id t) (hd : d ∈ parts tenantId parent.id t)
    (hcl : isListed rt (kidsIn rt tenantId parent.id t) subs c.id = true)
    (hdl : isListed rt (kidsIn rt tenantId parent.id t) subs d.id = true)
    (hname : nameKey rt.toLowerCase c.name = nameKey rt.toLowerCase d.name) : c = d := by
  have hfound : ∀ e ∈ parts tenantId parent.id t, isListed rt (kidsIn rt tenantId parent.id t) subs e.id = true →
      ∃ name, byName rt (kidsIn rt tenantId parent.id t) name = some e ∧
        rt.toLowerCase name = nameKey rt.toLowerCase e.name := by
    intro e he hlisted
    rw [isListed, List.any_eq_true] at hlisted
    obtain ⟨sub, -, htarget⟩ := hlisted
    obtain ⟨-, m, hm, hid⟩ := target_some.1 (of_decide_eq_true htarget)
    obtain ⟨hmem, hkey⟩ := byName_some hm
    obtain rfl : m = e := Table.eq_of_key (mem_kidsIn.1 hmem).1 (mem_parts.1 he).1 hid
    exact ⟨_, hm, hkey.symm⟩
  obtain ⟨name, hbyc, hkeyc⟩ := hfound c hc hcl
  obtain ⟨name', hbyd, hkeyd⟩ := hfound d hd hdl
  rw [byName_congr (hkeyc.trans (hname.trans hkeyd.symm)), hbyd] at hbyc
  exact (Option.some.inj hbyc).symm

theorem Reconciled.activeNames_eq (h : Reconciled rt tenantId parent subs t t' news) :
    activeNames rt.toLowerCase tenantId parent.id t' =
      ((parts tenantId parent.id t).filter fun c => isListed rt (kidsIn rt tenantId parent.id t) subs c.id).map
        (fun c => nameKey rt.toLowerCase c.name) ++ newNames rt.toLowerCase tenantId parent.id subs t := by
  rw [activeNames, h.parts_eq, List.filter_append, List.map_append, List.filter_map, List.map_map, ← h.names_news]
  refine congrArg₂ (· ++ ·) ?_ ?_
  · have hfilter : (parts tenantId parent.id t).filter
        ((fun c => c.isActive) ∘ reconciled rt tenantId parent subs t) =
          (parts tenantId parent.id t).filter fun c => isListed rt (kidsIn rt tenantId parent.id t) subs c.id := by
      refine List.filter_congr fun c hc => ?_
      rw [Function.comp_apply, reconciled, if_pos (mem_parts.1 hc).2]
    rw [hfilter]
    refine List.map_congr_left fun c _ => ?_
    rw [Function.comp_apply, (same_reconciled c).name]
  · rw [List.filter_eq_self.2]
    intro n hn
    obtain ⟨sub, -, -, hsub⟩ := h.mem_news hn
    rw [hsub]
    rfl

/-- **One call.** There is one active part for each name if and only if no new name is listed twice. -/
theorem Reconciled.exact_iff_nodup (h : Reconciled rt tenantId parent subs t t' news) :
    Exact rt.toLowerCase tenantId parent.id subs t' ↔ (newNames rt.toLowerCase tenantId parent.id subs t).Nodup := by
  have hactive := h.activeNames_eq
  constructor
  · rintro ⟨hone, -⟩
    rw [hactive, List.nodup_append] at hone
    exact hone.2.1
  · intro hnodup
    refine ⟨?_, fun k => ?_⟩
    · rw [hactive, List.nodup_append]
      refine ⟨?_, hnodup, fun k hk k' hk' he => ?_⟩
      · refine List.Nodup.map_on (fun c hc d hd hname => ?_) (t.nodup.of_map.filter _ |>.filter _)
        obtain ⟨hc, hcl⟩ := List.mem_filter.1 hc
        obtain ⟨hd, hdl⟩ := List.mem_filter.1 hd
        exact eq_of_isListed hc hd hcl hdl hname
      · obtain ⟨c, hc, rfl⟩ := List.mem_map.1 hk
        have hnot := (List.mem_filter.1 hk').2
        rw [← he, Bool.not_eq_true', List.contains_eq_mem, decide_eq_false_iff_not] at hnot
        exact hnot (List.mem_map_of_mem (List.mem_filter.1 hc).1)
    · rw [hactive, List.mem_append]
      constructor
      · rintro (hk | hk)
        · obtain ⟨c, hc, rfl⟩ := List.mem_map.1 hk
          obtain ⟨hc, hlisted⟩ := List.mem_filter.1 hc
          rw [isListed, List.any_eq_true] at hlisted
          obtain ⟨sub, hsub, htarget⟩ := hlisted
          exact mem_listedNames.2 ⟨sub, hsub, isNamed_of_target hc (of_decide_eq_true htarget)⟩
        · exact (List.mem_filter.1 hk).1
      · intro hk
        obtain ⟨sub, hsub, hnamed⟩ := mem_listedNames.1 hk
        rw [isNamed, Bool.and_eq_true, bne_iff_ne, beq_iff_eq] at hnamed
        obtain ⟨hname, rfl⟩ := hnamed
        cases hby : byName rt (kidsIn rt tenantId parent.id t) (trim sub.name) with
        | some m =>
          obtain ⟨hmem, hkey⟩ := byName_some hby
          refine .inl (List.mem_map.2 ⟨m, List.mem_filter.2 ⟨mem_kidsIn_iff.1 hmem, ?_⟩, hkey⟩)
          exact List.any_eq_true.2 ⟨sub, hsub, decide_eq_true (target_some.2 ⟨hname, m, hby, rfl⟩)⟩
        | none =>
          refine .inr (List.mem_filter.2 ⟨hk, ?_⟩)
          have hnew : isNew rt (kidsIn rt tenantId parent.id t) sub = true := by simp [isNew, hname, hby]
          simpa using (isNew_iff.1 hnew).2

/-! ### The same list again -/

/-- Each step keeps what it finds or sets it to a value of its own. -/
def KeepOrSet {α σ : Type} (h : α → σ → α) : Prop := ∀ x, (∀ a, h a x = a) ∨ ∀ a b, h a x = h b x

theorem KeepOrSet.foldl_again {α σ : Type} {h : α → σ → α} (hh : KeepOrSet h) (l : List σ) (a : α) :
    l.foldl h (l.foldl h a) = l.foldl h a := by
  have hall : (∀ a, l.foldl h a = a) ∨ ∀ a b, l.foldl h a = l.foldl h b := by
    induction l with
    | nil => exact .inl fun _ => rfl
    | cons x l ih =>
      rcases ih with hkeep | hset
      · rcases hh x with hx | hx
        · exact .inl fun a => by rw [List.foldl_cons, hkeep, hx]
        · exact .inr fun a b => by rw [List.foldl_cons, List.foldl_cons, hx a b]
      · exact .inr fun a b => by rw [List.foldl_cons, List.foldl_cons, hset]
  rcases hall with hkeep | hset
  · rw [hkeep]
  · exact hset _ _

theorem keepOrSet_getD {α σ : Type} (g : σ → Option α) : KeepOrSet fun a x => (g x).getD a := by
  intro x
  cases hx : g x with
  | none => exact .inl fun a => by simp only [hx, Option.getD_none]
  | some b => exact .inr fun a a' => by simp only [hx, Option.getD_some]

theorem keepOrSet_nullable {α σ : Type} (g : σ → Slot α) : KeepOrSet fun a x => nullable (some (g x)) a := by
  intro x
  cases hx : g x with
  | undefined => exact .inl fun a => by simp only [hx, nullable]
  | null => exact .inr fun a a' => by simp only [hx, nullable]
  | value b => exact .inr fun a a' => by simp only [hx, nullable]

theorem foldl_patch (items : List SubResourceWrite) (c : ResourceRow) :
    items.foldl (fun c sub => patch parent sub c) c =
      { c with
        capacity := items.foldl (fun n sub => sub.capacity.getD n) c.capacity
        equipment := items.foldl (fun e sub => nullable (some (inheritedEquipment parent sub)) e) c.equipment
        requiresApproval :=
          items.foldl (fun b sub => (sub.requiresApproval.or parent.requiresApproval).getD b) c.requiresApproval
        isActive := c.isActive || !items.isEmpty } := by
  induction items generalizing c with
  | nil => simp
  | cons sub items ih =>
    rw [List.foldl_cons, ih, patch]
    simp

theorem foldl_patch_again (items : List SubResourceWrite) (c : ResourceRow) :
    items.foldl (fun c sub => patch parent sub c) (items.foldl (fun c sub => patch parent sub c) c) =
      items.foldl (fun c sub => patch parent sub c) c := by
  rw [foldl_patch items c, foldl_patch]
  have hcapacity := (keepOrSet_getD fun sub : SubResourceWrite => sub.capacity).foldl_again items c.capacity
  have hequipment := (keepOrSet_nullable (inheritedEquipment parent)).foldl_again items c.equipment
  have happroval := (keepOrSet_getD fun sub : SubResourceWrite =>
    sub.requiresApproval.or parent.requiresApproval).foldl_again items c.requiresApproval
  simp only [hcapacity, hequipment, happroval, Bool.or_assoc, Bool.or_self]

theorem patch_newChild (id : Uuid) (sub : SubResourceWrite) :
    patch parent sub (newChild tenantId parent id sub) = newChild tenantId parent id sub := by
  have hcapacity : sub.capacity.getD (sub.capacity.getD (parent.capacity.getD 1)) =
      sub.capacity.getD (parent.capacity.getD 1) := by cases sub.capacity <;> rfl
  have hequipment : nullable (some (inheritedEquipment parent sub))
      (nullable (some (inheritedEquipment parent sub)) none) =
        nullable (some (inheritedEquipment parent sub)) none := by cases inheritedEquipment parent sub <;> rfl
  have happroval : (sub.requiresApproval.or parent.requiresApproval).getD
      ((sub.requiresApproval.or parent.requiresApproval).getD false) =
        (sub.requiresApproval.or parent.requiresApproval).getD false := by
    cases sub.requiresApproval.or parent.requiresApproval <;> rfl
  simp only [patch, newChild, hcapacity, hequipment, happroval]

section Again

variable {c : ResourceRow}

theorem target_iff (hu : Unique rt.toLowerCase tenantId parent.id subs t) (hc : c ∈ parts tenantId parent.id t)
    {sub : SubResourceWrite} (hsub : sub ∈ subs) :
    target rt (kidsIn rt tenantId parent.id t) sub = some c.id ↔
      isNamed rt.toLowerCase (nameKey rt.toLowerCase c.name) sub = true := by
  refine ⟨isNamed_of_target hc, fun hnamed => ?_⟩
  have hlisted := mem_listedNames.2 ⟨sub, hsub, hnamed⟩
  rw [isNamed, Bool.and_eq_true, bne_iff_ne, beq_iff_eq] at hnamed
  cases hby : byName rt (kidsIn rt tenantId parent.id t) (trim sub.name) with
  | none => exact absurd hnamed.2.symm (byName_none.1 hby c (mem_kidsIn_iff.2 hc))
  | some m =>
    obtain ⟨hmem, hkey⟩ := byName_some hby
    have hname : nameKey rt.toLowerCase c.name = nameKey rt.toLowerCase m.name := hnamed.2.symm.trans hkey.symm
    obtain rfl := hu c hc m (mem_kidsIn_iff.1 hmem) hname hlisted
    exact target_some.2 ⟨hnamed.1, c, hby, rfl⟩

theorem isListed_iff (hu : Unique rt.toLowerCase tenantId parent.id subs t) (hc : c ∈ parts tenantId parent.id t) :
    isListed rt (kidsIn rt tenantId parent.id t) subs c.id = true ↔
      nameKey rt.toLowerCase c.name ∈ listedNames rt.toLowerCase subs := by
  rw [mem_listedNames, isListed, List.any_eq_true]
  refine exists_congr fun sub => and_congr_right fun hsub => ?_
  rw [decide_eq_true_iff, target_iff hu hc hsub]

theorem patches_eq (hu : Unique rt.toLowerCase tenantId parent.id subs t) (hc : c ∈ parts tenantId parent.id t)
    (x : ResourceRow) :
    patches rt (kidsIn rt tenantId parent.id t) parent subs c.id x =
      (subs.filter (isNamed rt.toLowerCase (nameKey rt.toLowerCase c.name))).foldl
        (fun c sub => patch parent sub c) x := by
  have hfilter : subs.filter (isNamed rt.toLowerCase (nameKey rt.toLowerCase c.name)) =
      subs.filter fun sub => decide (target rt (kidsIn rt tenantId parent.id t) sub = some c.id) := by
    refine List.filter_congr fun sub hsub => ?_
    rw [Bool.eq_iff_iff, ← target_iff hu hc hsub, decide_eq_true_iff]
  rw [hfilter, List.foldl_filter, patches]
  simp only [decide_eq_true_eq]

theorem filter_eq_singleton {α κ : Type} [DecidableEq κ] {g : α → κ} {l : List α} (h : (l.map g).Nodup) {a : α}
    (ha : a ∈ l) : l.filter (fun b => g b == g a) = [a] := by
  induction l with
  | nil => cases ha
  | cons b l ih =>
    rw [List.map_cons, List.nodup_cons] at h
    rcases List.mem_cons.1 ha with rfl | ha
    · rw [List.filter_cons, if_pos (by simp), List.filter_eq_nil_iff.2]
      intro b hb he
      exact h.1 (List.mem_map.2 ⟨b, hb, by simpa using he⟩)
    · rw [List.filter_cons, if_neg, ih h.2 ha]
      intro he
      exact h.1 (List.mem_map.2 ⟨a, ha, (beq_iff_eq.1 he).symm⟩)

theorem Reconciled.unique (h : Reconciled rt tenantId parent subs t t' news)
    (hnodup : (newNames rt.toLowerCase tenantId parent.id subs t).Nodup)
    (hu : Unique rt.toLowerCase tenantId parent.id subs t) : Unique rt.toLowerCase tenantId parent.id subs t' := by
  have hnew : ∀ c ∈ parts tenantId parent.id t, ∀ n ∈ news,
      nameKey rt.toLowerCase (reconciled rt tenantId parent subs t c).name ≠ nameKey rt.toLowerCase n.name := by
    intro c hc n hn he
    have hmem : nameKey rt.toLowerCase n.name ∈ newNames rt.toLowerCase tenantId parent.id subs t := by
      rw [← h.names_news]
      exact List.mem_map_of_mem hn
    have hnot := (List.mem_filter.1 hmem).2
    rw [← he, (same_reconciled c).name, Bool.not_eq_true', List.contains_eq_mem, decide_eq_false_iff_not] at hnot
    exact hnot (List.mem_map_of_mem hc)
  intro c hc d hd he hlisted
  rw [h.parts_eq, List.mem_append] at hc hd
  rcases hc with hc | hc
  · obtain ⟨c, hcp, rfl⟩ := List.mem_map.1 hc
    rcases hd with hd | hd
    · obtain ⟨d, hdp, rfl⟩ := List.mem_map.1 hd
      rw [(same_reconciled c).name] at he hlisted
      rw [(same_reconciled d).name] at he
      rw [hu c hcp d hdp he hlisted]
    · exact absurd he (hnew c hcp d hd)
  · rcases hd with hd | hd
    · obtain ⟨d, hdp, rfl⟩ := List.mem_map.1 hd
      exact absurd he.symm (hnew d hdp c hc)
    · rw [← h.names_news] at hnodup
      exact List.inj_on_of_nodup_map hnodup hc hd he

/-- The list leaves every part as it is. -/
theorem Reconciled.reconciled_again {rt' : Runtime} (hlower : rt'.toLowerCase = rt.toLowerCase)
    (h : Reconciled rt tenantId parent subs t t' news)
    (hnodup : (newNames rt.toLowerCase tenantId parent.id subs t).Nodup)
    (hu : Unique rt.toLowerCase tenantId parent.id subs t) (hc : c ∈ parts tenantId parent.id t') :
    patches rt' (kidsIn rt' tenantId parent.id t') parent subs c.id c = c ∧
      (isListed rt' (kidsIn rt' tenantId parent.id t') subs c.id = true ↔ c.isActive = true) := by
  have hu' := h.unique hnodup hu
  rw [← hlower] at hu'
  rw [patches_eq hu' hc, isListed_iff hu' hc, hlower]
  rw [h.parts_eq, List.mem_append] at hc
  rcases hc with hc | hc
  · obtain ⟨r, hr, rfl⟩ := List.mem_map.1 hc
    rw [(same_reconciled r).name, ← isListed_iff hu hr, reconciled, if_pos (mem_parts.1 hr).2]
    refine ⟨?_, Iff.rfl⟩
    cases hlisted : isListed rt (kidsIn rt tenantId parent.id t) subs r.id with
    | true =>
      have hactive : (patches rt (kidsIn rt tenantId parent.id t) parent subs r.id r).isActive = true := by
        rw [isActive_patches, hlisted, Bool.or_true]
      have hsame : { patches rt (kidsIn rt tenantId parent.id t) parent subs r.id r with isActive := true } =
          patches rt (kidsIn rt tenantId parent.id t) parent subs r.id r := by rw [← hactive]
      rw [hsame, patches_eq hu hr, foldl_patch_again]
    | false =>
      rw [← Bool.not_eq_true, isListed_iff hu hr, mem_listedNames] at hlisted
      have hnone : subs.filter (isNamed rt.toLowerCase (nameKey rt.toLowerCase r.name)) = [] :=
        List.filter_eq_nil_iff.2 fun sub hsub hnamed => hlisted ⟨sub, hsub, hnamed⟩
      rw [hnone]
      rfl
  · obtain ⟨sub, hsub, hnew, hn⟩ := h.mem_news hc
    have hkey : nameKey rt.toLowerCase c.name = nameKey rt.toLowerCase sub.name := by rw [hn, nameKey_newChild]
    have hitem := isNew_iff.1 hnew
    have hactive : c.isActive = true := by
      rw [hn]
      rfl
    rw [hkey]
    refine ⟨?_, iff_of_true (mem_listedNames.2 ⟨sub, hsub, by simp [isNamed, hitem.1]⟩) hactive⟩
    have hone : subs.filter (isNamed rt.toLowerCase (nameKey rt.toLowerCase sub.name)) = [sub] := by
      rw [newNames_eq] at hnodup
      rw [← filter_eq_singleton hnodup (List.mem_filter.2 ⟨hsub, hnew⟩), List.filter_filter]
      refine List.filter_congr fun s _ => ?_
      rw [Bool.eq_iff_iff, isNamed, Bool.and_eq_true, Bool.and_eq_true, isNew_iff, bne_iff_ne, beq_iff_eq]
      exact ⟨fun hs => ⟨hs.2, hs.1, hs.2 ▸ hitem.2⟩, fun hs => ⟨hs.2.1, hs.1⟩⟩
    rw [hone, List.foldl_cons, List.foldl_nil, hn, patch_newChild]

/-- The loop over a list goes through when every item stands for a part and fits. -/
theorem exists_syncSubs {i : ℕ} {f : ResourceRow → ResourceRow} {st : Sync} (hp : Progress rt tenantId parent t f [] st)
    (hfound : ∀ sub ∈ subs, trim sub.name ≠ "" →
      ∃ m, byName rt (kidsIn rt tenantId parent.id t) (trim sub.name) = some m ∧ checkRow (f m) = .ok ())
    (hfits : ∀ sub ∈ subs, trim sub.name ≠ "" → ∀ n, sub.capacity = some n → fitsInteger n = true) :
    ∃ st', syncSubs rt tenantId parent i subs st = .ok st' := by
  induction subs generalizing i f st with
  | nil => exact ⟨st, rfl⟩
  | cons sub subs ih =>
    rw [List.forall_mem_cons] at hfound hfits
    by_cases hname : trim sub.name = ""
    · refine exists_bind_ok (a := st) ?_ (ih hp hfound.2 hfits.2)
      rw [syncSub, if_pos hname]
    · obtain ⟨m, hby, hcheck⟩ := hfound.1 hname
      rw [checkRow_ok_iff] at hcheck
      have hpatched : checkRow (patch parent sub (f m)) = .ok () := by
        rw [checkRow_ok_iff]
        refine ⟨?_, hcheck.2⟩
        rw [patch]
        cases hn : sub.capacity with
        | none => exact hcheck.1
        | some n => exact hfits.1 hname n hn
      have hstep : syncSub rt tenantId parent i sub st =
          .ok ⟨st.table.save (patch parent sub (f m)),
            st.existing.map fun c => if c.id = (f m).id then patch parent sub (f m) else c,
            st.keepIds ++ [(f m).id]⟩ := by
        rw [syncSub, if_neg hname, hp.existing, byName_map hp.same, hby]
        exact bind_eq_ok.2 ⟨_, bind_eq_ok.2 ⟨(), hpatched, rfl⟩, rfl⟩
      refine exists_bind_ok hstep (ih (hp.patched (mem_of_byName hby)) (fun s hs hsname => ?_) hfits.2)
      obtain ⟨m', hby', hcheck'⟩ := hfound.2 s hs hsname
      refine ⟨m', hby', ?_⟩
      unfold patchAt
      split
      · rename_i he
        have hmem := (mem_kidsIn.1 (mem_of_byName hby)).1
        obtain rfl : m' = m := Table.eq_of_key (mem_kidsIn.1 (mem_of_byName hby')).1 hmem he
        exact hpatched
      · exact hcheck'

/-- **The same list again.** It changes nothing when no new name is listed twice and no two parts have one listed
name. -/
theorem Reconciled.settled (h : Reconciled rt tenantId parent subs t t' news)
    (hnodup : (newNames rt.toLowerCase tenantId parent.id subs t).Nodup)
    (hu : Unique rt.toLowerCase tenantId parent.id subs t) : Settled rt.toLowerCase tenantId parent subs t' := by
  intro rt' bookings hlower
  have hagain := fun c hc => h.reconciled_again (c := c) hlower hnodup hu hc
  have hfound : ∀ sub ∈ subs, trim sub.name ≠ "" → ∃ m,
      byName rt' (kidsIn rt' tenantId parent.id t') (trim sub.name) = some m ∧ checkRow (id m) = .ok () := by
    intro sub hsub hname
    cases hby : byName rt' (kidsIn rt' tenantId parent.id t') (trim sub.name) with
    | none =>
      have hnamed : isNamed rt.toLowerCase (nameKey rt.toLowerCase sub.name) sub = true := by simp [isNamed, hname]
      have hk := mem_listedNames.2 ⟨sub, hsub, hnamed⟩
      rw [← (h.exact_iff_nodup.2 hnodup).listed] at hk
      obtain ⟨c, hc, hkey⟩ := List.mem_map.1 hk
      refine absurd ?_ (byName_none.1 hby c (mem_kidsIn_iff.2 (List.mem_filter.1 hc).1))
      rw [hlower]
      exact hkey
    | some m =>
      refine ⟨m, rfl, ?_⟩
      have hm := mem_kidsIn_iff.1 (mem_of_byName hby)
      have hlisted : isListed rt' (kidsIn rt' tenantId parent.id t') subs m.id = true :=
        List.any_eq_true.2 ⟨sub, hsub, decide_eq_true (target_some.2 ⟨hname, m, hby, rfl⟩)⟩
      have hactive := (hagain m hm).2.1 hlisted
      rw [h.parts_eq, List.mem_append] at hm
      rcases hm with hm | hm
      · obtain ⟨r, hr, rfl⟩ := List.mem_map.1 hm
        rw [reconciled, if_pos (mem_parts.1 hr).2] at hactive
        exact h.checked r hr hactive
      · exact h.checked_new m hm
  obtain ⟨st, hst⟩ := exists_syncSubs (i := 1) Progress.start hfound h.fits
  obtain ⟨f, news', hp, hd⟩ := syncSubs_spec Progress.start hst
  obtain rfl : news' = [] := by
    have hitems : subs.filter (isNew rt' (kidsIn rt' tenantId parent.id t')) = [] := by
      rw [List.filter_eq_nil_iff]
      intro sub hsub hnew
      rw [isNew, Bool.and_eq_true, bne_iff_ne, Option.isNone_iff_eq_none] at hnew
      obtain ⟨m, hby, -⟩ := hfound sub hsub hnew.1
      rw [hby] at hnew
      cases hnew.2
    have hcreated := hd.created
    rw [hitems] at hcreated
    exact List.forall₂_nil_left_iff.1 hcreated
  have hkept : ∀ c ∈ parts tenantId parent.id t', f c = c := fun c hc => (hd.patched c).trans (hagain c hc).1
  have hremoved : removedOf st = [] := by
    refine List.eq_nil_iff_forall_not_mem.2 fun c hc => ?_
    obtain ⟨k, hk, hunder, rfl, hkeep, hactive⟩ := hp.mem_removedOf hc
    have hpart := mem_parts.2 ⟨hk, hunder⟩
    rw [hkept k hpart] at hactive
    exact hkeep ((hd.kept k hk).2 (.inr ((hagain k hpart).2.2 hactive)))
  have htable : st.table = t' := by
    refine Table.ext ?_
    rw [hp.rows, List.append_nil, List.append_nil]
    conv_rhs => rw [← List.map_id t'.rows]
    refine List.map_congr_left fun r hr => ?_
    split
    · rename_i hunder
      exact hkept r (mem_parts.2 ⟨hr, hunder⟩)
    · rfl
  refine bind_eq_ok.2 ⟨st, hst, bind_eq_ok.2 ⟨(), ?_, ?_⟩⟩
  · show assertNoBookings rt' bookings tenantId (removedOf st) = .ok ()
    rw [hremoved]
    rfl
  · rw [pure_eq_ok, ← htable]
    show deactivate st.table (removedOf st) = st.table
    rw [hremoved]
    rfl

/-- The database, when it returns the row `id` after the others. -/
def lastly (rt : Runtime) (id : Uuid) : Runtime where
  toLowerCase := rt.toLowerCase
  now := rt.now
  newId := rt.newId
  order rows := rows.filter (fun r => !(r.id == id)) ++ rows.filter fun r => r.id == id
  order_perm rows := List.perm_append_comm.trans (List.filter_append_perm _ rows)
  fillsNull := rt.fillsNull

/-- Of two parts with one listed name the list makes one inactive, and in another order it takes that one. -/
theorem Reconciled.unique_of_settled (h : Reconciled rt tenantId parent subs t t' news)
    (hs : Settled rt.toLowerCase tenantId parent subs t') : Unique rt.toLowerCase tenantId parent.id subs t := by
  intro c hc d hd hname hlisted
  by_contra hne
  obtain ⟨e, he, hkey, hnot⟩ : ∃ e ∈ parts tenantId parent.id t,
      nameKey rt.toLowerCase e.name = nameKey rt.toLowerCase c.name ∧
        isListed rt (kidsIn rt tenantId parent.id t) subs e.id = false := by
    cases hcl : isListed rt (kidsIn rt tenantId parent.id t) subs c.id with
    | false => exact ⟨c, hc, rfl, hcl⟩
    | true =>
      refine ⟨d, hd, hname.symm, ?_⟩
      rw [← Bool.not_eq_true]
      exact fun hdl => hne (eq_of_isListed hc hd hcl hdl hname)
  have hsame : Same e (reconciled rt tenantId parent subs t e) := same_reconciled e
  have hpart : reconciled rt tenantId parent subs t e ∈ parts tenantId parent.id t' := by
    rw [h.parts_eq]
    exact List.mem_append_left _ (List.mem_map_of_mem he)
  have hinactive : (reconciled rt tenantId parent subs t e).isActive = false := by
    rw [reconciled, if_pos (mem_parts.1 he).2]
    exact hnot
  -- in this order the item that lists the name stands for the other part
  have hfound : isListed (lastly rt e.id) (kidsIn (lastly rt e.id) tenantId parent.id t') subs e.id = true := by
    rw [← hkey] at hlisted
    obtain ⟨sub, hsub, hnamed⟩ := mem_listedNames.1 hlisted
    rw [isNamed, Bool.and_eq_true, bne_iff_ne, beq_iff_eq] at hnamed
    refine List.any_eq_true.2 ⟨sub, hsub, decide_eq_true (target_some.2 ⟨hnamed.1, ?_⟩)⟩
    have hmem : reconciled rt tenantId parent subs t e ∈
        ((parts tenantId parent.id t').filter fun r => r.id == e.id).reverse := by
      rw [List.mem_reverse, List.mem_filter]
      exact ⟨hpart, by rw [hsame.id, beq_self_eq_true]⟩
    have hfind : (((parts tenantId parent.id t').filter fun r => r.id == e.id).reverse.find?
        fun c => rt.toLowerCase (trim c.name) == rt.toLowerCase (trim sub.name)).isSome = true := by
      refine List.find?_isSome.2 ⟨_, hmem, ?_⟩
      rw [hsame.name, beq_iff_eq]
      exact hnamed.2.symm
    obtain ⟨m, hm⟩ := Option.isSome_iff_exists.1 hfind
    refine ⟨m, ?_, ?_⟩
    · rw [parts] at hm
      rw [byName, kidsIn, lastly, List.reverse_append, List.find?_append, hm]
      rfl
    · have hid := (List.mem_filter.1 (List.mem_reverse.1 (List.mem_of_find?_eq_some hm))).2
      exact beq_iff_eq.1 hid
  obtain ⟨news', h'⟩ := reconciled_of_syncSubResources (hs (lastly rt e.id) .empty rfl)
  have hrows := h'.rows
  obtain rfl : news' = [] := by
    have hlength := congrArg List.length hrows
    rw [List.length_append, List.length_map] at hlength
    exact List.length_eq_zero_iff.1 (by omega)
  rw [List.append_nil] at hrows
  have hfix : ∀ r ∈ t'.rows, r = reconciled (lastly rt e.id) tenantId parent subs t' r := by
    rw [← List.map_inj_left]
    exact (List.map_id' _).trans hrows
  have hactive := congrArg (fun r => r.isActive) (hfix _ (mem_parts.1 hpart).1)
  rw [hinactive, reconciled, if_pos (mem_parts.1 hpart).2, hsame.id, hfound] at hactive
  cases hactive

end Again

/-- **Exact and idempotent.** After a call that was not rejected there is one active part for each name of the list, and
the same list changes nothing from then on, if and only if no new name was listed twice and no two parts had one listed
name. -/
theorem exact_and_settled_iff (h : syncSubResources rt bookings tenantId parent subs t = .ok t') :
    (Exact rt.toLowerCase tenantId parent.id subs t' ∧ Settled rt.toLowerCase tenantId parent subs t') ↔
      (newNames rt.toLowerCase tenantId parent.id subs t).Nodup ∧
        Unique rt.toLowerCase tenantId parent.id subs t := by
  obtain ⟨news, hr⟩ := reconciled_of_syncSubResources h
  constructor
  · rintro ⟨hexact, hsettled⟩
    exact ⟨hr.exact_iff_nodup.1 hexact, hr.unique_of_settled hsettled⟩
  · rintro ⟨hnodup, hu⟩
    exact ⟨hr.exact_iff_nodup.2 hnodup, hr.settled hnodup hu⟩

end Reconciled

/-! ### Two cases -/

def hall : ParentObject where
  id := "hall"
  capacity := some 10
  region := some "HK"
  location := none
  assetType := some "Meeting Room"
  equipment := .null
  requiresApproval := some false
  departmentId := none

def part (id : Uuid) (name : String) : ResourceRow := newChild "t" hall id { name := name }

/-- A part is kept with another capacity, an inactive one comes back, and one is new; a fourth one was not listed. -/
def stageAtticAnnex : List SubResourceWrite :=
  [{ name := "stage", capacity := some 4 }, { name := " attic" }, { name := "annex" }]

def withFoyer : Table ResourceRow :=
  ⟨[part "p1" "stage", { part "p2" "attic" with isActive := false }, part "p3" "foyer"], by decide⟩

def withAnnex : Table ResourceRow :=
  ⟨[{ part "p1" "stage" with capacity := 4 }, part "p2" "attic", { part "p3" "foyer" with isActive := false },
    part "new3" "annex"], by decide⟩

theorem exact_and_settled_annex :
    Exact id "t" "hall" stageAtticAnnex withAnnex ∧ Settled id "t" hall stageAtticAnnex withAnnex := by
  have h : syncSubResources (runtime "new") .empty "t" hall stageAtticAnnex withFoyer = .ok withAnnex := rfl
  have hnames : ((parts "t" "hall" withFoyer).map fun c => nameKey id c.name).Nodup := by decide
  exact (exact_and_settled_iff h).2 ⟨by decide, fun c hc d hd hname _ => List.inj_on_of_nodup_map hnames hc hd hname⟩

/-- A new name that is listed twice becomes two parts. -/
theorem listed_twice :
    ∃ t', syncSubResources (runtime "pod") .empty "t" hall [{ name := "pod" }, { name := "pod " }] .empty = .ok t' ∧
      ¬ Exact id "t" "hall" [{ name := "pod" }, { name := "pod " }] t' := by
  refine ⟨⟨[part "pod1" "pod", part "pod2" "pod"], by decide⟩, rfl, fun h => ?_⟩
  have hone := h.one
  revert hone
  decide

end BookingSystem.Contracts.SubRooms
