import BookingSystem.Base.Run
import BookingSystem.Effects.AuditChain

/-!
# Audit entries of requests side by side

`Save` looks for the newest entry without a lock, in a transaction that does not see what others have not committed. Two
requests that look at the same time point to the same entry, and the chain forks. It does not if each lookup comes when
no other transaction of the tenant has an entry under way, and if the entry saved last is the newest one by time and
identifier (`never_forks`).
-/

namespace BookingSystem.Concurrency.AuditForks

open Base Model.AuditChain Effects.AuditChain

variable {ι : Type} [DecidableEq ι] {sha256 : List Char → List Char} {numeric : JsonNumber → JsonNumber}

def ofTenant (tenantId : PgUuid) (rows : List AuditRow) : List AuditRow :=
  rows.filter fun r => decide (r.tenantId = tenantId)

def prevOf (r : AuditRow) : List Char := r.prevHash.getD []

/-- **The entries form one chain**: no two point to the same one, each points to the hash of one of them or to nothing,
and one points to nothing. -/
structure OneChain (rows : List AuditRow) : Prop where
  distinct : (rows.map prevOf).Nodup
  linked : ∀ r ∈ rows, prevOf r = [] ∨ ∃ s ∈ rows, s.entryHash = some (prevOf r)
  first : rows ≠ [] → ∃ r ∈ rows, prevOf r = []

/-- **A lookup in turn**: no other transaction has an entry of the tenant that it has not committed, nor a `Save` of it
under way, and of the entries that are visible the last one saved is the newest. -/
def InTurn (st : ChainState ι) : ChainEvent ι → Prop
  | .lookup tx call =>
    (∀ p ∈ st.pending, p.2.tenantId = call.entry.tenantId → p.1 = tx) ∧
      (∀ tx' call' prevHash, st.saving tx' = some (call', prevHash) → call'.entry.tenantId ≠ call.entry.tenantId) ∧
      ∀ last ∈ (ofTenant call.entry.tenantId (st.visible tx)).getLast?,
        ∀ s ∈ ofTenant call.entry.tenantId (st.visible tx), s.key ≤ last.key
  | .insert _ | .commit _ | .rollback _ => True

/-! ### Rows in a row -/

def Linked : List Char → List AuditRow → Prop
  | _, [] => True
  | expected, r :: rest => prevOf r = expected ∧ Linked (r.entryHash.getD []) rest

variable {expected : List Char} {rows rows' : List AuditRow}

theorem linked_append :
    Linked expected (rows ++ rows') ↔ Linked expected rows ∧ Linked (lastHash expected rows) rows' := by
  induction rows generalizing expected with
  | nil => simp [Linked, lastHash]
  | cons r rows ih => simp only [List.cons_append, Linked, lastHash, ih, and_assoc]

theorem Linked.prevs (h : Linked expected rows) :
    rows.map prevOf = (expected :: rows.map fun r => r.entryHash.getD []).dropLast := by
  induction rows generalizing expected with
  | nil => rfl
  | cons r rows ih =>
    obtain ⟨hprev, hrest⟩ := h
    rw [List.map_cons, ih hrest, List.map_cons, List.dropLast_cons_of_ne_nil (List.cons_ne_nil _ _), hprev]

/-- A row of an entry that points to nothing or to a digest. -/
def Built (sha256 : List Char → List Char) (numeric : JsonNumber → JsonNumber) (r : AuditRow) : Prop :=
  ∃ e prevHash, r = rowOf sha256 numeric e prevHash ∧ us ∉ prevHash

/-- **Rows in a row with different identifiers are one chain.** -/
theorem Linked.oneChain (htelling : Telling sha256) (h : Linked [] rows) (hbuilt : ∀ r ∈ rows, Built sha256 numeric r)
    (hunique : (rows.map AuditRow.id).Nodup) : OneChain rows := by
  have hhash : ∀ r ∈ rows, ∃ bytes, r.entryHash = some (sha256 bytes) := fun r hr => by
    obtain ⟨e, prevHash, rfl, -⟩ := hbuilt r hr
    exact ⟨_, rfl⟩
  have hhashes : (rows.map fun r => r.entryHash.getD []).Nodup := by
    refine List.Nodup.map_on (fun r hr s hs heq => ?_) (List.Nodup.of_map _ hunique)
    obtain ⟨e, prevHash, hre, hus⟩ := hbuilt r hr
    obtain ⟨e', prevHash', hse, hus'⟩ := hbuilt s hs
    refine List.inj_on_of_nodup_map hunique hr hs ?_
    rw [hre, hse] at heq ⊢
    have hsame : (rowOf sha256 numeric e prevHash).entryHash = (rowOf sha256 numeric e' prevHash').entryHash :=
      congrArg some heq
    exact id_eq_of_entryHash htelling hus hus' hsame
  have hnil : [] ∉ rows.map fun r => r.entryHash.getD [] := fun hmem => by
    obtain ⟨r, hr, hnil⟩ := List.mem_map.1 hmem
    obtain ⟨bytes, hbytes⟩ := hhash r hr
    rw [hbytes] at hnil
    exact htelling.ne_nil bytes hnil
  refine ⟨?_, fun r hr => ?_, fun hne => ?_⟩
  · rw [h.prevs]
    exact (List.nodup_cons.2 ⟨hnil, hhashes⟩).sublist (List.dropLast_sublist _)
  · have hmem : prevOf r ∈ rows.map prevOf := List.mem_map_of_mem hr
    rw [h.prevs] at hmem
    rcases List.mem_cons.1 ((List.dropLast_sublist _).mem hmem) with hprev | hprev
    · exact .inl hprev
    · obtain ⟨s, hs, hhash'⟩ := List.mem_map.1 hprev
      obtain ⟨bytes, hbytes⟩ := hhash s hs
      rw [hbytes] at hhash'
      exact .inr ⟨s, hs, by rw [hbytes, ← hhash']; rfl⟩
  · obtain ⟨r, rest, rfl⟩ := List.exists_cons_of_ne_nil hne
    exact ⟨r, List.mem_cons_self, h.1⟩

/-! ### The invariant -/

def chainRows (st : ChainState ι) (tenantId : PgUuid) : List AuditRow := ofTenant tenantId st.all

/-- All rows of a tenant are in a row, what is not committed is of one transaction, and a `Save` under way is of that
transaction and has found the last row. -/
structure Inv (sha256 : List Char → List Char) (numeric : JsonNumber → JsonNumber) (st : ChainState ι) : Prop where
  built : ∀ r ∈ st.all, Built sha256 numeric r
  unique : (st.all.map AuditRow.id).Nodup
  linked : ∀ t, Linked [] (chainRows st t)
  alone : ∀ p ∈ st.pending, ∀ p' ∈ st.pending, p.2.tenantId = p'.2.tenantId → p.1 = p'.1
  found : ∀ tx call prevHash, st.saving tx = some (call, prevHash) →
    prevHash = lastHash [] (chainRows st call.entry.tenantId)
  holder : ∀ tx call prevHash, st.saving tx = some (call, prevHash) →
    ∀ p ∈ st.pending, p.2.tenantId = call.entry.tenantId → p.1 = tx
  single : ∀ tx call prevHash tx' call' prevHash', st.saving tx = some (call, prevHash) →
    st.saving tx' = some (call', prevHash') → call'.entry.tenantId = call.entry.tenantId → tx' = tx

theorem mem_ofTenant {t : PgUuid} {r : AuditRow} : r ∈ ofTenant t rows ↔ r ∈ rows ∧ r.tenantId = t := by simp [ofTenant]

theorem ofTenant_append (t : PgUuid) : ofTenant t (rows ++ rows') = ofTenant t rows ++ ofTenant t rows' :=
  List.filter_append _ _

theorem ofTenant_eq_nil {t : PgUuid} (h : ∀ r ∈ rows, r.tenantId ≠ t) : ofTenant t rows = [] :=
  List.filter_eq_nil_iff.2 fun r hr => by simpa using h r hr

variable {st : ChainState ι} {tx : ι}

omit [DecidableEq ι] in
theorem ofTenant_filter {t : PgUuid} {pending : List (ι × AuditRow)} {q : ι × AuditRow → Bool}
    (h : ∀ p ∈ pending, p.2.tenantId = t → q p = true) :
    ofTenant t ((pending.filter q).map Prod.snd) = ofTenant t (pending.map Prod.snd) := by
  unfold ofTenant
  rw [List.filter_map, List.filter_map, List.filter_filter]
  congr 1
  refine List.filter_congr fun p hp => ?_
  by_cases htenant : p.2.tenantId = t
  · simp [htenant, h p hp htenant]
  · simp [htenant]

omit [DecidableEq ι] in
theorem ofTenant_filter_nil {t : PgUuid} {pending : List (ι × AuditRow)} {q : ι × AuditRow → Bool}
    (h : ∀ p ∈ pending, p.2.tenantId = t → q p = false) : ofTenant t ((pending.filter q).map Prod.snd) = [] := by
  refine ofTenant_eq_nil fun r hr htenant => ?_
  obtain ⟨p, hp, rfl⟩ := List.mem_map.1 hr
  obtain ⟨hmem, hq⟩ := List.mem_filter.1 hp
  rw [h p hmem htenant] at hq
  cases hq

theorem visible_eq {t : PgUuid} (h : ∀ p ∈ st.pending, p.2.tenantId = t → p.1 = tx) :
    ofTenant t (st.visible tx) = chainRows st t := by
  rw [chainRows, ChainState.all, ChainState.visible, ofTenant_append, ofTenant_append, ChainState.own,
    ofTenant_filter fun p hp htenant => decide_eq_true (h p hp htenant)]

/-- The lookup of a transaction in turn finds the last row of the chain. -/
theorem lookup_in_turn (h : Inv sha256 numeric st) {call : SaveCall} (hturn : InTurn st (.lookup tx call)) :
    lookupPrevHash (st.visible tx) call.entry.tenantId = lastHash [] (chainRows st call.entry.tenantId) := by
  obtain ⟨halone, -, hnewest⟩ := hturn
  rw [visible_eq halone] at hnewest
  have hmem : ∀ r, r ∈ chainOf (st.visible tx) call.entry.tenantId ↔ r ∈ chainRows st call.entry.tenantId := fun r => by
    rw [mem_chainOf, ← visible_eq halone, mem_ofTenant]
    refine ⟨fun hr => ⟨hr.1, hr.2.1⟩, fun hr => ⟨hr.1, hr.2, ?_⟩⟩
    have hall := (mem_ofTenant.1 (visible_eq halone ▸ mem_ofTenant.2 hr)).1
    obtain ⟨e, prevHash, rfl, -⟩ := h.built r hall
    rfl
  unfold lookupPrevHash
  rcases List.eq_nil_or_concat (chainRows st call.entry.tenantId) with hnil | ⟨init, last, hlast⟩
  · have hempty : chainOf (st.visible tx) call.entry.tenantId = [] :=
      List.eq_nil_iff_forall_not_mem.2 fun r hr => by
        rw [hmem, hnil] at hr
        cases hr
    rw [hnil, hempty]
    rfl
  · rw [List.concat_eq_append] at hlast
    have hlastmem : last ∈ chainRows st call.entry.tenantId := by
      rw [hlast]
      simp
    obtain ⟨g, hg⟩ : ∃ g, (chainOf (st.visible tx) call.entry.tenantId).getLast? = some g := by
      cases hlookup : (chainOf (st.visible tx) call.entry.tenantId).getLast? with
      | none =>
        have hin := (hmem last).2 hlastmem
        rw [List.getLast?_eq_none_iff.1 hlookup] at hin
        cases hin
      | some g => exact ⟨g, rfl⟩
    have hgmem := (hmem g).1 (List.mem_of_getLast? hg)
    have hle := hnewest last (by rw [hlast, List.getLast?_concat]; rfl) g hgmem
    have hge := key_le_getLast ((hmem last).2 hlastmem) hg
    have hsame : g = last :=
      List.inj_on_of_nodup_map h.unique (mem_ofTenant.1 hgmem).1 (mem_ofTenant.1 hlastmem).1
        (id_eq_of_key (le_antisymm hle hge))
    rw [hg, hlast, lastHash_append_singleton, hsame]
    rfl

theorem Inv.mine_or_others (h : Inv sha256 numeric st) (t : PgUuid) (tx : ι) :
    (∀ p ∈ st.pending, p.2.tenantId = t → p.1 = tx) ∨ ∀ p ∈ st.pending, p.2.tenantId = t → p.1 ≠ tx := by
  by_cases hmine : ∃ p ∈ st.pending, p.2.tenantId = t ∧ p.1 = tx
  · obtain ⟨p, hp, htenant, rfl⟩ := hmine
    exact .inl fun p' hp' htenant' => h.alone p' hp' p hp (htenant'.trans htenant.symm)
  · exact .inr fun p hp htenant htx => hmine ⟨p, hp, htenant, htx⟩

theorem update_saving {saving : ι → Option (SaveCall × List Char)} {tx tx' : ι} {value : Option (SaveCall × List Char)}
    {found : SaveCall × List Char} (h : Function.update saving tx value tx' = some found) :
    (tx' = tx ∧ value = some found) ∨ (tx' ≠ tx ∧ saving tx' = some found) := by
  by_cases htx : tx' = tx
  · rw [htx, Function.update_self] at h
    exact .inl ⟨htx, h⟩
  · rw [Function.update_of_ne htx] at h
    exact .inr ⟨htx, h⟩

theorem inv_lookup (h : Inv sha256 numeric st) {call : SaveCall} (hturn : InTurn st (.lookup tx call)) :
    Inv sha256 numeric (chainStep sha256 numeric st (.lookup tx call)) := by
  simp only [chainStep]
  split
  · have hlookup := lookup_in_turn h hturn
    obtain ⟨halone, hidle, -⟩ := hturn
    exact {
      built := h.built
      unique := h.unique
      linked := h.linked
      alone := h.alone
      found := fun tx' call' prevHash hsaving => by
        rcases update_saving hsaving with ⟨-, hnew⟩ | ⟨-, hold⟩
        · cases hnew
          exact hlookup
        · exact h.found tx' call' prevHash hold
      holder := fun tx' call' prevHash hsaving => by
        rcases update_saving hsaving with ⟨htx, hnew⟩ | ⟨-, hold⟩
        · cases hnew
          exact htx ▸ halone
        · exact h.holder tx' call' prevHash hold
      single := fun tx₁ call₁ prev₁ tx₂ call₂ prev₂ h₁ h₂ htenant => by
        rcases update_saving h₁ with ⟨htx₁, hnew₁⟩ | ⟨-, hold₁⟩
        · rcases update_saving h₂ with ⟨htx₂, -⟩ | ⟨-, hold₂⟩
          · rw [htx₁, htx₂]
          · cases hnew₁
            exact absurd htenant (hidle tx₂ call₂ prev₂ hold₂)
        · rcases update_saving h₂ with ⟨-, hnew₂⟩ | ⟨-, hold₂⟩
          · cases hnew₂
            exact absurd htenant.symm (hidle tx₁ call₁ prev₁ hold₁)
          · exact h.single tx₁ call₁ prev₁ tx₂ call₂ prev₂ hold₁ hold₂ htenant }
  · exact h

omit [DecidableEq ι] in
theorem Inv.fewer (h : Inv sha256 numeric st) {st' : ChainState ι} (hbuilt : ∀ r ∈ st'.all, Built sha256 numeric r)
    (hunique : (st'.all.map AuditRow.id).Nodup) (hlinked : ∀ t, Linked [] (chainRows st' t))
    (hsaving : ∀ tx call prevHash, st'.saving tx = some (call, prevHash) → st.saving tx = some (call, prevHash) ∧
      chainRows st' call.entry.tenantId = chainRows st call.entry.tenantId)
    (hpending : ∀ p ∈ st'.pending, p ∈ st.pending ∨ ∃ call prevHash, st.saving p.1 = some (call, prevHash) ∧
      p.2.tenantId = call.entry.tenantId ∧ st'.saving p.1 = none) : Inv sha256 numeric st' where
  built := hbuilt
  unique := hunique
  linked := hlinked
  alone := fun p hp p' hp' htenant => by
    rcases hpending p hp with hold | ⟨call, prevHash, hcall, htenant₁, -⟩
    · rcases hpending p' hp' with hold' | ⟨call', prevHash', hcall', htenant₂, -⟩
      · exact h.alone p hold p' hold' htenant
      · exact h.holder p'.1 call' prevHash' hcall' p hold (htenant.trans htenant₂)
    · rcases hpending p' hp' with hold' | ⟨call', prevHash', hcall', htenant₂, -⟩
      · exact (h.holder p.1 call prevHash hcall p' hold' (htenant.symm.trans htenant₁)).symm
      · exact (h.single p.1 call prevHash p'.1 call' prevHash' hcall hcall'
          (htenant₂.symm.trans (htenant.symm.trans htenant₁))).symm
  found := fun tx call prevHash hcall => by
    obtain ⟨hold, hsame⟩ := hsaving tx call prevHash hcall
    rw [hsame]
    exact h.found tx call prevHash hold
  holder := fun tx call prevHash hcall p hp htenant => by
    obtain ⟨hold, -⟩ := hsaving tx call prevHash hcall
    rcases hpending p hp with hp | ⟨call', prevHash', hcall', htenant', hnone⟩
    · exact h.holder tx call prevHash hold p hp htenant
    · exact h.single tx call prevHash p.1 call' prevHash' hold hcall' (htenant'.symm.trans htenant)
  single := fun tx call prevHash tx' call' prevHash' hcall hcall' =>
    h.single tx call prevHash tx' call' prevHash' (hsaving tx call prevHash hcall).1
      (hsaving tx' call' prevHash' hcall').1

theorem Inv.drop (h : Inv sha256 numeric st) (tx : ι) :
    Inv sha256 numeric { st with saving := Function.update st.saving tx none } := by
  refine h.fewer h.built h.unique h.linked (fun tx' call prevHash hsaving => ?_) fun p hp => .inl hp
  rcases update_saving hsaving with ⟨-, hnone⟩ | ⟨-, hold⟩
  · cases hnone
  · exact ⟨hold, rfl⟩

theorem us_notMem_lastHash (htelling : Telling sha256) (hbuilt : ∀ r ∈ rows, Built sha256 numeric r) :
    us ∉ lastHash [] rows := by
  rcases List.eq_nil_or_concat rows with rfl | ⟨init, last, rfl⟩
  · exact List.not_mem_nil
  · obtain ⟨e, prevHash, hlast, -⟩ := hbuilt last (by simp)
    rw [List.concat_eq_append, lastHash_append_singleton, hlast]
    exact htelling.us_notMem _

theorem ofTenant_singleton (t : PgUuid) (r : AuditRow) : ofTenant t [r] = if r.tenantId = t then [r] else [] := by
  unfold ofTenant
  split
  · rename_i htenant
    exact List.filter_eq_self.2 fun s hs => by
      rw [List.mem_singleton.1 hs]
      exact decide_eq_true htenant
  · rename_i htenant
    exact ofTenant_eq_nil fun s hs => by
      rw [List.mem_singleton.1 hs]
      exact htenant

/-- A `Save` that ends with a row: the row comes last in the chain of its tenant. -/
theorem Inv.save (htelling : Telling sha256) (h : Inv sha256 numeric st) {call : SaveCall} {prevHash : List Char}
    (hsaving : st.saving tx = some (call, prevHash)) (hnew : call.entry.id ∉ st.all.map AuditRow.id) :
    Inv sha256 numeric { st with
      pending := st.pending ++ [(tx, rowOf sha256 numeric call.entry prevHash)]
      saving := Function.update st.saving tx none } := by
  have hprev := h.found tx call prevHash hsaving
  have hus : us ∉ prevHash := by
    rw [hprev]
    exact us_notMem_lastHash htelling fun r hr => h.built r (mem_ofTenant.1 hr).1
  have hall : ∀ saving, ({ st with
      pending := st.pending ++ [(tx, rowOf sha256 numeric call.entry prevHash)]
      saving := saving } : ChainState ι).all =
        st.all ++ [rowOf sha256 numeric call.entry prevHash] := fun saving => by simp [ChainState.all]
  refine h.fewer (fun r hr => ?_) ?_ (fun t => ?_) (fun tx' call' prev' hsaving' => ?_) fun p hp => ?_
  · rw [hall] at hr
    rcases List.mem_append.1 hr with hr | hr
    · exact h.built r hr
    · exact ⟨call.entry, prevHash, List.mem_singleton.1 hr, hus⟩
  · rw [hall, List.map_append, List.nodup_append]
    refine ⟨h.unique, List.nodup_singleton _, fun id hid id' hid' heq => hnew ?_⟩
    rw [List.map_singleton, List.mem_singleton] at hid'
    rw [heq, hid'] at hid
    exact hid
  · rw [chainRows, hall, ofTenant_append, linked_append, ofTenant_singleton]
    refine ⟨h.linked t, ?_⟩
    split
    · rename_i htenant
      subst htenant
      exact ⟨(getD_nullIf prevHash).trans hprev, trivial⟩
    · trivial
  · rcases update_saving hsaving' with ⟨-, hnone⟩ | ⟨hne, hold⟩
    · cases hnone
    · -- the row is of another tenant than the other `Save`
      have htenant : (rowOf sha256 numeric call.entry prevHash).tenantId ≠ call'.entry.tenantId := fun htenant =>
        hne (h.single tx call prevHash tx' call' prev' hsaving hold htenant.symm)
      rw [chainRows, hall, ofTenant_append, ofTenant_singleton, if_neg htenant, List.append_nil]
      exact ⟨hold, rfl⟩
  · rcases List.mem_append.1 hp with hp | hp
    · exact .inl hp
    · rw [List.mem_singleton.1 hp]
      exact .inr ⟨call, prevHash, hsaving, rfl, Function.update_self ..⟩

theorem inv_insert (htelling : Telling sha256) (h : Inv sha256 numeric st) :
    Inv sha256 numeric (chainStep sha256 numeric st (.insert tx)) := by
  simp only [chainStep]
  split
  · rename_i call prevHash hsaving
    rw [insertedRow_eq]
    split
    · rename_i haccepts
      simp only [accepts, Bool.and_eq_true, decide_eq_true_eq] at haccepts
      exact h.save htelling hsaving haccepts.2
    · simpa using h.drop tx
  · exact h

theorem inv_commit (h : Inv sha256 numeric st) : Inv sha256 numeric (chainStep sha256 numeric st (.commit tx)) := by
  simp only [chainStep]
  split
  · rename_i hidle
    have hperm : (st.visible tx ++ (st.others tx).map Prod.snd).Perm st.all := by
      unfold ChainState.visible ChainState.own ChainState.others ChainState.all
      rw [List.append_assoc, ← List.map_append]
      refine (List.Perm.map _ ?_).append_left _
      simpa using List.filter_append_perm (fun p : ι × AuditRow => decide (p.1 = tx)) st.pending
    have hrows : ∀ t,
        chainRows { st with table := st.visible tx, pending := st.others tx } t = chainRows st t := fun t => by
      rw [chainRows, ChainState.all, ofTenant_append]
      rcases h.mine_or_others t tx with hmine | hother
      · rw [visible_eq hmine, ChainState.others, ofTenant_filter_nil fun p hp ht => by simpa using hmine p hp ht,
          List.append_nil]
      · rw [ChainState.visible, ofTenant_append, ChainState.own, ChainState.others,
          ofTenant_filter_nil fun p hp ht => decide_eq_false (hother p hp ht),
          ofTenant_filter fun p hp ht => decide_eq_true (hother p hp ht), List.append_nil, ← ofTenant_append]
        rfl
    refine h.fewer (fun r hr => h.built r (hperm.mem_iff.1 hr)) ((hperm.map _).nodup_iff.2 h.unique)
      (fun t => by rw [hrows]; exact h.linked t) (fun tx' call prevHash hsaving => ⟨hsaving, hrows _⟩)
      fun p hp => .inl (List.mem_filter.1 hp).1
  · exact h

theorem inv_rollback (h : Inv sha256 numeric st) : Inv sha256 numeric (chainStep sha256 numeric st (.rollback tx)) := by
  simp only [chainStep]
  have hsublist : (st.table ++ (st.others tx).map Prod.snd).Sublist st.all :=
    (List.filter_sublist.map Prod.snd).append_left _
  have hsame : ∀ t saving, (∀ p ∈ st.pending, p.2.tenantId = t → p.1 ≠ tx) →
      chainRows { st with pending := st.others tx, saving := saving } t = chainRows st t := fun t saving hother => by
    rw [chainRows, ChainState.all, ofTenant_append, ChainState.others,
      ofTenant_filter fun p hp ht => decide_eq_true (hother p hp ht), ← ofTenant_append]
    rfl
  refine h.fewer (fun r hr => h.built r (hsublist.mem hr)) (h.unique.sublist (hsublist.map _)) (fun t => ?_)
    (fun tx' call prevHash hsaving => ?_) fun p hp => .inl (List.mem_filter.1 hp).1
  · rcases h.mine_or_others t tx with hmine | hother
    · -- the rows of the transaction were the last ones of the tenant
      have hlinked := h.linked t
      rw [chainRows, ChainState.all, ofTenant_append, linked_append] at hlinked
      rw [chainRows, ChainState.all, ofTenant_append, ChainState.others,
        ofTenant_filter_nil fun p hp ht => by simpa using hmine p hp ht, List.append_nil]
      exact hlinked.1
    · rw [hsame t _ hother]
      exact h.linked t
  · rcases update_saving hsaving with ⟨-, hnone⟩ | ⟨hne, hold⟩
    · cases hnone
    · exact ⟨hold, hsame _ _ fun p hp ht htx => hne ((h.holder tx' call prevHash hold p hp ht).symm.trans htx)⟩

theorem inv_step (htelling : Telling sha256) (h : Inv sha256 numeric st) {ev : ChainEvent ι} (hturn : InTurn st ev) :
    Inv sha256 numeric (chainStep sha256 numeric st ev) := by
  cases ev with
  | lookup tx call => exact inv_lookup h hturn
  | insert tx => exact inv_insert htelling h
  | commit tx => exact inv_commit h
  | rollback tx => exact inv_rollback h

omit [DecidableEq ι] in
theorem inv_init : Inv sha256 numeric ({} : ChainState ι) where
  built := fun r hr => by cases hr
  unique := List.nodup_nil
  linked := fun _ => trivial
  alone := fun p hp => by cases hp
  found := fun _ _ _ h => by cases h
  holder := fun _ _ _ h => by cases h
  single := fun _ _ _ _ _ _ h => by cases h

omit [DecidableEq ι] in
theorem Inv.oneChain (htelling : Telling sha256) (h : Inv sha256 numeric st) (t : PgUuid) :
    OneChain (ofTenant t st.table) := by
  have hlinked := h.linked t
  rw [chainRows, ChainState.all, ofTenant_append, linked_append] at hlinked
  have htable : ∀ r ∈ ofTenant t st.table, r ∈ st.all := fun r hr => List.mem_append_left _ (mem_ofTenant.1 hr).1
  refine hlinked.1.oneChain htelling (fun r hr => h.built r (htable r hr)) (h.unique.sublist (List.Sublist.map _ ?_))
  exact List.filter_sublist.trans (List.sublist_append_left _ _)

/-- **The chain never forks when the lookups are in turn**: at every moment of such a run the committed entries of each
tenant form one chain. -/
theorem never_forks (htelling : Telling sha256) (numeric : JsonNumber → JsonNumber) (events : List (ChainEvent ι))
    (h : AllSteps (chainStep sha256 numeric) InTurn {} events) :
    ∀ p q, events = p ++ q → ∀ t, OneChain (ofTenant t (run (chainStep sha256 numeric) {} p).table) := by
  rintro p q rfl t
  have hinv : Inv sha256 numeric (run (chainStep sha256 numeric) {} p) := by
    refine run_invariant ?_ inv_init (allSteps_append.1 h).1
    rintro st ev hinv hturn
    exact inv_step htelling hinv hturn
  exact hinv.oneChain htelling t

/-! ### Two logins -/

/-- A login of the tenant with an identifier of equal digits, at a minute. -/
def login (digit : Fin 16) (minute : Fin 60) : SaveCall where
  entry := record
    { newId := .repeated digit
      now := ⟨{ Civil.nine with minute := minute, time_valid := ⟨by decide, minute.isLt, by decide⟩ }, 0,
        (by decide : (0 : ℤ) < 2026)⟩
      tenantId := .repeated 2
      userId := []
      requestId := []
      sessionId := []
      clientIp := []
      userAgent := [] }
    { action := "LOGIN_SUCCESS".toList, targetEntity := "user".toList, targetId := [] }

theorem inTurn_of_quiet {call : SaveCall} (hpending : st.pending = []) (hsaving : ∀ tx, st.saving tx = none)
    (hrows : st.table.length ≤ 1) : InTurn st (.lookup tx call) := by
  refine ⟨fun p hp => ?_, fun tx' call' prevHash h => ?_, fun last hlast s hs => ?_⟩
  · rw [hpending] at hp
    cases hp
  · rw [hsaving tx'] at h
    cases h
  · have hvisible : st.visible tx = st.table := by simp [ChainState.visible, ChainState.own, hpending]
    rw [hvisible] at hlast hs
    have hlastmem := (mem_ofTenant.1 (List.mem_of_getLast? hlast)).1
    obtain ⟨hs, -⟩ := mem_ofTenant.1 hs
    rcases Nat.le_one_iff_eq_zero_or_eq_one.1 hrows with hzero | hone
    · rw [List.eq_nil_of_length_eq_zero hzero] at hs
      cases hs
    · obtain ⟨r, hr⟩ := List.length_eq_one_iff.1 hone
      rw [hr, List.mem_singleton] at hs hlastmem
      rw [hs, hlastmem]

def inOrder : List (ChainEvent Bool) :=
  [.lookup false (login 1 0), .insert false, .commit false, .lookup true (login 3 1), .insert true, .commit true]

theorem never_forks_inOrder :
    (run (chainStep unary id) {} inOrder).table.length = 2 ∧
      ∀ p q, inOrder = p ++ q → ∀ t, OneChain (ofTenant t (run (chainStep unary id) {} p).table) := by
  refine ⟨by decide +kernel, never_forks telling_unary id inOrder ?_⟩
  refine ⟨inTurn_of_quiet rfl (fun _ => rfl) (by decide), trivial, trivial,
    inTurn_of_quiet ?_ (fun tx => ?_) ?_, trivial, trivial, trivial⟩
  · rfl
  · cases tx <;> rfl
  · decide +kernel

def sideBySide : List (ChainEvent Bool) :=
  [.lookup false (login 1 0), .lookup true (login 3 1), .insert false, .insert true, .commit false, .commit true]

/-- **The chain forks**: both entries point to nothing. -/
theorem chain_forks :
    ¬ ∀ p q, sideBySide = p ++ q → ∀ t, OneChain (ofTenant t (run (chainStep unary id) {} p).table) := by
  intro h
  have hdistinct := (h sideBySide [] (by simp) (.repeated 2)).distinct
  have hprevs : (ofTenant (.repeated 2) (run (chainStep unary id) {} sideBySide).table).map prevOf =
      [[], []] := by decide +kernel
  rw [hprevs] at hdistinct
  exact absurd hdistinct (by decide)

end BookingSystem.Concurrency.AuditForks
