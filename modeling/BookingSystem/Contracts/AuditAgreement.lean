import BookingSystem.Effects.AuditChain

/-!
# Writer and verifier of the audit chain

`verify_audit_chain` should find nothing wrong with a table that only `Save` has written. It does so exactly if the
columns are texts, every stored entry comes back from its columns as it was hashed (`Survives`), and of two entries of a
tenant the later one has the greater time and identifier (`verifier_agrees_iff`).
-/

namespace BookingSystem.Contracts.AuditAgreement

open Base Model.AuditChain Effects.AuditChain

/-- **Writer and verifier agree**: whatever the digest, the verifier says `ok` for every tenant. -/
def Agrees (numeric : JsonNumber → JsonNumber) (columns : Columns) (calls : List SaveCall) : Prop :=
  ∀ sha256, ∃ reports, verifyAuditChain sha256 columns (saveAll sha256 numeric calls) = some reports ∧
    ∀ r ∈ reports, r.finding.reason = .ok

/-! ### The entries that are stored -/

def storeEntry (entries : List AuditEntry) (call : SaveCall) : List AuditEntry :=
  if accepts (entries.map AuditEntry.id) call then entries ++ [call.entry] else entries

def stored (calls : List SaveCall) : List AuditEntry := calls.foldl storeEntry []

def entryKey (e : AuditEntry) : List ℤ := (Timestamp.ofGo e.timestamp).key ++ e.id.key

/-- The entry comes back from its columns as it was hashed: its time has whole microseconds, its actor is empty or the
canonical text of a `uuid`, its short columns are not cut, and its states are empty. -/
structure Survives (e : AuditEntry) : Prop where
  timestamp : (e.timestamp.nanosecond : ℕ) % 1000 = 0
  actor : ∀ u, PgUuid.uuidIn e.actorUserId = some u → e.actorUserId = u.text
  action : e.actionType.length ≤ 100
  entity : e.targetEntity.length ≤ 100
  previous : ∀ members, e.previousState = .entries members → members = []
  next : ∀ members, e.newState = .entries members → members = []

/-- The condition of the agreement. -/
def Preserved (columns : Columns) (calls : List SaveCall) : Prop :=
  stored calls = [] ∨ columns.readable = true ∧ (∀ e ∈ stored calls, Survives e) ∧
    (stored calls).Pairwise fun e e' => e.tenantId = e'.tenantId → entryKey e < entryKey e'

/-! ### The rows of the entries -/

section

variable (sha256 : List Char → List Char) (numeric : JsonNumber → JsonNumber)

/-- The table that the stored entries have filled: each row was linked to the table before it. -/
inductive Filled : List AuditRow → List AuditEntry → Prop
  | empty : Filled [] []
  | insert {table : List AuditRow} {entries : List AuditEntry} {call : SaveCall} (h : Filled table entries)
      (haccepts : accepts (entries.map AuditEntry.id) call = true) :
      Filled (table ++ [rowOf sha256 numeric call.entry (lookupPrevHash table call.entry.tenantId)])
        (entries ++ [call.entry])

variable {sha256 numeric} {table : List AuditRow} {entries : List AuditEntry}

theorem Filled.ids (h : Filled sha256 numeric table entries) : table.map AuditRow.id = entries.map AuditEntry.id := by
  induction h with
  | empty => rfl
  | insert _ _ ih => simp [ih, rowOf]

theorem filled_saveAll (calls : List SaveCall) :
    Filled sha256 numeric (saveAll sha256 numeric calls) (stored calls) := by
  induction calls using List.reverseRecOn with
  | nil => exact .empty
  | append_singleton calls call ih =>
    rw [saveAll, stored, List.foldl_concat, List.foldl_concat]
    change Filled sha256 numeric (save sha256 numeric (saveAll sha256 numeric calls) call)
      (storeEntry (stored calls) call)
    rw [save, storeEntry, insertedRow_eq, ih.ids]
    split
    · rename_i haccepts
      exact .insert ih haccepts
    · simpa using ih

/-! ### A row comes back as it was hashed -/

theorem eq_of_varchar {n : ℕ} {x y rest rest' : List Char} (h : varchar n x = some y)
    (heq : x ++ us :: rest = y ++ us :: rest') : x = y ∧ rest = rest' := by
  unfold varchar at h
  split at h
  · rename_i hblank
    cases h
    have hx := List.take_append_drop n x
    have hcut : x.drop n ++ us :: rest = us :: rest' := by
      refine List.append_cancel_left (?_ : x.take n ++ _ = x.take n ++ _)
      rw [← List.append_assoc, hx]
      exact heq
    cases hdrop : x.drop n with
    | nil =>
      rw [hdrop] at hcut hx
      rw [List.append_nil] at hx
      exact ⟨hx.symm, (List.cons.inj hcut).2⟩
    | cons c t =>
      rw [hdrop] at hcut hblank
      have hc : c = us := (List.cons.inj hcut).1
      rw [hc] at hblank
      exact absurd hblank (by simp [us])
  · cases h

theorem length_le_of_varchar {n : ℕ} {x : List Char} (h : varchar n x = some x) : x.length ≤ n := by
  unfold varchar at h
  split at h
  · exact List.take_eq_self_iff x |>.1 (Option.some.inj h)
  · cases h

theorem varchar_of_length_le {n : ℕ} {x : List Char} (h : x.length ≤ n) : varchar n x = some x := by
  rw [varchar, List.drop_eq_nil_of_le h, List.take_of_length_le h]
  rfl

theorem actor_cases {t : List Char} {actor : Option PgUuid} (h : actorColumn t = some actor) :
    us ∉ t ∧ us ∉ (actor.map PgUuid.text).getD [] ∧
      (t = (actor.map PgUuid.text).getD [] ↔ ∀ u, PgUuid.uuidIn t = some u → t = u.text) := by
  unfold actorColumn at h
  split at h
  · rename_i hnil
    cases h
    subst hnil
    refine ⟨List.not_mem_nil, List.not_mem_nil, iff_of_true rfl fun u hu => ?_⟩
    rw [show PgUuid.uuidIn [] = none from rfl] at hu
    cases hu
  · obtain ⟨u, hu, rfl⟩ := Option.map_eq_some_iff.1 h
    refine ⟨us_notMem_of_uuidIn hu, us_notMem_uuid u, fun ht v hv => ?_, fun hcanonical => hcanonical u hu⟩
    rw [hu, Option.some.injEq] at hv
    exact hv ▸ ht

/-- **A stored row composes to the hashed bytes iff its entry survives.** -/
theorem composed_rowOf_iff {taken : List PgUuid} {call : SaveCall} (haccepts : accepts taken call = true)
    (prevHash : List Char) :
    composed (rowOf sha256 numeric call.entry prevHash) = some (some (hashedBytes call.entry prevHash)) ↔
      Survives call.entry := by
  simp only [accepts, Bool.and_eq_true, Option.isSome_iff_exists] at haccepts
  obtain ⟨⟨⟨⟨⟨actor, hactor⟩, action, haction⟩, entity, hentity⟩, -⟩, -⟩ := haccepts
  obtain ⟨husActor, husText, hcanonical⟩ := actor_cases hactor
  rw [composed_eq_bytes]
  simp only [rowOf, rowBytes, hashedBytes, hactor, haction, hentity, Option.getD_some, getD_nullIf, Option.some.injEq]
  constructor
  · rintro ⟨previous, next, timestamp, targetId, hprevious, hnext, htimestamp, rfl, heq⟩
    simp only [delimited_cons, List.append_assoc, List.cons_append, List.append_cancel_left_eq, List.cons.injEq,
      true_and] at heq
    -- field by field, from the first one that may differ
    obtain ⟨htime, heq⟩ := eq_of_append_sep (us_notMem_format _) (us_notMem_toChar htimestamp) heq
    obtain ⟨hsame, heq⟩ := eq_of_append_sep husActor husText heq
    obtain ⟨hwhole, heq⟩ := eq_of_varchar haction heq
    obtain ⟨hwhole', heq⟩ := eq_of_varchar hentity heq
    simp only [List.append_cancel_left_eq, List.cons.injEq, true_and] at heq
    obtain ⟨hstate, hstate'⟩ := eq_of_append_sep (us_notMem_marshal _) (us_notMem_stateBytes hprevious) heq
    exact {
      timestamp := (toChar_ofGo_iff _).1 (htime ▸ htimestamp)
      actor := hcanonical.1 hsame
      action := length_le_of_varchar (hwhole ▸ haction)
      entity := length_le_of_varchar (hwhole' ▸ hentity)
      previous := (stateBytes_eq_marshal_iff numeric _).1 (hstate ▸ hprevious)
      next := (stateBytes_eq_marshal_iff numeric _).1 (hstate' ▸ hnext) }
  · intro h
    have hsame := hcanonical.2 h.actor
    have hwhole : call.entry.actionType = action :=
      Option.some.inj ((varchar_of_length_le h.action).symm.trans haction)
    have hwhole' : call.entry.targetEntity = entity :=
      Option.some.inj ((varchar_of_length_le h.entity).symm.trans hentity)
    refine ⟨_, _, _, _, (stateBytes_eq_marshal_iff numeric _).2 h.previous,
      (stateBytes_eq_marshal_iff numeric _).2 h.next, (toChar_ofGo_iff _).2 h.timestamp, rfl, ?_⟩
    rw [← hsame, hwhole, hwhole']

/-! ### The order of the rows -/

section

variable (h : Filled sha256 numeric table entries)
include h

theorem Filled.nodup : (table.map AuditRow.id).Nodup := by
  induction h with
  | empty => exact List.nodup_nil
  | @insert table entries call h haccepts ih =>
    have hnew : call.entry.id ∉ table.map AuditRow.id := by
      rw [h.ids]
      simp only [accepts, Bool.and_eq_true, decide_eq_true_eq] at haccepts
      exact haccepts.2
    rw [List.map_append, List.nodup_append]
    refine ⟨ih, List.nodup_singleton _, fun id hid id' hid' heq => hnew ?_⟩
    rw [List.map_singleton, List.mem_singleton] at hid'
    rw [heq, hid'] at hid
    exact hid

theorem Filled.keys :
    table.map (fun r => (r.tenantId, r.key)) = entries.map fun e => (e.tenantId, entryKey e) := by
  induction h with
  | empty => rfl
  | insert _ _ ih =>
    rw [List.map_append, List.map_append, ih]
    rfl

/-- Later rows of a tenant are greater. -/
def Ordered (table : List AuditRow) : Prop := table.Pairwise fun r s => r.tenantId = s.tenantId → r.key < s.key

theorem Filled.ordered_iff :
    Ordered table ↔ entries.Pairwise fun e e' => e.tenantId = e'.tenantId → entryKey e < entryKey e' := by
  have hrows := List.pairwise_map (f := fun r : AuditRow => (r.tenantId, r.key)) (l := table)
    (R := fun p q => p.1 = q.1 → p.2 < q.2)
  have hentries := List.pairwise_map (f := fun e : AuditEntry => (e.tenantId, entryKey e)) (l := entries)
    (R := fun p q => p.1 = q.1 → p.2 < q.2)
  rw [h.keys] at hrows
  exact hrows.symm.trans hentries

theorem Filled.linked {pre post : List AuditRow} {r : AuditRow}
    (htable : table = pre ++ r :: post) : r.prevHash.getD [] = lookupPrevHash pre r.tenantId := by
  induction h generalizing post with
  | empty => simp at htable
  | insert _ _ ih =>
    rcases List.eq_nil_or_concat post with rfl | ⟨post, last, rfl⟩
    · obtain ⟨rfl, hlast⟩ := List.append_inj' htable rfl
      cases hlast
      exact getD_nullIf _
    · rw [List.concat_eq_append, ← List.cons_append, ← List.append_assoc] at htable
      exact ih (List.append_inj' htable rfl).1

theorem Filled.row :
    ∀ r ∈ table, ∃ taken call prevHash, accepts taken call = true ∧ r = rowOf sha256 numeric call.entry prevHash ∧
      (prevHash = [] ∨ ∃ bytes, prevHash = sha256 bytes) := by
  induction h with
  | empty => exact fun r hr => by cases hr
  | @insert table entries call h haccepts ih =>
    intro r hr
    rcases List.mem_append.1 hr with hr | hr
    · exact ih r hr
    · refine ⟨_, call, _, haccepts, List.mem_singleton.1 hr, ?_⟩
      unfold lookupPrevHash
      cases hlast : (chainOf table call.entry.tenantId).getLast? with
      | none => exact .inl rfl
      | some g =>
        obtain ⟨_, call', prevHash, -, hg, -⟩ := ih g (mem_chainOf.1 (List.mem_of_getLast? hlast)).1
        refine .inr ⟨hashedBytes call'.entry prevHash, ?_⟩
        rw [hg]
        rfl

theorem Filled.entry {e : AuditEntry} (he : e ∈ entries) :
    ∃ taken call prevHash, accepts taken call = true ∧ call.entry = e ∧ rowOf sha256 numeric e prevHash ∈ table := by
  induction h with
  | empty => cases he
  | insert h haccepts ih =>
    rcases List.mem_append.1 he with he | he
    · obtain ⟨taken, call, prevHash, haccepts, heq, hmem⟩ := ih he
      exact ⟨taken, call, prevHash, haccepts, heq, List.mem_append_left _ hmem⟩
    · cases List.mem_singleton.1 he
      exact ⟨_, _, _, haccepts, rfl, List.mem_append_right _ List.mem_cons_self⟩

/-! ### Agreement from preserved entries -/

theorem Filled.chained (hsurvive : ∀ e ∈ entries, Survives e)
    (hordered : Ordered table) (tenantId : PgUuid) : Chained sha256 [] (chainOf table tenantId) := by
  induction h with
  | empty => trivial
  | @insert table entries call h haccepts ih =>
    have hchained := ih (fun e he => hsurvive e (List.mem_append_left _ he)) (List.pairwise_append.1 hordered).1
    by_cases htenant : call.entry.tenantId = tenantId
    · have hlater : ∀ s ∈ chainOf table tenantId,
          s.key ≤ (rowOf sha256 numeric call.entry (lookupPrevHash table call.entry.tenantId)).key := fun s hs => by
        obtain ⟨hmem, hsame, -⟩ := mem_chainOf.1 hs
        exact le_of_lt ((List.pairwise_append.1 hordered).2.2 s hmem _ List.mem_cons_self (hsame.trans htenant.symm))
      subst htenant
      rw [chainOf_append (by rfl) rfl hlater, chained_append]
      refine ⟨hchained, ?_, ?_, trivial⟩
      · rw [← lookupPrevHash_eq]
        exact getD_nullIf _
      · have hsurvives := hsurvive call.entry (List.mem_append_right _ List.mem_cons_self)
        refine ⟨_, (composed_rowOf_iff haccepts _).2 hsurvives, fun bytes hbytes => ?_⟩
        cases hbytes
        rfl
    · rw [chainOf_append_of_ne htenant]
      exact hchained

end

/-! ### Preserved entries from agreement -/

theorem survives_of_passes (hinjective : Function.Injective sha256) {taken : List PgUuid} {call : SaveCall}
    {prevHash : List Char} (haccepts : accepts taken call = true)
    (hpasses : Passes sha256 (rowOf sha256 numeric call.entry prevHash)) : Survives call.entry := by
  obtain ⟨composition, hcomposed, hbytes⟩ := hpasses
  cases composition with
  | none =>
    -- the columns of an inserted row are not `NULL` where that would matter
    simp [composed, rowOf, Timestamp.ofGo, Timestamp.toChar, Option.bind_eq_some_iff] at hcomposed
  | some bytes =>
    have hhash : sha256 bytes = sha256 (hashedBytes call.entry prevHash) := hbytes bytes rfl
    rw [hinjective hhash] at hcomposed
    exact (composed_rowOf_iff haccepts prevHash).1 hcomposed

theorem Filled.eq_of_hash (h : Filled sha256 numeric table entries) (htelling : Telling sha256) {r s : AuditRow}
    (hr : r ∈ table) (hs : s ∈ table) (hhash : r.entryHash = s.entryHash) : r = s := by
  refine List.inj_on_of_nodup_map h.nodup hr hs ?_
  obtain ⟨_, call, prevHash, -, rfl, hprev⟩ := h.row r hr
  obtain ⟨_, call', prevHash', -, rfl, hprev'⟩ := h.row s hs
  have hus : ∀ hash, hash = [] ∨ (∃ bytes, hash = sha256 bytes) → us ∉ hash := by
    rintro hash (rfl | ⟨bytes, rfl⟩)
    · exact List.not_mem_nil
    · exact htelling.us_notMem bytes
  exact id_eq_of_entryHash htelling (hus _ hprev) (hus _ hprev') hhash

/-- **A row that is chained in the end came after the others of its tenant**: it points to the greatest row of its time,
which would else come after it. -/
theorem Filled.key_lt (h : Filled sha256 numeric table entries) (htelling : Telling sha256) {pre post : List AuditRow}
    {r s : AuditRow} (htable : table = pre ++ r :: post) (hchained : Chained sha256 [] (chainOf table r.tenantId))
    (hs : s ∈ pre) (htenant : s.tenantId = r.tenantId) : s.key < r.key := by
  have hhashed : ∀ x ∈ table, x.entryHash.isSome = true := fun x hx => by
    obtain ⟨_, _, _, -, rfl, -⟩ := h.row x hx
    rfl
  have hmem : r ∈ table := htable ▸ by simp
  have hpre : ∀ x ∈ pre, x ∈ table := fun x hx => htable ▸ List.mem_append_left _ hx
  have hne : ∀ x ∈ pre, x.key ≠ r.key := fun x hx hkey => by
    have hnodup := h.nodup
    rw [htable, List.map_append, List.nodup_append] at hnodup
    exact hnodup.2.2 _ (List.mem_map_of_mem hx) _ (List.mem_map_of_mem List.mem_cons_self) (id_eq_of_key hkey)
  -- the greatest row that the lookup of `r` has seen
  have hschain : s ∈ chainOf pre r.tenantId := mem_chainOf.2 ⟨hs, htenant, hhashed s (hpre s hs)⟩
  obtain ⟨g, hg⟩ : ∃ g, (chainOf pre r.tenantId).getLast? = some g := by
    cases hlast : (chainOf pre r.tenantId).getLast? with
    | none =>
      rw [List.getLast?_eq_none_iff.1 hlast] at hschain
      cases hschain
    | some g => exact ⟨g, rfl⟩
  have hgpre := (mem_chainOf.1 (List.mem_of_getLast? hg)).1
  have hsg : s.key ≤ g.key := key_le_getLast hschain hg
  have hlink : r.prevHash.getD [] = g.entryHash.getD [] := by
    rw [h.linked htable, lookupPrevHash, hg]
    rfl
  -- the row before `r` in the chain has that hash, so it is that row
  obtain ⟨before, after, hsplit⟩ := List.append_of_mem (mem_chainOf.2 ⟨hmem, rfl, hhashed r hmem⟩)
  have hsorted := sorted_chainOf table r.tenantId
  rw [hsplit] at hchained hsorted
  obtain ⟨-, hpoints, -⟩ := chained_append.1 hchained
  have hgr : g.key ≤ r.key := by
    rcases List.eq_nil_or_concat before with rfl | ⟨init, p, rfl⟩
    · obtain ⟨_, _, _, -, rfl, -⟩ := h.row g (hpre g hgpre)
      rw [hlink] at hpoints
      exact absurd hpoints (htelling.ne_nil _)
    · rw [List.concat_eq_append] at hpoints hsplit hsorted
      have hpchain : p ∈ chainOf table r.tenantId := by
        rw [hsplit]
        simp
      have hptable : p ∈ table := (mem_chainOf.1 hpchain).1
      rw [hlink, lastHash_append_singleton] at hpoints
      have hgp : g = p := by
        refine h.eq_of_hash htelling (hpre g hgpre) hptable ?_
        obtain ⟨_, _, _, -, rfl, -⟩ := h.row g (hpre g hgpre)
        obtain ⟨_, _, _, -, rfl, -⟩ := h.row p hptable
        exact congrArg some hpoints
      rw [hgp]
      exact (List.pairwise_append.1 hsorted).2.2 p (by simp) r List.mem_cons_self
  exact lt_of_le_of_ne (le_trans hsg hgr) (hne s hs)

theorem Filled.ordered (h : Filled sha256 numeric table entries) (htelling : Telling sha256)
    (hchained : ∀ r ∈ table, Chained sha256 [] (chainOf table r.tenantId)) : Ordered table := by
  suffices hpre : ∀ pre post, table = pre ++ post → Ordered pre from hpre table [] (List.append_nil _).symm
  intro pre
  induction pre using List.reverseRecOn with
  | nil => exact fun _ _ => List.Pairwise.nil
  | append_singleton pre r ih =>
    intro post htable
    rw [List.append_assoc, List.singleton_append] at htable
    refine List.pairwise_append.2 ⟨ih _ htable, List.pairwise_singleton _ _, fun s hs x hx htenant => ?_⟩
    rw [List.mem_singleton] at hx
    subst hx
    exact h.key_lt htelling htable (hchained x (htable ▸ by simp)) hs htenant

theorem preserved_of_agrees {columns : Columns} {calls : List SaveCall} (h : Agrees numeric columns calls) :
    Preserved columns calls := by
  have hfilled : Filled unary numeric (saveAll unary numeric calls) (stored calls) := filled_saveAll calls
  have hok := verify_ok_iff.1 (h unary)
  have hrow : ∀ r ∈ saveAll unary numeric calls, r ∈ chainOf (saveAll unary numeric calls) r.tenantId := fun r hr => by
    obtain ⟨_, _, _, -, rfl, -⟩ := hfilled.row r hr
    exact mem_chainOf.2 ⟨hr, rfl, rfl⟩
  have hall : ∀ r ∈ saveAll unary numeric calls,
      columns.readable = true ∧ Chained unary [] (chainOf (saveAll unary numeric calls) r.tenantId) :=
    fun r hr => hok r.tenantId (List.ne_nil_of_mem (hrow r hr))
  by_cases hstored : stored calls = []
  · exact .inl hstored
  · obtain ⟨e, he⟩ := List.exists_mem_of_ne_nil _ hstored
    obtain ⟨_, _, _, -, -, hmem⟩ := hfilled.entry he
    refine .inr ⟨(hall _ hmem).1, fun e he => ?_, hfilled.ordered_iff.1 ?_⟩
    · obtain ⟨_, call, _, haccepts, rfl, hmem⟩ := hfilled.entry he
      exact survives_of_passes telling_unary.injective haccepts ((hall _ hmem).2.passes (hrow _ hmem))
    · exact hfilled.ordered telling_unary fun r hr => (hall r hr).2

theorem agrees_of_preserved {columns : Columns} {calls : List SaveCall} (h : Preserved columns calls) :
    Agrees numeric columns calls := by
  refine fun sha256 => verify_ok_iff.2 fun tenantId hne => ?_
  have hfilled : Filled sha256 numeric (saveAll sha256 numeric calls) (stored calls) := filled_saveAll calls
  rcases h with hstored | ⟨hreadable, hsurvive, hordered⟩
  · have hids := hfilled.ids
    rw [hstored, List.map_nil, List.map_eq_nil_iff] at hids
    rw [hids] at hne
    exact absurd rfl hne
  · exact ⟨hreadable, hfilled.chained hsurvive (hfilled.ordered_iff.2 hordered) tenantId⟩

/-- **Writer and verifier agree iff every entry survives its columns and the entries of a tenant come in order**, or
nothing is stored. -/
theorem verifier_agrees_iff (numeric : JsonNumber → JsonNumber) (columns : Columns) (calls : List SaveCall) :
    Agrees numeric columns calls ↔ Preserved columns calls := ⟨preserved_of_agrees, agrees_of_preserved⟩

/-- A login at one nanosecond past a second, with nothing else in it. -/
def loginEvent : SaveCall where
  entry := record
    { newId := .repeated 1
      now := ⟨.nine, 1, by decide⟩
      tenantId := .repeated 2
      userId := []
      requestId := "r1".toList
      sessionId := []
      clientIp := "10.0.0.1".toList
      userAgent := "curl".toList }
    { action := "LOGIN_SUCCESS".toList, targetEntity := "user".toList, targetId := "amy".toList }

/-- **A row that nobody has touched is reported as broken**: its hash is over nanoseconds that the column has lost. -/
theorem untouched_row_reported : stored [loginEvent] = [loginEvent.entry] ∧
    ¬ Agrees id ⟨.text, .text⟩ [loginEvent] := by
  have haccepts : accepts [] loginEvent = true := by decide +kernel
  have hstored : stored [loginEvent] = [loginEvent.entry] := by simp [stored, storeEntry, haccepts]
  refine ⟨hstored, fun h => ?_⟩
  rcases preserved_of_agrees h with hnil | ⟨-, hsurvive, -⟩
  · rw [hstored] at hnil
    cases hnil
  · rw [hstored] at hsurvive
    exact absurd (hsurvive _ List.mem_cons_self).timestamp (by decide)

end

end BookingSystem.Contracts.AuditAgreement
