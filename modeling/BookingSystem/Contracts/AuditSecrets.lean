import BookingSystem.Base.Utf8
import BookingSystem.Base.Run
import BookingSystem.Service.AuditSubscriber

/-!
# Secrets and the audit log

Two runs that differ in secret material only leave the same rows in the audit log exactly if they agree in the secrets
that stand in columns with an innocent name, as far as these columns are written (`rows_eq_iff`). There are three such
columns: the configuration of an identity provider, the token of an exchange with one, and the secret of a subscription
to a mailbox.
-/

namespace BookingSystem.Contracts.AuditSecrets

open Base
open Model.EntityColumns
open Service.AuditSubscriber

/-! ### Secret material -/

/-- The columns that hold a secret and nothing else, by table and property: password hashes, secrets of authenticator
apps, tokens and their hashes, secrets of webhooks, sealed secrets of integrations. -/
def secretColumns : List (String × String) :=
  [("users", "passwordHash"), ("users", "mfaSecret"), ("users", "icsFeedToken"), ("bookings", "checkinToken"),
    ("scim_tokens", "tokenHash"), ("sensors", "secretHash"), ("sso_state", "state"),
    ("webhook_subscriptions", "secret"), ("graph_subscriptions", "clientState"),
    ("integration_credentials", "clientSecret")]

def configColumn : String × String := ("identity_providers", "config")

def configSecrets : List (List Char) := ["clientSecret".toList, "bindPassword".toList]

local instance lawfulBEq_chars : LawfulBEq (List Char) := inferInstance

local instance lawfulBEq_column : LawfulBEq (String × String) := inferInstance

def concealMember (member : List Char × Json) : List Char × Json :=
  if member.1 ∈ configSecrets then (member.1, .null) else member

/-- A value without what is secret in it. Whether a secret is set is none. -/
def conceal (table p : String) (value : Value) : Value :=
  if value.isNullish then value
  else if (table, p) ∈ secretColumns then .str redacted
  else if (table, p) = configColumn then
    match value with
    | .object (.obj members) => .object (.obj (members.map concealMember))
    | value => value
  else value

def veil (table : String) (entity : Entity) : Entity := fun p => (entity p).map (conceal table p)

section

variable (E : Engine)

/-- Two changes that differ in secrets only; the same columns have moved in an update. -/
inductive AlikeChange (m : EntityMetadata) : Change → Change → Prop
  | insert {entity entity' : Entity} (hentity : veil m.tableName entity = veil m.tableName entity') :
    AlikeChange m (.insert entity) (.insert entity')
  | update {entity entity' stored stored' : Option Entity}
    (hentity : entity.map (veil m.tableName) = entity'.map (veil m.tableName))
    (hstored : stored.map (veil m.tableName) = stored'.map (veil m.tableName))
    (hmoved : ∀ col ∈ m.columns,
      moved E stored entity col.propertyName = moved E stored' entity' col.propertyName) :
    AlikeChange m (.update entity stored) (.update entity' stored')
  | remove {entity entity' stored stored' : Option Entity}
    (hentity : entity.map (veil m.tableName) = entity'.map (veil m.tableName))
    (hstored : stored.map (veil m.tableName) = stored'.map (veil m.tableName)) :
    AlikeChange m (.remove stored entity) (.remove stored' entity')

/-- Two events of one entity, in the same request, that differ in secrets only. -/
inductive Alike : Event → Event → Prop
  | intro {ev : Event} {change' : Change} (hchange : AlikeChange E ev.metadata.1 ev.change change') :
    Alike ev { ev with change := change' }

/-! ### The condition -/

/-- Secret material in columns whose names the pattern does not match. -/
def exposed : List (String × String) :=
  [("identity_providers", "config"), ("sso_state", "state"), ("graph_subscriptions", "clientState")]

def audited (ev : Event) : Bool := !shouldSkip ev && !ev.refused

/-- The change writes a column: it is there, or it has moved. -/
def written : Change → String → Bool
  | .insert entity, p => !(entity.get p).isUndefined
  | .update entity stored, p => moved E stored entity p
  | .remove stored entity, p => !(valueIn (stored.or entity) p).isUndefined

/-- What the entities of a change hold under a property, before and after. -/
def held : Change → String → Value × Value
  | .insert entity, p => (.undefined, entity.get p)
  | .update entity stored, p => (valueIn stored p, valueIn entity p)
  | .remove stored entity, p => (valueIn (stored.or entity) p, .undefined)

/-- **The condition**: where an audited event writes an exposed column, both runs hold the same values in it. -/
def Agree (ev ev' : Event) : Prop :=
  audited ev = true → ∀ p, (ev.metadata.1.tableName, p) ∈ exposed → written E ev.change p = true →
    held ev.change p = held ev'.change p

end

/-! ### Columns -/

theorem mem_exposed_iff : ∀ m ∈ entities, ∀ col ∈ m.columns, (m.tableName, col.propertyName) ∈ exposed ↔
    (m.tableName, col.propertyName) ∈ configColumn :: secretColumns ∧ isRedacted col = false := by
  simp only [isRedacted, secretTest, Utf8.toList_eq_chars]
  decide +kernel

theorem exposed_columns : (∀ m ∈ entities, ∀ x ∈ exposed, x.1 = m.tableName →
      ∃ col ∈ m.columns, col.propertyName = x.2) ∧
    ∀ m ∈ entities, ∀ p ∈ "tenantId" :: "id" :: m.primaryColumns.map ColumnMetadata.propertyName,
      (m.tableName, p) ∉ configColumn :: secretColumns := by
  decide +kernel

theorem exists_exposed : ∀ m ∈ entities, ∀ x ∈ exposed, x.1 = m.tableName →
    ∃ col ∈ m.columns, col.propertyName = x.2 := exposed_columns.1

theorem primary_open : ∀ m ∈ entities, ∀ p ∈ "tenantId" :: "id" :: m.primaryColumns.map ColumnMetadata.propertyName,
    (m.tableName, p) ∉ configColumn :: secretColumns := exposed_columns.2

section

attribute [local grind =] conceal Value.isNullish Value.isUndefined

variable {table p : String} {v v' : Value} {col : ColumnMetadata}

theorem conceal_open (h : (table, p) ∉ configColumn :: secretColumns) : conceal table p v = v := by
  rw [List.mem_cons, not_or] at h
  unfold conceal
  split
  · rfl
  · rw [if_neg h.2, if_neg h.1]

theorem isNullish_conceal : (conceal table p v).isNullish = v.isNullish := by
  unfold conceal
  split
  · rfl
  · next hset =>
    rw [Bool.not_eq_true] at hset
    rw [hset]
    split
    · rfl
    · split
      · split
        · rfl
        · exact hset
      · exact hset

theorem conceal_nullish (h : v.isNullish = true) : conceal table p v = v := if_pos h

theorem isUndefined_conceal : (conceal table p v).isUndefined = v.isUndefined := by
  cases hset : v.isNullish with
  | true => rw [conceal_nullish hset]
  | false =>
    have hconceal : (conceal table p v).isNullish = false := isNullish_conceal.trans hset
    cases hv : conceal table p v <;> cases v <;> simp_all [Value.isNullish, Value.isUndefined]

/-- What is stored of two values that differ in secrets only is the same, unless the column keeps its values and they
differ. -/
theorem clean_eq_iff (h : conceal table p v = conceal table p v') :
    clean col v = clean col v' ↔ (isRedacted col = false → v = v') := by
  have hnull : v.isNullish = v'.isNullish := by
    rw [← @isNullish_conceal table p, h, isNullish_conceal]
  unfold clean
  rw [← hnull]
  cases hset : v.isNullish with
  | true =>
    rw [conceal_nullish hset, conceal_nullish (hnull ▸ hset)] at h
    simp [h]
  | false => cases isRedacted col <;> simp

/-! ### Entities -/

variable {entity entity' : Entity} {o o' : Option Entity}

theorem get_veil : (veil table entity).get p = conceal table p (entity.get p) := by
  unfold Entity.get veil
  cases entity p with
  | none => exact (conceal_nullish rfl).symm
  | some v => rfl

theorem valueIn_map_veil : valueIn (o.map (veil table)) p = conceal table p (valueIn o p) := by
  cases o with
  | none => exact (conceal_nullish rfl).symm
  | some entity => exact get_veil

theorem get_conceal (h : veil table entity = veil table entity') (p : String) :
    conceal table p (entity.get p) = conceal table p (entity'.get p) := by
  rw [← get_veil, h, get_veil]

theorem valueIn_conceal (h : o.map (veil table) = o'.map (veil table)) (p : String) :
    conceal table p (valueIn o p) = conceal table p (valueIn o' p) := by
  rw [← valueIn_map_veil, h, valueIn_map_veil]

theorem isUndefined_get (h : veil table entity = veil table entity') (p : String) :
    (entity.get p).isUndefined = (entity'.get p).isUndefined := by
  rw [← @isUndefined_conceal table p, get_conceal h, isUndefined_conceal]

end

/-! ### Records -/

section

variable {E : Engine} {m : EntityMetadata} {entity entity' : Entity} {o o' : Option Entity} {cols : List ColumnMetadata}
  {value value' : String → Value}

theorem recordOf_eq_iff (h : ∀ p, conceal m.tableName p (value p) = conceal m.tableName p (value' p)) :
    recordOf cols value = recordOf cols value' ↔
      ∀ col ∈ cols, isRedacted col = false → value col.propertyName = value' col.propertyName := by
  unfold recordOf
  rw [List.map_inj_left]
  refine forall₂_congr fun col _ => ?_
  rw [Prod.mk.injEq, eq_self, true_and]
  exact clean_eq_iff (h col.propertyName)

theorem isEmpty_recordOf : (recordOf cols value).isEmpty = cols.isEmpty := by
  cases cols <;> rfl

theorem filled_inj {record record' : Record} : filled record = filled record' ↔ record = record' := by
  refine ⟨fun h => ?_, congrArg filled⟩
  cases record <;> cases record' <;> simp_all [filled]

/-- Values that differ in secrets only are the same in the open columns iff they are in the exposed ones. -/
theorem forall_open_iff (hm : m ∈ entities) {W : String → Bool}
    (h : ∀ p, conceal m.tableName p (value p) = conceal m.tableName p (value' p)) :
    (∀ col ∈ m.columns.filter fun col => W col.propertyName,
        isRedacted col = false → value col.propertyName = value' col.propertyName) ↔
      ∀ p, (m.tableName, p) ∈ exposed → W p = true → value p = value' p := by
  constructor
  · intro hopen p hp hW
    obtain ⟨col, hcol, rfl⟩ := exists_exposed m hm _ hp rfl
    have hname := ((mem_exposed_iff m hm col hcol).1 hp).2
    exact hopen col (List.mem_filter.2 ⟨hcol, hW⟩) hname
  · intro hexposed col hcol hname
    obtain ⟨hcol, hW⟩ := List.mem_filter.1 hcol
    by_cases hsecret : (m.tableName, col.propertyName) ∈ configColumn :: secretColumns
    · exact hexposed _ ((mem_exposed_iff m hm col hcol).2 ⟨hsecret, hname⟩) hW
    · have hvalue := h col.propertyName
      rwa [conceal_open hsecret, conceal_open hsecret] at hvalue

theorem filter_defined (h : veil m.tableName entity = veil m.tableName entity') :
    (m.columns.filter fun col => !(entity.get col.propertyName).isUndefined) =
      m.columns.filter fun col => !(entity'.get col.propertyName).isUndefined :=
  List.filter_congr fun col _ => by rw [isUndefined_get h]

theorem snapshot_eq_iff (hm : m ∈ entities) (h : veil m.tableName entity = veil m.tableName entity') :
    snapshot m entity = snapshot m entity' ↔
      ∀ p, (m.tableName, p) ∈ exposed → (!(entity.get p).isUndefined) = true → entity.get p = entity'.get p := by
  unfold snapshot
  rw [← filter_defined h, recordOf_eq_iff (get_conceal h)]
  exact forall_open_iff hm (W := fun p => !(entity.get p).isUndefined) (get_conceal h)

theorem isEmpty_snapshot (h : veil m.tableName entity = veil m.tableName entity') :
    (snapshot m entity').isEmpty = (snapshot m entity).isEmpty := by
  rw [snapshot, snapshot, isEmpty_recordOf, isEmpty_recordOf, filter_defined h]

theorem isEmpty_diff {stored stored' : Option Entity} (hmoved : ∀ col ∈ m.columns,
    moved E stored o col.propertyName = moved E stored' o' col.propertyName) :
    (diff E m stored' o').2.isEmpty = (diff E m stored o).2.isEmpty := by
  have hcols : (m.columns.filter fun col => moved E stored' o' col.propertyName) =
      m.columns.filter fun col => moved E stored o col.propertyName :=
    List.filter_congr fun col hcol => by rw [hmoved col hcol]
  simp only [diff, isEmpty_recordOf, hcols]

theorem primaryId_eq (hm : m ∈ entities) (h : veil m.tableName entity = veil m.tableName entity') :
    primaryId E m entity = primaryId E m entity' := by
  have hopen : ∀ p ∈ "tenantId" :: "id" :: m.primaryColumns.map ColumnMetadata.propertyName,
      entity.get p = entity'.get p := by
    intro p hp
    have hvalue := get_conceal h p
    rwa [conceal_open (primary_open m hm p hp), conceal_open (primary_open m hm p hp)] at hvalue
  have hkeys : (m.primaryColumns.map fun pk => entity.get pk.propertyName) =
      m.primaryColumns.map fun pk => entity'.get pk.propertyName :=
    List.map_congr_left fun pk hpk =>
      hopen _ (List.mem_cons_of_mem _ (List.mem_cons_of_mem _ (List.mem_map_of_mem hpk)))
  rw [primaryId, primaryId, hkeys, hopen "id" (by simp)]

theorem tenantId_eq (hm : m ∈ entities) (h : veil m.tableName entity = veil m.tableName entity') :
    entity.get "tenantId" = entity'.get "tenantId" := by
  have hvalue := get_conceal h "tenantId"
  rwa [conceal_open (primary_open m hm _ List.mem_cons_self), conceal_open (primary_open m hm _ List.mem_cons_self)]
    at hvalue

/-! ### One event -/

variable {ev ev' : Event} {c c' : Change} {verb : Verb} {severity : String} {previous previous' next next' : Record}

theorem entry_eq_iff (h : veil ev.metadata.1.tableName entity = veil ev.metadata.1.tableName entity') :
    entry E ev verb severity entity previous next = entry E ev verb severity entity' previous' next' ↔
      previous = previous' ∧ next = next' := by
  unfold entry
  rw [tenantId_eq ev.metadata.2 h, primaryId_eq ev.metadata.2 h]
  simp [filled_inj]

theorem record_eq_iff (hstored : ev.refused = false)
    (h : veil ev.metadata.1.tableName entity = veil ev.metadata.1.tableName entity') :
    record E ev verb severity entity previous next = record E ev verb severity entity' previous' next' ↔
      previous = previous' ∧ next = next' := by
  rw [record, record, hstored, if_neg Bool.false_ne_true, if_neg Bool.false_ne_true, Option.some_inj, entry_eq_iff h]

theorem isSome_record : (record E ev verb severity entity previous next).isSome = !ev.refused := by
  rw [record]
  cases ev.refused <;> rfl

theorem afterInsert_eq_iff (hstored : ev.refused = false)
    (h : veil ev.metadata.1.tableName entity = veil ev.metadata.1.tableName entity') :
    afterInsert E ev entity = afterInsert E ev entity' ↔
      snapshot ev.metadata.1 entity = snapshot ev.metadata.1 entity' := by
  have hempty := isEmpty_snapshot h
  rw [afterInsert, afterInsert, hempty]
  cases hnext : (snapshot ev.metadata.1 entity).isEmpty with
  | true => simp [List.isEmpty_iff.1 hnext, List.isEmpty_iff.1 (hempty.trans hnext)]
  | false =>
    rw [if_neg Bool.false_ne_true, if_neg Bool.false_ne_true, record_eq_iff hstored h]
    exact and_iff_right rfl

theorem or_alike {table : String} {a a' b b' : Option Entity} (ha : a.map (veil table) = a'.map (veil table))
    (hb : b.map (veil table) = b'.map (veil table)) :
    (a.or b).map (veil table) = (a'.or b').map (veil table) := by
  rw [Option.map_or, Option.map_or, ha, hb]

theorem diff_eq_iff (hm : m ∈ entities) {stored stored' entity entity' : Option Entity}
    (hentity : entity.map (veil m.tableName) = entity'.map (veil m.tableName))
    (hstored : stored.map (veil m.tableName) = stored'.map (veil m.tableName))
    (hmoved : ∀ col ∈ m.columns,
      moved E stored entity col.propertyName = moved E stored' entity' col.propertyName) :
    diff E m stored entity = diff E m stored' entity' ↔
      ∀ p, (m.tableName, p) ∈ exposed → moved E stored entity p = true →
        (valueIn stored p, valueIn entity p) = (valueIn stored' p, valueIn entity' p) := by
  have hcols : (m.columns.filter fun col => moved E stored entity col.propertyName) =
      m.columns.filter fun col => moved E stored' entity' col.propertyName :=
    List.filter_congr fun col hcol => by rw [hmoved col hcol]
  simp only [diff, ← hcols, Prod.mk.injEq]
  rw [recordOf_eq_iff (valueIn_conceal hstored), recordOf_eq_iff (valueIn_conceal hentity),
    forall_open_iff hm (W := fun p => moved E stored entity p) (valueIn_conceal hstored),
    forall_open_iff hm (W := fun p => moved E stored entity p) (valueIn_conceal hentity)]
  constructor
  · rintro ⟨hbefore, hafter⟩ p hp hW
    exact ⟨hbefore p hp hW, hafter p hp hW⟩
  · intro hboth
    exact ⟨fun p hp hW => (hboth p hp hW).1, fun p hp hW => (hboth p hp hW).2⟩

theorem handle_eq_none (h : audited ev = false) : handle E ev = none := by
  rw [audited, Bool.and_eq_false_iff, Bool.not_eq_false', Bool.not_eq_false'] at h
  obtain hskip | hrefused := h
  · rw [handle, if_pos hskip]
  · have hnone : ∀ verb severity entity previous next, record E ev verb severity entity previous next = none := by
      intros
      rw [record, if_pos hrefused]
    rw [handle]
    split
    · rfl
    · cases ev.change with
      | insert entity => simp [afterInsert, hnone]
      | update entity stored => simp [afterUpdate, hnone]
      | remove stored entity => simp [afterRemove, hnone]

theorem handle_of_audited (h : audited ev = true) : handle E ev =
    match ev.change with
    | .insert entity => afterInsert E ev entity
    | .update entity stored => afterUpdate E ev entity stored
    | .remove stored entity => afterRemove E ev stored entity := by
  rw [audited, Bool.and_eq_true, Bool.not_eq_true'] at h
  cases hc : ev.change with
  | insert entity => simp [handle, h.1, hc]
  | update entity stored => simp [handle, h.1, hc]
  | remove stored entity => simp [handle, h.1, hc]

theorem afterUpdate_eq_iff (hstores : ev.refused = false) {stored stored' entity entity' : Option Entity}
    (hentity : entity.map (veil ev.metadata.1.tableName) = entity'.map (veil ev.metadata.1.tableName))
    (hstored : stored.map (veil ev.metadata.1.tableName) = stored'.map (veil ev.metadata.1.tableName))
    (hmoved : ∀ col ∈ ev.metadata.1.columns,
      moved E stored entity col.propertyName = moved E stored' entity' col.propertyName) :
    afterUpdate E ev entity stored = afterUpdate E ev entity' stored' ↔
      diff E ev.metadata.1 stored entity = diff E ev.metadata.1 stored' entity' := by
  have hsubject := or_alike hentity hstored
  have hempty := isEmpty_diff hmoved
  unfold afterUpdate
  cases hor : entity.or stored with
  | none =>
    -- nothing was supplied, so nothing has moved
    rw [hor] at hsubject
    have hnone := (Option.or_eq_none_iff.1 hor)
    have hnone' := Option.or_eq_none_iff.1 (Option.map_eq_none_iff.1 hsubject.symm)
    rw [hnone.1, hnone.2, hnone'.1, hnone'.2]
    simp
  | some subject =>
    rw [hor] at hsubject
    obtain ⟨subject', hor', hveil⟩ := Option.map_eq_some_iff.1 hsubject.symm
    rw [hor']
    simp only [Option.bind_eq_bind, Option.bind_some, hempty]
    cases hnext : (diff E ev.metadata.1 stored entity).2.isEmpty with
    | true =>
      have hnext' := hempty.trans hnext
      simp only [diff, isEmpty_recordOf] at hnext hnext'
      simp only [diff, List.isEmpty_iff.1 hnext, List.isEmpty_iff.1 hnext']
      simp [recordOf]
    | false =>
      rw [if_neg Bool.false_ne_true, if_neg Bool.false_ne_true, record_eq_iff hstores hveil.symm, Prod.ext_iff]

theorem afterRemove_eq_iff (hstores : ev.refused = false) {stored stored' entity entity' : Option Entity}
    (hentity : entity.map (veil ev.metadata.1.tableName) = entity'.map (veil ev.metadata.1.tableName))
    (hstored : stored.map (veil ev.metadata.1.tableName) = stored'.map (veil ev.metadata.1.tableName)) :
    afterRemove E ev stored entity = afterRemove E ev stored' entity' ↔
      ∀ p, (ev.metadata.1.tableName, p) ∈ exposed → (!(valueIn (stored.or entity) p).isUndefined) = true →
        valueIn (stored.or entity) p = valueIn (stored'.or entity') p := by
  have hsubject := or_alike hstored hentity
  unfold afterRemove
  cases hor : stored.or entity with
  | none =>
    rw [hor] at hsubject
    rw [Option.map_eq_none_iff.1 hsubject.symm]
    simp
  | some subject =>
    rw [hor] at hsubject
    obtain ⟨subject', hor', hveil⟩ := Option.map_eq_some_iff.1 hsubject.symm
    rw [hor']
    simp only [Option.bind_eq_bind, Option.bind_some]
    rw [record_eq_iff hstores hveil.symm, and_iff_left rfl]
    exact snapshot_eq_iff ev.metadata.2 hveil.symm

/-- **One event**: the rows are equal iff the exposed columns that are written agree. -/
theorem handle_eq_iff (h : Alike E ev ev') : handle E ev = handle E ev' ↔ Agree E ev ev' := by
  cases h with
  | @intro c' hchange =>
  obtain ⟨m, c, req, refused⟩ := ev
  have hsame : audited ⟨m, c', req, refused⟩ = audited ⟨m, c, req, refused⟩ := rfl
  cases haudited : audited ⟨m, c, req, refused⟩ with
  | false =>
    rw [handle_eq_none haudited, handle_eq_none (hsame.trans haudited)]
    simp [Agree, haudited]
  | true =>
    have hstores : refused = false := by
      rw [audited, Bool.and_eq_true, Bool.not_eq_true', Bool.not_eq_true'] at haudited
      exact haudited.2
    rw [handle_of_audited haudited, handle_of_audited (hsame.trans haudited)]
    simp only [Agree, haudited, forall_const]
    change AlikeChange E m.1 c c' at hchange
    cases hchange with
    | insert hentity =>
      refine (afterInsert_eq_iff hstores hentity).trans ((snapshot_eq_iff m.2 hentity).trans ?_)
      simp [written, held]
    | update hentity hstored hmoved =>
      exact (afterUpdate_eq_iff hstores hentity hstored hmoved).trans
        (diff_eq_iff m.2 hentity hstored hmoved)
    | remove hentity hstored =>
      refine (afterRemove_eq_iff hstores hentity hstored).trans ?_
      simp [written, held]

/-- Two events that differ in secrets only both get a row, or neither does. -/
theorem isSome_handle (h : Alike E ev ev') : (handle E ev).isSome = (handle E ev').isSome := by
  cases h with
  | @intro c' hchange =>
  obtain ⟨m, c, req, refused⟩ := ev
  have hsame : audited ⟨m, c', req, refused⟩ = audited ⟨m, c, req, refused⟩ := rfl
  cases haudited : audited ⟨m, c, req, refused⟩ with
  | false => rw [handle_eq_none haudited, handle_eq_none (hsame.trans haudited)]
  | true =>
    rw [handle_of_audited haudited, handle_of_audited (hsame.trans haudited)]
    change AlikeChange E m.1 c c' at hchange
    cases hchange with
    | insert hentity =>
      simp only [afterInsert, isEmpty_snapshot hentity]
      split
      · rfl
      · rw [isSome_record, isSome_record]
    | @update entity entity' stored stored' hentity hstored hmoved =>
      have hsubject := congrArg Option.isSome (or_alike hentity hstored)
      rw [Option.isSome_map, Option.isSome_map] at hsubject
      simp only [afterUpdate, isEmpty_diff hmoved]
      cases hor : entity.or stored <;> cases hor' : entity'.or stored' <;> simp_all
      split
      · rfl
      · rw [isSome_record, isSome_record]
    | @remove entity entity' stored stored' hentity hstored =>
      have hsubject := congrArg Option.isSome (or_alike hstored hentity)
      rw [Option.isSome_map, Option.isSome_map] at hsubject
      simp only [afterRemove]
      cases hor : stored.or entity <;> cases hor' : stored'.or entity' <;> simp_all [isSome_record]

/-- **Secrets and the audit log**: two runs that differ in secrets only leave equal rows exactly if each event of the
one agrees with its counterpart in the exposed columns. -/
theorem rows_eq_iff {evs evs' : List Event} (h : List.Forall₂ (Alike E) evs evs') :
    rows E evs = rows E evs' ↔ List.Forall₂ (Agree E) evs evs' := by
  have hsame : List.Forall₂ (fun ev ev' => (handle E ev).isSome = (handle E ev').isSome) evs evs' :=
    h.imp fun _ _ => isSome_handle
  rw [rows, rows, filterMap_eq_iff hsame]
  induction h with
  | nil => simp
  | cons hev hevs ih =>
    rw [List.forall₂_cons, List.forall₂_cons]
    exact and_congr (handle_eq_iff hev) (ih (List.forall₂_cons.1 hsame).2)

end

/-! ### Runs -/

theorem veil_update {table p : String} {entity : Entity} {value : Value} :
    veil table (Function.update entity p (some value)) =
      Function.update (veil table entity) p (some (conceal table p value)) := by
  funext p'
  by_cases hp : p' = p
  · subst hp
    simp [veil]
  · simp [veil, Function.update_of_ne hp]

def textEngine : Engine := ⟨fun _ => "", fun _ => none⟩

def adminRequest : Request :=
  ⟨some ⟨"u1", "t1", "admin"⟩, "POST", "/api/v1/admin", "/api/v1/admin", none, none, "10.0.0.1", ""⟩

def bare : Entity := fun p => [("id", Value.str "x1"), ("tenantId", Value.str "t1")].lookup p

def account (passwordHash : String) : Entity := Function.update bare "passwordHash" (some (.str passwordHash))

/-- An administrator sets a password. -/
def reset (before after : String) : Event :=
  ⟨⟨user, by decide⟩, .update (some (account after)) (some (account before)), some adminRequest, false⟩

theorem alike_reset : Alike textEngine (reset "h0" "h1") (reset "h2" "h3") := by
  have hveil : ∀ a b, (some (account a)).map (veil "users") = (some (account b)).map (veil "users") := by
    intro a b
    rw [Option.map_some, Option.map_some, account, account, veil_update, veil_update]
    rfl
  exact .intro (.update (hveil _ _) (hveil _ _) (by decide))

/-- Two resets to different passwords leave the same row. -/
theorem rows_eq_iff_reset : rows textEngine [reset "h0" "h1"] = rows textEngine [reset "h2" "h3"] ∧
    (rows textEngine [reset "h0" "h1"]).length = 1 := by
  refine ⟨(rows_eq_iff (.cons alike_reset .nil)).2 (.cons (fun _ p hp _ => ?_) .nil), by decide +kernel⟩
  have hnone : ∀ x ∈ exposed, x.1 ≠ "users" := by decide
  exact absurd rfl (hnone _ hp)

def oauthConfig (clientSecret : String) : Json :=
  .obj [("clientId".toList, .str "rooms".toList), ("clientSecret".toList, .str clientSecret.toList)]

theorem conceal_oauthConfig (clientSecret : String) :
    conceal "identity_providers" "config" (.object (oauthConfig clientSecret)) =
      .object (.obj [("clientId".toList, .str "rooms".toList), ("clientSecret".toList, .null)]) := by
  simp [conceal, Value.isNullish, secretColumns, configColumn, oauthConfig, concealMember, configSecrets]

def provider (clientSecret : String) : Entity :=
  Function.update bare "config" (some (.object (oauthConfig clientSecret)))

/-- An administrator registers an OAuth2 provider. -/
def registration (clientSecret : String) : Event :=
  ⟨⟨identityProvider, by decide⟩, .insert (provider clientSecret), some adminRequest, false⟩

/-- The texts of the configurations in a log. -/
def loggedConfigs (log : List AuditRow) : List (List Char) :=
  log.filterMap fun row => (row.next.bind fun next => next.lookup "config").map fun value =>
    match value with
    | .object json => stringify json
    | _ => []

theorem loggedConfigs_registration (clientSecret : String) :
    loggedConfigs (rows textEngine [registration clientSecret]) = [stringify (oauthConfig clientSecret)] := by
  rfl

/-- The secret of a new provider stands in the log. -/
theorem secret_logged : List.Forall₂ (Alike textEngine) [registration "s1"] [registration "s2"] ∧
    rows textEngine [registration "s1"] ≠ rows textEngine [registration "s2"] := by
  refine ⟨.cons (.intro (.insert ?_)) .nil, fun heq => ?_⟩
  · change veil "identity_providers" (provider "s1") = veil "identity_providers" (provider "s2")
    rw [provider, provider, veil_update, veil_update, conceal_oauthConfig, conceal_oauthConfig]
  · have hconfigs := congrArg loggedConfigs heq
    rw [loggedConfigs_registration, loggedConfigs_registration] at hconfigs
    exact absurd hconfigs (by decide +kernel)

end BookingSystem.Contracts.AuditSecrets
