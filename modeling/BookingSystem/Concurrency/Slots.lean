import BookingSystem.Concurrency.Occupancy
import BookingSystem.Effects.Approvals
import BookingSystem.Model.System
import BookingSystem.Base.Locking

/-!
# Concurrent `create` and `update` transactions

The transactions of `BookingsService.create` and `BookingsService.update` as a locking protocol: what they read
before their row locks, the resource rows they lock, the conflict check under the locks, and the row they write.
Two of them that hold no lock in common do not disturb each other's conflict check (`slots_stable`), so every
interleaving is as good as a serial execution, and no interleaving books a room twice (`no_double_booking`).
-/

namespace BookingSystem.Concurrency

open Base Model Model.BookingsService Effects

/-- The two calls that claim slots. -/
inductive Call
  | create (tenantId userId : Uuid) (dto : CreateBookingDto) (newId : Uuid)
  | update (tenantId userId : Uuid) (role : String) (id : Uuid) (dto : UpdateBookingDto)

def Call.bookingId : Call → Uuid
  | .create _ _ _ newId => newId
  | .update _ _ _ id _ => id

/-- A call with the clock and the settings it runs under; the resources are the same for all calls. -/
structure Request (resources : Table Resource) where
  env : Env
  same : env.resources = resources
  now : Instant
  call : Call

/-- What a transaction knows before it takes its locks. -/
inductive Draft
  | insert (env : Env) (slot : Slot) (row : Booking)
  | edit (env : Env) (tenantId : Uuid) (dto : UpdateBookingDto) (b : Booking) (slot : Option Slot)

/-- The row a transaction writes. -/
inductive Write
  | insert (row : Booking)
  | save (row : Booking)

/-- The two transactions, cut where the source takes its locks. -/
def slots (resources : Table Resource) : Protocol (Table Booking) (Request resources) Draft Uuid Write where
  prep q bookings :=
    match q.call with
    | .create tenantId userId dto newId =>
      (createAdmit q.env q.now tenantId userId dto newId).toOption.map fun p => .insert q.env p.1 p.2
    | .update tenantId userId role id dto =>
      (updateAdmit q.env q.now tenantId userId role id dto bookings).toOption.map fun p =>
        .edit q.env tenantId dto p.1 p.2
  locks
    | .insert env slot row => lockResources env row.tenantId slot.ids
    | .edit env tenantId _ _ slot => (slot.map fun sl => lockResources env tenantId sl.ids).getD []
  plan
    | .insert _ slot row, bookings => (createCommit bookings slot row).toOption.map fun _ => .insert row
    | .edit env tenantId dto b slot, bookings =>
      (updateCommit env tenantId dto b slot bookings).toOption.map .save
  apply
    | .insert row, bookings => (bookings.insert? row).getD bookings
    | .save row, bookings => bookings.save row

/-- A booking is touched by one call in flight at a time. -/
def OneAtATime {resources : Table Resource} (q q' : Request resources) : Prop :=
  q.call.bookingId ≠ q'.call.bookingId

instance {resources : Table Resource} (q q' : Request resources) : Decidable (OneAtATime q q') :=
  inferInstanceAs (Decidable (_ ≠ _))

variable {resources : Table Resource}

/-! ### What one transaction does -/

/-- A transaction that claims a slot: the room, the check it has passed under its locks, and the row. -/
structure Takes (bookings : Table Booking) (q : Request resources) (k : Draft) (w : Write) (r : Resource)
    (v : Booking) (ex : Option Uuid) : Prop where
  room : r ∈ resources.rows
  books : Books v r
  id : v.id = q.call.bookingId
  exclude : ex = none ∨ ex = some v.id
  locks : (slots resources).locks k = lockResources q.env v.tenantId (relatedResourceIds q.env v.tenantId r)
  check : assertNoConflict bookings v.tenantId (relatedResourceIds q.env v.tenantId r) v.startTime v.endTime ex r
    = .ok ()
  write : (w = .save v ∧ bookings.find? v.id ≠ none) ∨ (w = .insert v ∧ bookings.find? v.id = none)

theorem planned {q : Request resources} {k : Draft} {w : Write} {bookings : Table Booking}
    (hk : (slots resources).prep q bookings = some k) (hw : (slots resources).plan k bookings = some w) :
    (∃ b v, w = .save v ∧ b ∈ bookings.rows ∧ b.id = q.call.bookingId ∧ Edits b v) ∨
      ∃ r v ex, Takes bookings q k w r v ex := by
  obtain ⟨env, same, now, call⟩ := q
  subst same
  cases call with
  | create tenantId userId dto newId =>
    simp only [slots, Option.map_eq_some_iff, toOption_eq_some, Prod.exists] at hk
    obtain ⟨slot, row, hadm, rfl⟩ := hk
    simp only [slots, Option.map_eq_some_iff, toOption_eq_some] at hw
    obtain ⟨bookings', hcom, rfl⟩ := hw
    have ha := createAdmit_ok hadm
    obtain ⟨hcheck, hins⟩ := createCommit_ok hcom
    have hr := Env.resource_eq_some.1 ha.resource
    have hids : slot.ids = relatedResourceIds env row.tenantId slot.resource := by rw [ha.ids, ha.tenantId]
    refine .inr ⟨slot.resource, row, none, hr.1, ⟨ha.resourceId, by rw [ha.tenantId, hr.2.2]⟩, ha.id,
      .inl rfl, ?_, ?_, .inr ⟨rfl, (Table.insert?_eq_some_iff.1 hins).1⟩⟩
    · show lockResources env row.tenantId slot.ids = _
      rw [hids]
    · rw [ha.startTime, ha.endTime, ← hids]
      exact hcheck
  | update tenantId userId role id dto =>
    simp only [slots, Option.map_eq_some_iff, toOption_eq_some, Prod.exists] at hk
    obtain ⟨b, slot, hadm, rfl⟩ := hk
    simp only [slots, Option.map_eq_some_iff, toOption_eq_some] at hw
    obtain ⟨v, hcom, rfl⟩ := hw
    obtain ⟨hb, -, -, hslot⟩ := updateAdmit_ok hadm
    obtain ⟨hfind, hten⟩ := findBooking_eq_some.1 hb
    have hbid : b.id = id := Table.key_of_find? hfind
    rcases hslot with ⟨rfl, -⟩ | ⟨sl, rfl, hcl⟩
    · rcases updateCommit_ok hcom with ⟨-, he⟩ | ⟨_, hn, -⟩
      · exact .inl ⟨b, v, rfl, Table.mem_of_find? hfind, hbid, he⟩
      · cases hn
    · rcases updateCommit_ok hcom with ⟨hn, -⟩ | ⟨_, hs, hcheck, he⟩
      · cases hn
      cases hs
      have hr := Env.resource_eq_some.1 hcl.resource
      have hvid : v.id = b.id := he.id
      have hvten : v.tenantId = tenantId := he.tenantId.trans hten
      refine .inr ⟨sl.resource, v, some b.id, hr.1, ⟨he.resourceId, hvten.trans hr.2.2.symm⟩, hvid.trans hbid,
        .inr (by rw [hvid]), ?_, ?_, .inl ⟨rfl, ?_⟩⟩
      · show lockResources env tenantId sl.ids = _
        rw [hvten, hcl.ids]
      · rw [hvten, he.startTime, he.endTime, ← hcl.ids]
        exact hcheck
      · rw [hvid, hbid, hfind]
        simp

theorem Takes.put {bookings : Table Booking} {q : Request resources} {k : Draft} {w : Write} {r : Resource}
    {v : Booking} {ex : Option Uuid} (h : Takes bookings q k w r v ex) :
    Put bookings v ((slots resources).apply w bookings) := by
  rcases h.write with ⟨rfl, -⟩ | ⟨rfl, hnew⟩
  · exact put_save bookings v
  · obtain ⟨t, ht⟩ := Table.insert?_of_find? hnew
    show Put bookings v ((bookings.insert? v).getD bookings)
    rw [ht]
    exact put_insert ht

theorem create_eq_apply {env : Env} {now : Instant} {fresh : Fresh} {tenantId userId : Uuid}
    {dto : CreateBookingDto} {st st' : Store} {row : Booking}
    (h : create env now fresh tenantId userId dto st = .ok (st', row)) :
    ∃ k w, (slots env.resources).prep ⟨env, rfl, now, .create tenantId userId dto fresh.booking⟩ st.bookings = some k ∧
      (slots env.resources).plan k st.bookings = some w ∧
      st'.bookings = (slots env.resources).apply w st.bookings := by
  simp only [create, bind_eq_ok, Prod.exists] at h
  obtain ⟨slot, row', hadm, bookings, hcom, h⟩ := h
  have hst' : st'.bookings = bookings := by
    split at h
    · simp only [pure_eq_ok, Prod.mk.injEq] at h
      rw [← h.1]
      exact materialize_bookings
    · simp only [pure_eq_ok, Prod.mk.injEq] at h
      rw [← h.1]
  refine ⟨.insert env slot row', .insert row', ?_, ?_, ?_⟩
  · simp only [slots, hadm]
    rfl
  · simp only [slots, hcom]
    rfl
  · rw [hst']
    simp only [slots, (createCommit_ok hcom).2, Option.getD_some]

theorem update_eq_apply {env : Env} {now : Instant} {tenantId userId : Uuid} {role : String} {id : Uuid}
    {dto : UpdateBookingDto} {st st' : Store} {saved : Booking}
    (h : update env now tenantId userId role id dto st = .ok (st', saved)) :
    ∃ k w, (slots env.resources).prep ⟨env, rfl, now, .update tenantId userId role id dto⟩ st.bookings = some k ∧
      (slots env.resources).plan k st.bookings = some w ∧
      st'.bookings = (slots env.resources).apply w st.bookings := by
  simp only [update, applyUpdate, bind_eq_ok, pure_eq_ok, Prod.mk.injEq, Prod.exists] at h
  obtain ⟨saved', ⟨b, slot, hadm, hcom⟩, rfl, rfl⟩ := h
  refine ⟨.edit env tenantId dto b slot, .save saved', ?_, ?_, rfl⟩
  · simp only [slots, hadm]
    rfl
  · simp only [slots, hcom]
    rfl

/-! ### Transactions that share no lock -/

theorem find?_apply {q : Request resources} {k : Draft} {w : Write} {bookings : Table Booking}
    (hk : (slots resources).prep q bookings = some k) (hw : (slots resources).plan k bookings = some w) {id : Uuid}
    (hid : id ≠ q.call.bookingId) : ((slots resources).apply w bookings).find? id = bookings.find? id := by
  rcases planned hk hw with ⟨b, v, rfl, -, hb, title, url, services, attendees, cfv, version, rfl⟩ | ⟨r, v, ex, h⟩
  · exact Table.find?_save_of_ne (by rw [key_booking, hb]; exact Ne.symm hid)
  · have hne : v.id ≠ id := by rw [h.id]; exact Ne.symm hid
    rcases h.write with ⟨rfl, -⟩ | ⟨rfl, -⟩
    · exact Table.find?_save_of_ne hne
    · show ((bookings.insert? v).getD bookings).find? id = _
      cases ht : bookings.insert? v with
      | none => rfl
      | some t => rw [Option.getD_some, Table.find?_insert? ht, key_booking, if_neg hne]

theorem clashes_apply_le {q : Request resources} {k : Draft} {w : Write} {bookings : Table Booking}
    (hk : (slots resources).prep q bookings = some k) (hw : (slots resources).plan k bookings = some w)
    {env : Env} (hsame : env.resources = resources) {tenantId : Uuid} {ids : List Uuid}
    (hdisj : ∀ x ∈ lockResources env tenantId ids, x ∉ (slots resources).locks k) (start finish : Instant)
    (ex : Option Uuid) :
    ((slots resources).apply w bookings).rows.countP (clashes tenantId ids start finish ex) ≤
      bookings.rows.countP (clashes tenantId ids start finish ex) := by
  rcases planned hk hw with ⟨b, v, rfl, hb, -, title, url, services, attendees, cfv, version, rfl⟩ | ⟨r, v, ex', h⟩
  · refine Table.countP_save_le fun c hc hkey hq => ?_
    rw [Table.eq_of_key hc hb hkey]
    exact hq
  · refine h.put.count_of_not _ ?_
    by_contra hq
    simp only [clashes, Bool.not_eq_false, Bool.and_eq_true, beq_iff_eq, List.contains_iff_mem] at hq
    obtain ⟨⟨⟨⟨hten, hin⟩, -⟩, -⟩, -⟩ := hq
    -- the room of the row that was written is locked by both
    have hmine : r.id ∈ lockResources env tenantId ids := by
      rw [h.books.1] at hin
      exact mem_lockResources.2 ⟨r, by rw [hsame]; exact h.room, h.books.2.symm.trans hten, hin, rfl⟩
    refine hdisj r.id hmine ?_
    rw [h.locks]
    exact mem_lockResources.2 ⟨r, by rw [q.same]; exact h.room, h.books.2.symm, self_mem_related _ _ r, rfl⟩

/-- **Stability.** What a transaction has read stays true while others commit. -/
theorem slots_stable : (slots resources).Stable OneAtATime where
  prep {t u k l v bookings} hc hk hl hv := by
    have hfind := find?_apply hl hv hc
    cases hcall : t.call with
    | create tenantId userId dto newId =>
      simp only [slots, hcall] at hk ⊢
      exact hk
    | update tenantId userId role id dto =>
      rw [hcall] at hfind
      have : findBooking ((slots resources).apply v bookings) tenantId id = findBooking bookings tenantId id :=
        congrArg _ hfind
      simp only [slots, hcall] at hk this ⊢
      rw [← hk, updateAdmit, updateAdmit, this]
  plan {t u k l w v bookings} hc hk hl hdisj hw hv := by
    have hfind := find?_apply hl hv hc
    have hle := fun {env : Env} hs {tenantId : Uuid} {ids : List Uuid} hd =>
      @clashes_apply_le _ u l v bookings hl hv env hs tenantId ids hd
    cases hcall : t.call with
    | create tenantId userId dto newId =>
      simp only [slots, hcall, Option.map_eq_some_iff, toOption_eq_some, Prod.exists] at hk
      obtain ⟨slot, row, hadm, rfl⟩ := hk
      simp only [slots, Option.map_eq_some_iff, toOption_eq_some] at hw
      obtain ⟨bookings', hcom, rfl⟩ := hw
      obtain ⟨hcheck, hins⟩ := createCommit_ok hcom
      have hcheck' := assertNoConflict_mono (hle t.same hdisj slot.start slot.finish none) hcheck
      have hid : row.id = t.call.bookingId := by rw [hcall]; exact (createAdmit_ok hadm).id
      obtain ⟨bookings'', hins'⟩ := Table.insert?_of_find? (t := (slots resources).apply v bookings) (a := row)
        (by rw [key_booking, hid, hfind, ← hid]; exact (Table.insert?_eq_some_iff.1 hins).1)
      have hcom' : createCommit ((slots resources).apply v bookings) slot row = .ok bookings'' := by
        rw [createCommit, bind_eq_ok]
        exact ⟨(), hcheck', by rw [found_eq_ok]; exact hins'⟩
      show (createCommit _ slot row).toOption.map _ = _
      rw [hcom']
      rfl
    | update tenantId userId role id dto =>
      simp only [slots, hcall, Option.map_eq_some_iff, toOption_eq_some, Prod.exists] at hk
      obtain ⟨b, slot, hadm, rfl⟩ := hk
      cases slot with
      | none => exact hw
      | some sl =>
        simp only [slots, Option.map_eq_some_iff, toOption_eq_some] at hw
        obtain ⟨saved, hcom, rfl⟩ := hw
        simp only [updateCommit, bind_eq_ok] at hcom
        obtain ⟨⟨⟩, hcheck, hf⟩ := hcom
        have hcheck' := assertNoConflict_mono (hle t.same hdisj sl.start sl.finish (some b.id)) hcheck
        have hcom' : updateCommit t.env tenantId dto b (some sl) ((slots resources).apply v bookings) = .ok saved := by
          rw [updateCommit, bind_eq_ok]
          exact ⟨(), hcheck', hf⟩
        show (updateCommit _ _ _ _ _ _).toOption.map _ = _
        rw [hcom']
        rfl

/-! ### No double booking -/

/-- **No double booking.** Whatever the interleaving of `create` and `update` transactions, no committed state
books a room twice. -/
theorem no_double_booking (hwf : WellFormed resources) {db : Table Booking} (hdb : NoDoubleBooking resources db)
    {s : Protocol.State (Table Booking) (Request resources) Draft Uuid Write}
    (hs : (slots resources).Reach OneAtATime db s) : NoDoubleBooking resources s.db := by
  refine (Protocol.serial_of_reach slots_stable hs).invariant ?_ hdb
  intro q k w bookings hinv hk hw
  rcases planned hk hw with ⟨b, v, rfl, hb, -, he⟩ | ⟨r, v, ex, h⟩
  · exact hinv.edit hb he
  · have hput := h.put
    obtain ⟨env, same, now, call⟩ := q
    subst same
    exact hinv.put hwf h.room h.books h.exclude h.check hput

def splitRooms : Table Resource :=
  ⟨[{ id := "hall", tenantId := "t", compositeMode := .parent },
    { id := "hall-a", tenantId := "t", compositeMode := .child, parentResourceId := some "hall" },
    { id := "pod", tenantId := "t", bookingMode := .shared, sharedCapacity := 2 }], by decide⟩

/-- The hall and its part are asked for at the same time; the request for the hall commits first. -/
theorem no_double_booking_split : ∃ s : Protocol.State (Table Booking) (Request splitRooms) Draft Uuid Write,
    (slots splitRooms).Reach OneAtATime .empty s ∧ s.log.length = 1 ∧ (s.txns 1).isSome = true ∧
      NoDoubleBooking splitRooms s.db := by
  have hwf : WellFormed splitRooms := by
    constructor
    · simp [splitRooms, ChildOf]
    · simp [splitRooms]
  have hdb : NoDoubleBooking splitRooms .empty := ⟨by simp, fun p _ _ t => by simp [capacity]⟩
  let hall : Request splitRooms := ⟨office splitRooms .empty .empty, rfl, 0,
    .create "t" "u" { resourceId := "hall", startTime := 3600000, endTime := 7200000 } "b1"⟩
  let part : Request splitRooms := ⟨office splitRooms .empty .empty, rfl, 0,
    .create "t" "v" { resourceId := "hall-a", startTime := 3600000, endTime := 7200000 } "b2"⟩
  have hs : ∃ s, (slots splitRooms).Reach OneAtATime .empty s ∧ s.log.length = 1 ∧ (s.txns 1).isSome = true := by
    refine ⟨_, .step (.step (.step (.step (.step (.step (.step (.step .init (.start (i := 0) hall rfl ?_))
      (.start (i := 1) part rfl ?_)) (.read (i := 0) rfl rfl)) (.read (i := 1) rfl rfl))
      (.lock (i := 0) rfl ?_)) (.lock (i := 0) rfl ?_)) (.plan (i := 0) rfl rfl)) (.commit (i := 0) rfl), ?_, ?_⟩
    · intro j u ph h
      simp [Protocol.init] at h
    · intro j u ph h
      simp only [Protocol.init, Function.update_apply] at h
      split at h
      · simp only [Option.some.injEq, Prod.mk.injEq] at h
        rw [← h.1]
        exact ⟨by decide, by decide⟩
      · cases h
    -- the request for the part has not locked anything yet
    · intro j u ph hne h
      rcases j with _ | _ | j
      · exact absurd rfl hne
      · cases h
        exact List.not_mem_nil
      · cases h
    · intro j u ph hne h
      rcases j with _ | _ | j
      · exact absurd rfl hne
      · cases h
        exact List.not_mem_nil
      · cases h
    · rfl
    · rfl
  obtain ⟨s, hreach, hlog, htx⟩ := hs
  exact ⟨s, hreach, hlog, htx, no_double_booking hwf hdb hreach⟩

end BookingSystem.Concurrency
