import BookingSystem.Contracts.DurationCaps
import Mathlib.Data.List.Pairwise

/-!
# Moving a series

An edit of the times of a series moves its occurrences one after another. Each of them has to be free of the bookings
as they stand by then, with the later occurrences still in their old places. `moves_iff` says when all of them are
moved, if there is room for them where they go.
-/

namespace BookingSystem.Contracts.SeriesMoves

open Base Model Model.BookingsService Effects
open Contracts.Kiosk Contracts.DurationCaps

section Moves

variable (env : Env) (now : Instant) (userId : Uuid) (r : Resource) (dto : UpdateBookingDto) (anchor : Booking)
  (rid : Uuid) (bookings : Table Booking) (target : Booking → Instant × Instant)

/-- The occurrences that the edit moves, in their order: those to come that are not settled. -/
def movable : List Booking :=
  ((bookings.rows.filter fun b => b.tenantId == r.tenantId && b.recurrenceId == some rid).insertionSort
    fun b b' => b.startTime ≤ b'.startTime).filter
      fun s => !(terminalStatuses.contains s.status || s.startTime < now)

/-- The edit of one occurrence, after the one that the user has edited. -/
def patch (s : Booking) : UpdateBookingDto :=
  let tz := env.timezone r.tenantId
  seriesPatch tz dto (dto.startTime.map (wallShift tz anchor.startTime))
    (dto.endTime.map (wallShift tz anchor.endTime)) s

def asked (s : Booking) : Instant × Instant :=
  ((patch env r dto anchor s).startTime.getD s.startTime, (patch env r dto anchor s).endTime.getD s.endTime)

def slot (s : Booking) : Set Instant := Set.Ico (target s).1 (target s).2

/-- The user's occurrences all go to windows that the rules and the opening hours allow, in a room that takes one
booking at a time; the windows are apart from each other, and from all other bookings. -/
structure Roomy : Prop where
  owner : ∀ s ∈ movable now r rid bookings, s.userId = userId
  room : ∀ s ∈ movable now r rid bookings, env.resource r.tenantId (dto.resourceId.getD s.resourceId) = some r
  exclusive : r.bookingMode = .exclusive
  ordered : ∀ s ∈ movable now r rid bookings, (asked env r dto anchor s).1 < (asked env r dto anchor s).2
  fits : ∀ s ∈ movable now r rid bookings,
    Fits env now r (asked env r dto anchor s).1 (asked env r dto anchor s).2 (target s)
  apart : (movable now r rid bookings).Pairwise fun s s' => Disjoint (slot target s) (slot target s')
  others : ∀ s ∈ movable now r rid bookings, ∀ b ∈ bookings.rows, b ∉ movable now r rid bookings →
    b.tenantId = r.tenantId → b.status.released = false → Counted env.resources b r →
    Disjoint (Concurrency.window b) (slot target s)

/-- Besides its time, an occurrence can be edited as asked: the room can be booked, and accepts the answers. -/
def Editable (s : Booking) : Prop :=
  r.isActive = true ∧ ∀ incoming, dto.customFieldValues = some incoming →
    ∃ cleaned, validateCustomFields r (mergeKeys (s.customFieldValues.getD []) incoming) = .ok cleaned

/-- A later occurrence is not in the way of an earlier one before it is moved itself. -/
def Clear (s s' : Booking) : Prop := Counted env.resources s' r → Disjoint (Concurrency.window s') (slot target s)

variable {env now userId r dto anchor rid bookings target}

/-! ### One edit -/

theorem noConflict_except_iff {id : Uuid} {s e : Instant} (hex : r.bookingMode = .exclusive) :
    assertNoConflict bookings r.tenantId (relatedResourceIds env r.tenantId r) s e (some id) r = .ok () ↔
      ∀ b ∈ bookings.rows, b.id ≠ id → b.tenantId = r.tenantId → b.status.released = false →
        Counted env.resources b r → Disjoint (Concurrency.window b) (Set.Ico s e) := by
  have hpod : isPod r = false := by simp [isPod, hex]
  have hzero : ∀ n : ℕ, (n : ℤ) < 1 ↔ n = 0 := by omega
  rw [Concurrency.assertNoConflict_ok, hpod, if_neg Bool.false_ne_true, hzero, List.countP_eq_zero]
  refine forall₂_congr fun b _ => ?_
  have hoverlap := @Concurrency.rangesOverlap_iff b.startTime b.endTime s e
  simp only [Concurrency.clashes, Bool.and_eq_true, beq_iff_eq, Bool.not_eq_true', List.contains_iff_mem,
    mem_relatedResourceIds, bne_iff_ne, ne_eq, Option.some.injEq, hoverlap, Concurrency.window]
  tauto

theorem applyFields_iff {tenantId : Uuid} {b : Booking} (hr : env.resource tenantId b.resourceId = some r) :
    (∃ saved, applyFields env tenantId dto b = .ok saved) ↔ ∀ incoming, dto.customFieldValues = some incoming →
      ∃ cleaned, validateCustomFields r (mergeKeys (b.customFieldValues.getD []) incoming) = .ok cleaned := by
  unfold applyFields
  cases hc : dto.customFieldValues with
  | none => exact iff_of_true ⟨_, rfl⟩ fun _ h => nomatch h
  | some incoming =>
    simp only [hr, bind_eq_ok, pure_eq_ok, Option.some.injEq, forall_eq']
    constructor
    · rintro ⟨_, cleaned, h, -⟩
      exact ⟨cleaned, h⟩
    · rintro ⟨cleaned, h⟩
      exact ⟨_, cleaned, h, rfl⟩

/-- An edit of the time of a booking that fits into the room is accepted iff the room can be booked, no other booking is
in the way, and the answers are accepted. -/
theorem applyUpdate_iff {role : String} {s : Booking} {w : Instant × Instant}
    (hfind : findBooking bookings r.tenantId s.id = some s) (howner : s.userId = userId)
    (hopen : s.status ∉ terminalStatuses) (htime : timeChanged dto = true)
    (hr : env.resource r.tenantId (dto.resourceId.getD s.resourceId) = some r)
    (hlt : dto.startTime.getD s.startTime < dto.endTime.getD s.endTime)
    (hfits : Fits env now r (dto.startTime.getD s.startTime) (dto.endTime.getD s.endTime) w) :
    (∃ saved, applyUpdate env now r.tenantId userId role s.id dto bookings = .ok saved) ↔ Editable r dto s ∧
      assertNoConflict bookings r.tenantId (relatedResourceIds env r.tenantId r) w.1 w.2 (some s.id) r = .ok () := by
  obtain ⟨hdates, hrules, hhours⟩ := fits_iff.1 hfits
  have hself : env.resource r.tenantId r.id = some r :=
    Env.resource_eq_some.2 ⟨(Env.resource_eq_some.1 hr).1, rfl, rfl⟩
  have hmoved : (reschedule s ⟨r, relatedResourceIds env r.tenantId r, w.1, w.2⟩).resourceId = r.id := rfl
  have hfields := @applyFields_iff env r dto r.tenantId
    (reschedule s ⟨r, relatedResourceIds env r.tenantId r, w.1, w.2⟩) (by rw [hmoved, hself])
  constructor
  · rintro ⟨saved, h⟩
    simp only [applyUpdate, bind_eq_ok, Prod.exists] at h
    obtain ⟨b, sl, hadm, hcom⟩ := h
    simp only [updateAdmit, bind_eq_ok, require_eq_ok, found_eq_ok, hfind, htime, Bool.true_or, if_true,
      Option.some.injEq] at hadm
    obtain ⟨_, rfl, ⟨⟩, -, ⟨⟩, -, ⟨⟩, -, r', hr', ⟨⟩, hactive, w', hw', ⟨⟩, -, ⟨⟩, -, hadm⟩ := hadm
    obtain rfl := Option.some.inj (hr.symm.trans hr')
    obtain ⟨rfl, rfl⟩ := Prod.mk.inj (pure_eq_ok.1 hadm)
    obtain rfl := Except.ok.inj (hw'.symm.trans hdates)
    simp only [updateCommit, bind_eq_ok] at hcom
    obtain ⟨⟨⟩, hfree, happ⟩ := hcom
    exact ⟨⟨hactive, hfields.1 ⟨saved, happ⟩⟩, hfree⟩
  · rintro ⟨⟨hactive, hanswers⟩, hfree⟩
    obtain ⟨saved, happ⟩ := hfields.2 hanswers
    have hadm : updateAdmit env now r.tenantId userId role s.id dto bookings =
        .ok (s, some ⟨r, relatedResourceIds env r.tenantId r, w.1, w.2⟩) := by
      simp only [updateAdmit, bind_eq_ok, require_eq_ok, found_eq_ok, htime, Bool.true_or, if_true]
      exact ⟨s, hfind, (), by simp [howner], (), by simpa using hopen, (), decide_eq_true hlt, r, hr, (), hactive, w,
        hdates, (), hrules, (), hhours, rfl⟩
    exact ⟨saved, bind_eq_ok.2 ⟨_, hadm, bind_eq_ok.2 ⟨(), hfree, happ⟩⟩⟩

theorem applyUpdate_saved {role : String} {s saved : Booking} {w : Instant × Instant}
    (hfind : findBooking bookings r.tenantId s.id = some s) (htime : timeChanged dto = true)
    (hr : env.resource r.tenantId (dto.resourceId.getD s.resourceId) = some r)
    (hfits : Fits env now r (dto.startTime.getD s.startTime) (dto.endTime.getD s.endTime) w)
    (h : applyUpdate env now r.tenantId userId role s.id dto bookings = .ok saved) :
    saved.id = s.id ∧ saved.startTime = w.1 ∧ saved.endTime = w.2 := by
  obtain ⟨b, hb⟩ := applyUpdate_ok h
  obtain rfl := Option.some.inj (hfind.symm.trans hb.found)
  have hsaved := (Accepts.update hfind hr htime h).fits
  exact ⟨hb.id_eq, Option.some.inj (hsaved.startMapped.symm.trans hfits.startMapped),
    Option.some.inj (hsaved.finishMapped.symm.trans hfits.finishMapped)⟩

/-! ### The loop -/

theorem mem_movable {s : Booking} : s ∈ movable now r rid bookings ↔ s ∈ bookings.rows ∧ s.tenantId = r.tenantId ∧
    s.recurrenceId = some rid ∧ s.status ∉ terminalStatuses ∧ now ≤ s.startTime := by
  rw [movable, List.mem_filter, List.mem_insertionSort, List.mem_filter]
  simp only [Bool.and_eq_true, beq_iff_eq, Bool.not_eq_true', Bool.or_eq_false_iff, List.contains_eq_mem,
    decide_eq_false_iff_not, not_lt]
  tauto

theorem nodup_movable : (movable now r rid bookings).Nodup := by
  have hrows : bookings.rows.Nodup := List.Nodup.of_map _ bookings.nodup
  exact ((List.perm_insertionSort _ _).nodup_iff.2 (hrows.filter _)).filter _

theorem not_released_of_open {b : Booking} (h : b.status ∉ terminalStatuses) : b.status.released = false := by
  cases hst : b.status <;> simp_all [terminalStatuses, BookingStatus.released]

theorem timeChanged_patch (s : Booking) : timeChanged (patch env r dto anchor s) = timeChanged dto := by
  simp [timeChanged, patch, seriesPatch]

variable (now r rid bookings target) in
/-- The bookings while some of the occurrences are still to be moved. -/
structure Halfway (todo : List Booking) (t : Table Booking) : Prop where
  stored : ∀ s ∈ todo, s ∈ t.rows
  rows : ∀ b ∈ t.rows, (b ∈ bookings.rows ∧ b ∉ movable now r rid bookings) ∨ b ∈ todo ∨
    ∃ s ∈ movable now r rid bookings, s ∉ todo ∧ b.id = s.id ∧ b.startTime = (target s).1 ∧ b.endTime = (target s).2
  moved : ∀ s ∈ movable now r rid bookings, s ∉ todo →
    ∃ b, t.find? s.id = some b ∧ b.startTime = (target s).1 ∧ b.endTime = (target s).2

theorem Halfway.start : Halfway now r rid bookings target (movable now r rid bookings) bookings where
  stored s hs := (mem_movable.1 hs).1
  rows b hb := by
    by_cases hmem : b ∈ movable now r rid bookings
    · exact .inr (.inl hmem)
    · exact .inl ⟨hb, hmem⟩
  moved s hs hnot := absurd hs hnot

section Turn

variable {todo : List Booking} {s : Booking} {t : Table Booking} (hroomy : Roomy env now userId r dto anchor rid
  bookings target) (htime : timeChanged dto = true) (hmov : ∀ x ∈ s :: todo, x ∈ movable now r rid bookings)
  (hnodup : (s :: todo).Nodup) (h : Halfway now r rid bookings target (s :: todo) t)

include hnodup h in
theorem id_ne_of_later {s' : Booking} (hs' : s' ∈ todo) : s'.id ≠ s.id := by
  intro hid
  have heq := Table.eq_of_key (h.stored s' (List.mem_cons_of_mem _ hs')) (h.stored s List.mem_cons_self) hid
  exact (List.nodup_cons.1 hnodup).1 (heq ▸ hs')

include hmov h in
theorem findBooking_next : findBooking t r.tenantId s.id = some s :=
  findBooking_eq_some.2 ⟨Table.find?_of_mem (h.stored s List.mem_cons_self),
    (mem_movable.1 (hmov s List.mem_cons_self)).2.1⟩

include hroomy hmov hnodup h in
theorem noConflict_next_iff : assertNoConflict t r.tenantId (relatedResourceIds env r.tenantId r) (target s).1
      (target s).2 (some s.id) r = .ok () ↔ ∀ s' ∈ todo, Clear env r target s s' := by
  have hs := hmov s List.mem_cons_self
  rw [noConflict_except_iff hroomy.exclusive]
  constructor
  · intro hfree s' hs' hcounted
    have hmem := mem_movable.1 (hmov s' (List.mem_cons_of_mem _ hs'))
    exact hfree s' (h.stored s' (List.mem_cons_of_mem _ hs')) (id_ne_of_later hnodup h hs') hmem.2.1
      (not_released_of_open hmem.2.2.2.1) hcounted
  · intro hclear b hb hid hten hst hcounted
    rcases h.rows b hb with ⟨hold, hnot⟩ | htodo | ⟨s₀, hs₀, hdone, hid₀, hstart, hend⟩
    · exact hroomy.others s hs b hold hnot hten hst hcounted
    · rcases List.mem_cons.1 htodo with rfl | hlater
      · exact absurd rfl hid
      · exact hclear b hlater hcounted
    · have hne : s₀ ≠ s := fun heq => hdone (heq ▸ List.mem_cons_self)
      have hsymm : Std.Symm fun a b => Disjoint (slot target a) (slot target b) := ⟨fun _ _ hab => hab.symm⟩
      have happart := hroomy.apart.forall hs₀ hs hne
      rw [Concurrency.window, hstart, hend]
      exact happart

include hroomy htime hmov hnodup h in
theorem turn_iff {role : String} :
    (∃ saved, applyUpdate env now r.tenantId userId role s.id (patch env r dto anchor s) t = .ok saved) ↔
      Editable r dto s ∧ ∀ s' ∈ todo, Clear env r target s s' := by
  have hs := hmov s List.mem_cons_self
  rw [applyUpdate_iff (findBooking_next hmov h) (hroomy.owner s hs) (mem_movable.1 hs).2.2.2.1
    ((timeChanged_patch s).trans htime) (hroomy.room s hs) (hroomy.ordered s hs) (hroomy.fits s hs),
    noConflict_next_iff hroomy hmov hnodup h]
  rfl

include hroomy htime hmov hnodup h in
theorem Halfway.save {role : String} {saved : Booking}
    (happ : applyUpdate env now r.tenantId userId role s.id (patch env r dto anchor s) t = .ok saved) :
    Halfway now r rid bookings target todo (t.save saved) := by
  have hs := hmov s List.mem_cons_self
  obtain ⟨hid, hstart, hend⟩ := applyUpdate_saved (findBooking_next hmov h) ((timeChanged_patch s).trans htime)
    (hroomy.room s hs) (hroomy.fits s hs) happ
  have hlast : s ∉ todo := (List.nodup_cons.1 hnodup).1
  refine ⟨fun s' hs' => ?_, fun b hb => ?_, fun s' hs' hnot => ?_⟩
  · refine Table.mem_save.2 (.inr ⟨h.stored s' (List.mem_cons_of_mem _ hs'), fun hkey => ?_⟩)
    exact id_ne_of_later hnodup h hs' (hkey.trans hid)
  · rcases Table.mem_save.1 hb with ⟨rfl, -⟩ | ⟨hb, hkey⟩
    · exact .inr (.inr ⟨s, hs, hlast, hid, hstart, hend⟩)
    · rcases h.rows b hb with hold | htodo | ⟨s₀, hs₀, hdone, hrow⟩
      · exact .inl hold
      · rcases List.mem_cons.1 htodo with rfl | hlater
        · exact absurd hid.symm hkey
        · exact .inr (.inl hlater)
      · exact .inr (.inr ⟨s₀, hs₀, fun hmem => hdone (List.mem_cons_of_mem _ hmem), hrow⟩)
  · by_cases heq : s' = s
    · subst heq
      exact ⟨saved, Table.find?_save_of_key hid (Table.find?_of_mem (h.stored _ List.mem_cons_self)), hstart, hend⟩
    · have hne : key saved ≠ s'.id := fun hkey => heq <|
        Table.eq_of_key (mem_movable.1 hs').1 (mem_movable.1 hs).1 (hkey.symm.trans hid)
      rw [Table.find?_save_of_ne hne]
      exact h.moved s' hs' fun hmem => (List.mem_cons.1 hmem).elim heq hnot

end Turn

def moveAll (env : Env) (now : Instant) (userId : Uuid) (r : Resource) (dto : UpdateBookingDto) (anchor : Booking)
    (role : String) (acc : SeriesState) (todo : List Booking) : SeriesState :=
  todo.foldl (seriesTurn env now r.tenantId userId role (patch env r dto anchor)) acc

theorem moveAll_cons {role : String} {acc : SeriesState} {s : Booking} {todo : List Booking}
    (hs : s ∈ movable now r rid bookings) : moveAll env now userId r dto anchor role acc (s :: todo) =
      moveAll env now userId r dto anchor role
        (match applyUpdate env now r.tenantId userId role s.id (patch env r dto anchor s) acc.bookings with
          | .ok saved => { acc with bookings := acc.bookings.save saved, updated := acc.updated + 1 }
          | .error _ => { acc with skipped := acc.skipped ++ [s.startTime] }) todo := by
  obtain ⟨-, -, -, hopen, hlater⟩ := mem_movable.1 hs
  have hturn : (terminalStatuses.contains s.status || decide (s.startTime < now)) = false := by
    simpa using ⟨hopen, hlater⟩
  rw [moveAll, List.foldl_cons, seriesTurn, hturn]
  rfl

theorem length_le_skipped {role : String} {acc : SeriesState} {todo : List Booking} :
    acc.skipped.length ≤ (moveAll env now userId r dto anchor role acc todo).skipped.length := by
  refine foldl_invariant (P := fun acc' : SeriesState => acc.skipped.length ≤ acc'.skipped.length) ?_ le_rfl
  intro acc' s _ hle
  unfold seriesTurn
  split
  · exact hle
  · split
    · exact hle
    · rw [List.length_append]
      exact hle.trans (Nat.le_add_right _ _)

theorem moveAll_iff {role : String} (hroomy : Roomy env now userId r dto anchor rid bookings target)
    (htime : timeChanged dto = true) {todo : List Booking} (hmov : ∀ x ∈ todo, x ∈ movable now r rid bookings)
    (hnodup : todo.Nodup) {acc : SeriesState} (h : Halfway now r rid bookings target todo acc.bookings) :
    ((moveAll env now userId r dto anchor role acc todo).skipped = acc.skipped ↔
        (∀ s ∈ todo, Editable r dto s) ∧ todo.Pairwise (Clear env r target)) ∧
      ((moveAll env now userId r dto anchor role acc todo).skipped = acc.skipped →
        Halfway now r rid bookings target [] (moveAll env now userId r dto anchor role acc todo).bookings) := by
  induction todo generalizing acc with
  | nil => exact ⟨iff_of_true rfl ⟨fun _ hs => (nomatch hs), .nil⟩, fun _ => h⟩
  | cons s todo ih =>
    have hmov' : ∀ x ∈ todo, x ∈ movable now r rid bookings := fun x hx => hmov x (List.mem_cons_of_mem _ hx)
    have hturn := @turn_iff env now userId r dto anchor rid bookings target todo s acc.bookings hroomy htime hmov hnodup
      h role
    rw [moveAll_cons (hmov s List.mem_cons_self), List.forall_mem_cons, List.pairwise_cons]
    cases happ : applyUpdate env now r.tenantId userId role s.id (patch env r dto anchor s) acc.bookings with
    | ok saved =>
      obtain ⟨hedit, hclear⟩ := hturn.1 ⟨saved, happ⟩
      obtain ⟨hskipped, hhalf⟩ := @ih hmov' (List.nodup_cons.1 hnodup).2
        { acc with bookings := acc.bookings.save saved, updated := acc.updated + 1 }
        (h.save hroomy htime hmov hnodup happ)
      refine ⟨hskipped.trans ?_, hhalf⟩
      exact ⟨fun hrest => ⟨⟨hedit, hrest.1⟩, hclear, hrest.2⟩, fun hall => ⟨hall.1.2, hall.2.2⟩⟩
    | error e =>
      have hmore : (moveAll env now userId r dto anchor role
          { acc with skipped := acc.skipped ++ [s.startTime] } todo).skipped ≠ acc.skipped := fun heq => by
        have hle := @length_le_skipped env now userId r dto anchor role
          { acc with skipped := acc.skipped ++ [s.startTime] } todo
        rw [heq, List.length_append, List.length_singleton] at hle
        omega
      refine ⟨iff_of_false hmore fun hall => ?_, fun heq => absurd heq hmore⟩
      obtain ⟨saved, hsaved⟩ := hturn.2 ⟨hall.1.1, hall.2.1⟩
      rw [happ] at hsaved
      cases hsaved

theorem foldl_siblings {role : String} (acc : SeriesState) (l : List Booking) :
    l.foldl (seriesTurn env now r.tenantId userId role (patch env r dto anchor)) acc =
      moveAll env now userId r dto anchor role acc
        (l.filter fun s => !(terminalStatuses.contains s.status || s.startTime < now)) := by
  rw [moveAll, List.foldl_filter]
  refine congrArg (fun f => List.foldl f acc l) (funext₂ fun acc s => ?_)
  cases hskip : terminalStatuses.contains s.status || decide (s.startTime < now) with
  | true => rw [seriesTurn, hskip, if_pos rfl, Bool.not_true, if_neg Bool.false_ne_true]
  | false => rw [Bool.not_false, if_pos rfl]

variable (env now userId r dto anchor rid target) in
/-- The edit of the series skips no occurrence, and leaves all that it moves in their new places. -/
def MovesAll (role : String) (id : Uuid) (st : Store) : Prop :=
  ∃ st' result, updateSeries env now r.tenantId userId role id dto st = .ok (st', result) ∧ result.skipped = [] ∧
    ∀ s ∈ movable now r rid st.bookings, ∃ b, st'.bookings.find? s.id = some b ∧
      b.startTime = (target s).1 ∧ b.endTime = (target s).2

/-- **Moving a series.** If there is room for the occurrences where they go, all of them are moved, if and only if they
can be edited as asked and no occurrence goes to where a later one still is. -/
theorem moves_iff {role : String} {id : Uuid} {st : Store}
    (hanchor : findBooking st.bookings r.tenantId id = some anchor) (howner : anchor.userId = userId)
    (hrid : anchor.recurrenceId = some rid) (htime : timeChanged dto = true)
    (hroomy : Roomy env now userId r dto anchor rid st.bookings target) :
    MovesAll env now userId r dto rid target role id st ↔
      (∀ s ∈ movable now r rid st.bookings, Editable r dto s) ∧
        (movable now r rid st.bookings).Pairwise (Clear env r target) := by
  obtain ⟨hall, hmoved⟩ := @moveAll_iff env now userId r dto anchor rid st.bookings target role hroomy htime _
    (fun _ h => h) nodup_movable ⟨st.bookings, 0, []⟩ Halfway.start
  have hloop := @foldl_siblings env now userId r dto anchor role ⟨st.bookings, 0, []⟩
    ((st.bookings.rows.filter fun b => b.tenantId == r.tenantId && b.recurrenceId == some rid).insertionSort
      fun b b' => b.startTime ≤ b'.startTime)
  rw [← movable] at hloop
  have hrun : updateSeries env now r.tenantId userId role id dto st =
      let out := moveAll env now userId r dto anchor role ⟨st.bookings, 0, []⟩ (movable now r rid st.bookings)
      .ok ({ st with bookings := out.bookings }, ⟨out.updated, out.skipped⟩) := by
    rw [← hloop]
    refine bind_eq_ok.2 ⟨anchor, found_eq_ok.2 hanchor, bind_eq_ok.2 ⟨(), require_of (by simp [howner]), ?_⟩⟩
    rw [hrid]
    rfl
  rw [← hall, MovesAll, hrun]
  constructor
  · rintro ⟨st', result, heq, hskipped, -⟩
    obtain ⟨rfl, rfl⟩ := Prod.mk.inj (Except.ok.inj heq)
    exact hskipped
  · intro hskipped
    exact ⟨_, _, rfl, hskipped, fun s hs => (hmoved hskipped).moved s hs List.not_mem_nil⟩

end Moves

/-! ### A daily meeting -/

def meeting (id : Uuid) (day : ℤ) : Booking :=
  { id, tenantId := "t", resourceId := "r", userId := "u", startTime := day * msPerDay + 32400000
    endTime := day * msPerDay + 36000000, status := .confirmed, recurrenceId := some "s" }

def twoDays : Store := { Store.empty with bookings := ⟨[meeting "a" 1, meeting "b" 2], by decide⟩ }

def shift (start : Instant) : UpdateBookingDto := { startTime := some start, endTime := some (start + 3600000) }

def later (d : ℤ) (s : Booking) : Instant × Instant := (s.startTime + d, s.endTime + d)

theorem movable_twoDays : movable 0 studio "s" twoDays.bookings = [meeting "a" 1, meeting "b" 2] := by decide

theorem roomy_of {d : ℤ} (hfits : ∀ s ∈ [meeting "a" 1, meeting "b" 2],
      Fits studioOnly 0 studio (s.startTime + d) (s.endTime + d) (later d s))
    (hasked : ∀ s ∈ [meeting "a" 1, meeting "b" 2],
      asked studioOnly studio (shift (msPerDay + 32400000 + d)) (meeting "a" 1) s = later d s) :
    Roomy studioOnly 0 "u" studio (shift (msPerDay + 32400000 + d)) (meeting "a" 1) "s" twoDays.bookings (later d) := by
  refine ⟨?_, ?_, rfl, ?_, ?_, ?_, ?_⟩
  · rw [movable_twoDays]
    decide
  · rw [movable_twoDays]
    intro s hs
    have hroom : ∀ s ∈ [meeting "a" 1, meeting "b" 2], s.resourceId = "r" := by decide
    rw [hroom s hs]
    rfl
  · rw [movable_twoDays]
    intro s hs
    have hlt : ∀ s ∈ [meeting "a" 1, meeting "b" 2], s.startTime < s.endTime := by decide
    rw [hasked s hs]
    exact Int.add_lt_add_right (hlt s hs) d
  · rw [movable_twoDays]
    intro s hs
    rw [hasked s hs]
    exact hfits s hs
  · rw [movable_twoDays, List.pairwise_pair, slot, slot, Set.Ico_disjoint_Ico]
    simp [later, meeting, msPerDay]
  · rw [movable_twoDays]
    exact fun s _ b hb hnot => absurd hb hnot

/-- An hour earlier, both meetings are moved. -/
theorem moves_iff_earlier : MovesAll studioOnly 0 "u" studio (shift (msPerDay + 32400000 + -3600000)) "s"
    (later (-3600000)) "Staff" "a" twoDays := by
  have hroomy := @roomy_of (-3600000) (by
    simp only [List.forall_mem_cons, fits_iff]
    decide +kernel) (by decide +kernel)
  refine (@moves_iff studioOnly 0 "u" studio _ (meeting "a" 1) "s" (later (-3600000)) "Staff" "a" twoDays rfl rfl rfl
    rfl hroomy).2 ⟨?_, ?_⟩
  · exact fun s _ => ⟨rfl, fun _ h => nomatch h⟩
  · rw [movable_twoDays, List.pairwise_pair, Clear, slot, Concurrency.window, Set.Ico_disjoint_Ico]
    exact fun _ => by decide

/-- A day later, the first one would be where the second one still is: it is skipped. -/
theorem day_later_skipped :
    Roomy studioOnly 0 "u" studio (shift (msPerDay + 32400000 + msPerDay)) (meeting "a" 1) "s" twoDays.bookings
      (later msPerDay) ∧
    ¬ MovesAll studioOnly 0 "u" studio (shift (msPerDay + 32400000 + msPerDay)) "s" (later msPerDay) "Staff" "a"
      twoDays := by
  have hskip : (updateSeries studioOnly 0 "t" "u" "Staff" "a" (shift (msPerDay + 32400000 + msPerDay)) twoDays).map
      (·.2.skipped) = .ok [msPerDay + 32400000] := by decide +kernel
  refine ⟨roomy_of (by
    simp only [List.forall_mem_cons, fits_iff]
    decide +kernel) (by decide +kernel), ?_⟩
  rintro ⟨st', result, hrun, hnone, -⟩
  have hsame : updateSeries studioOnly 0 "t" "u" "Staff" "a" (shift (msPerDay + 32400000 + msPerDay)) twoDays =
      .ok (st', result) := hrun
  rw [hsame, Except.map, hnone] at hskip
  cases hskip

end BookingSystem.Contracts.SeriesMoves
