import BookingSystem.Concurrency.Occupancy
import BookingSystem.Effects.Checkin
import BookingSystem.Model.System

/-!
# The operations on one booking row, statement by statement

Most operations on a booking read its row, change the entity in memory and save it. A save reloads the row and
writes the columns in which the entity differs from it, so an entity that was read before another operation
committed puts the columns it did not touch back. The sweep and the kiosk write with a conditional `UPDATE` instead.
`next` and `write` say what the next statement of an operation does, and `Alone.step` where an operation stands that
has run so far without another one writing.
-/

namespace BookingSystem.Concurrency

open Base Model Model.BookingsService Effects
open Model.AutoReleaseService
open Model.CheckinService (burn checkinByBooking claims issueToken key_burn markAttended markNoShow)

/-! ### `Repository.save` -/

def column {α : Type} [DecidableEq α] (entity loaded stored : α) : α := if entity = loaded then stored else entity

/-- The stored row after the `UPDATE` of a save of `entity`, which has reloaded the row as `loaded`. -/
def writeDiff (entity loaded stored : Booking) : Booking where
  id := stored.id
  tenantId := column entity.tenantId loaded.tenantId stored.tenantId
  resourceId := column entity.resourceId loaded.resourceId stored.resourceId
  userId := column entity.userId loaded.userId stored.userId
  startTime := column entity.startTime loaded.startTime stored.startTime
  endTime := column entity.endTime loaded.endTime stored.endTime
  status := column entity.status loaded.status stored.status
  title := column entity.title loaded.title stored.title
  meetingUrl := column entity.meetingUrl loaded.meetingUrl stored.meetingUrl
  exceptionNotes := column entity.exceptionNotes loaded.exceptionNotes stored.exceptionNotes
  bookingMode := column entity.bookingMode loaded.bookingMode stored.bookingMode
  customFieldValues := column entity.customFieldValues loaded.customFieldValues stored.customFieldValues
  services := column entity.services loaded.services stored.services
  attendees := column entity.attendees loaded.attendees stored.attendees
  costCenterCode := column entity.costCenterCode loaded.costCenterCode stored.costCenterCode
  delegatedTo := column entity.delegatedTo loaded.delegatedTo stored.delegatedTo
  isPrivate := column entity.isPrivate loaded.isPrivate stored.isPrivate
  isRecurring := column entity.isRecurring loaded.isRecurring stored.isRecurring
  recurrenceId := column entity.recurrenceId loaded.recurrenceId stored.recurrenceId
  checkedInAt := column entity.checkedInAt loaded.checkedInAt stored.checkedInAt
  checkinToken := column entity.checkinToken loaded.checkinToken stored.checkinToken
  checkinTokenExpiresAt :=
    column entity.checkinTokenExpiresAt loaded.checkinTokenExpiresAt stored.checkinTokenExpiresAt
  version := column entity.version loaded.version stored.version

theorem key_writeDiff (entity loaded stored : Booking) :
    (key (writeDiff entity loaded stored) : Uuid) = key stored := rfl

theorem column_self {α : Type} [DecidableEq α] (entity loaded : α) : column entity loaded loaded = entity := by
  unfold column
  split
  · rename_i h
    exact h.symm
  · rfl

theorem writeDiff_self {entity loaded : Booking} (hid : entity.id = loaded.id) :
    writeDiff entity loaded loaded = entity := by
  simp only [writeDiff, column_self, ← hid]

/-- The columns whose transitions matter. -/
inductive Column
  | status | resourceId | startTime | endTime
  deriving DecidableEq

def Column.Same (b b' : Booking) : Column → Prop
  | .status => b'.status = b.status
  | .resourceId => b'.resourceId = b.resourceId
  | .startTime => b'.startTime = b.startTime
  | .endTime => b'.endTime = b.endTime

/-- The transitions of the row: into `'Cancelled'`, `'No Show'` or `'Checked In'`, or to another room or window. -/
def Column.Moved (b b' : Booking) (c : Column) : Prop :=
  ¬ c.Same b b' ∧ (c = .status → b'.status ∈ [BookingStatus.cancelled, .noShow, .checkedIn])

instance (b b' : Booking) : (c : Column) → Decidable (c.Same b b')
  | .status => inferInstanceAs (Decidable (b'.status = b.status))
  | .resourceId => inferInstanceAs (Decidable (b'.resourceId = b.resourceId))
  | .startTime => inferInstanceAs (Decidable (b'.startTime = b.startTime))
  | .endTime => inferInstanceAs (Decidable (b'.endTime = b.endTime))

instance (b b' : Booking) (c : Column) : Decidable (c.Moved b b') := inferInstanceAs (Decidable (_ ∧ _))

theorem Column.Same.symm {b b' : Booking} {c : Column} (h : c.Same b b') : c.Same b' b := by
  cases c <;> exact Eq.symm h

theorem Column.Same.trans {b b' b'' : Booking} {c : Column} (h : c.Same b b') (h' : c.Same b' b'') :
    c.Same b b'' := by
  cases c <;> exact Eq.trans h' h

theorem same_writeDiff_stored {entity loaded stored : Booking} {c : Column} (h : c.Same loaded entity) :
    c.Same stored (writeDiff entity loaded stored) := by
  cases c <;> exact if_pos h

theorem same_writeDiff_entity {entity loaded stored : Booking} {c : Column} (h : ¬ c.Same loaded entity) :
    c.Same entity (writeDiff entity loaded stored) := by
  cases c <;> exact if_neg h

/-! ### The statements of an operation -/

/-- The operations on the booking `id`. -/
def OnBooking (id : Uuid) (e : Event) : Prop :=
  match e.op with
  | .update _ _ _ bookingId _ | .cancel _ _ _ bookingId _ | .issueToken _ _ _ bookingId _
  | .checkinByBooking _ _ _ bookingId | .markNoShow _ bookingId _ | .markAttended _ bookingId => bookingId = id
  | .redeemToken _ | .tick => True
  | _ => False

/-- The operations that read the row, change it in memory and save it. -/
def Saves (e : Event) : Prop := e.op ≠ .tick ∧ ∀ token, e.op ≠ .redeemToken token

def unlessRead (st : Store) (bookingId : Uuid) (r : Except HttpError (Store × Booking)) : Option Booking :=
  (r.toOption.map (·.2)).filter fun b => st.bookings.find? bookingId ≠ some b

/-- The entity an operation is about to save after it has read the row in `st`, and an edit of the slot has made its
conflict check on `checked`; `none` for one that ends without a save, and for the two that write with a conditional
`UPDATE`. -/
def entity (st : Store) (checked : Table Booking) (e : Event) : Option Booking :=
  match e.op with
  | .update tenantId userId role bookingId dto =>
    (updateAdmit e.env e.now tenantId userId role bookingId dto st.bookings).toOption.bind fun r =>
      (updateCommit e.env tenantId dto r.1 r.2 checked).toOption
  | .cancel tenantId userId role bookingId reason =>
    unlessRead st bookingId (cancel tenantId userId role bookingId reason st)
  | .issueToken tenantId userId isAdmin bookingId token =>
    (issueToken e.now token tenantId userId isAdmin bookingId st).toOption.bind
      fun r => r.1.bookings.find? bookingId
  | .checkinByBooking tenantId userId isAdmin bookingId =>
    unlessRead st bookingId (checkinByBooking e.now tenantId userId isAdmin bookingId st)
  | .markNoShow tenantId bookingId reason =>
    unlessRead st bookingId (markNoShow tenantId bookingId reason st)
  | .markAttended tenantId bookingId => unlessRead st bookingId (markAttended tenantId bookingId st)
  | _ => none

/-- Where an operation stands: nothing read yet; an edit that has read the row `b`, and the slot it asks for; the
entity in memory, under the locks on resource rows; the row reloaded by the save; the candidates the sweep has still
to go through; the end. -/
inductive Phase
  | ready
  | admitted (tenantId : Uuid) (dto : UpdateBookingDto) (b : Booking) (slot : Option Slot)
  | holding (locked : List Uuid) (entity : Booking)
  | reloaded (locked : List Uuid) (entity loaded : Booking)
  | sweeping (todo : List Booking)
  | done

def Phase.locked : Phase → List Uuid
  | .holding ids _ | .reloaded ids _ _ => ids
  | _ => []

def asks (e : Event) : Phase → List Uuid
  | .admitted tenantId _ _ (some slot) => lockResources e.env tenantId slot.ids
  | _ => []

def sweep (e : Event) (bookings : Table Booking) (b : Booking) : Table Booking :=
  if overdue e.env e.now b then release bookings b else bookings

/-- Where an operation stands after its next statement. The kiosk's transaction holds the row lock from its first
statement on, so it counts as one. -/
def next (id : Uuid) (e : Event) (ph : Phase) (st : Store) : Phase :=
  match ph with
  | .ready =>
    match e.op with
    | .redeemToken _ => .done
    | .tick => .sweeping (candidates e.now st.bookings)
    | .update tenantId userId role bookingId dto =>
      match updateAdmit e.env e.now tenantId userId role bookingId dto st.bookings with
      | .ok (b, slot) => .admitted tenantId dto b slot
      | .error _ => .done
    | _ =>
      match entity st st.bookings e with
      | some v => .holding [] v
      | none => .done
  | .admitted tenantId dto b slot =>
    match updateCommit e.env tenantId dto b slot st.bookings with
    | .ok v => .holding (asks e ph) v
    | .error _ => .done
  | .holding ids v =>
    match st.bookings.find? id with
    | some loaded => .reloaded ids v loaded
    | none => .done
  | .sweeping (_ :: todo) => .sweeping todo
  | _ => .done

/-- The store after the next statement of an operation. -/
def write (id : Uuid) (e : Event) (ph : Phase) (st : Store) : Store :=
  match ph with
  | .ready =>
    match e.op with
    | .redeemToken _ => step st e
    | _ => st
  | .reloaded _ v loaded =>
    { st with
      bookings := st.bookings.update (fun r => r.id == id) (writeDiff v loaded) (key_writeDiff v loaded) }
  | .sweeping (b :: _) => { st with bookings := sweep e st.bookings b }
  | _ => st

/-! ### What an operation reads -/

section Reads

variable {id : Uuid} {st : Store} {tenantId : Uuid} {v : Booking} {st' : Store}

theorem find?_saved {t : Table Booking} {b : Booking} (hb : findBooking t tenantId id = some b) (hid : v.id = b.id) :
    (t.save v).find? id = some v := by
  obtain ⟨hfind, -⟩ := findBooking_eq_some.1 hb
  exact Table.find?_save_of_key (hid.trans (Table.key_of_find? hfind)) hfind

theorem cancel_row {userId : Uuid} {role reason : String}
    (h : cancel tenantId userId role id reason st = .ok (st', v)) : st'.bookings.find? id = some v := by
  simp only [cancel, bind_eq_ok, require_eq_ok, found_eq_ok] at h
  obtain ⟨b, hb, ⟨⟩, -, h⟩ := h
  split at h
  · simp only [pure_eq_ok, Prod.mk.injEq] at h
    obtain ⟨rfl, rfl⟩ := h
    exact (findBooking_eq_some.1 hb).1
  · simp only [bind_eq_ok, require_eq_ok, pure_eq_ok, Prod.mk.injEq] at h
    obtain ⟨⟨⟩, -, rfl, rfl⟩ := h
    exact find?_saved hb rfl

theorem checkinByBooking_row {now : Instant} {userId : Uuid} {admin : Bool}
    (h : checkinByBooking now tenantId userId admin id st = .ok (st', v)) : st'.bookings.find? id = some v := by
  simp only [checkinByBooking, bind_eq_ok, require_eq_ok, found_eq_ok, pure_eq_ok, Prod.mk.injEq] at h
  obtain ⟨b, hb, ⟨⟩, -, saved, happ, rfl, rfl⟩ := h
  obtain ⟨-, at', rfl⟩ := applyCheckin_ok happ
  exact find?_saved hb rfl

theorem markNoShow_row {reason : Option String} (h : markNoShow tenantId id reason st = .ok (st', v)) :
    st'.bookings.find? id = some v := by
  simp only [markNoShow, bind_eq_ok, found_eq_ok] at h
  obtain ⟨b, hb, h⟩ := h
  split at h
  · simp only [pure_eq_ok, Prod.mk.injEq] at h
    obtain ⟨rfl, rfl⟩ := h
    exact (findBooking_eq_some.1 hb).1
  · simp only [pure_eq_ok, Prod.mk.injEq] at h
    obtain ⟨rfl, rfl⟩ := h
    exact find?_saved hb rfl

theorem markAttended_row (h : markAttended tenantId id st = .ok (st', v)) : st'.bookings.find? id = some v := by
  simp only [markAttended, bind_eq_ok, found_eq_ok] at h
  obtain ⟨b, hb, h⟩ := h
  split at h
  · simp only [pure_eq_ok, Prod.mk.injEq] at h
    obtain ⟨rfl, rfl⟩ := h
    exact (findBooking_eq_some.1 hb).1
  · simp only [bind_eq_ok, require_eq_ok, pure_eq_ok, Prod.mk.injEq] at h
    obtain ⟨⟨⟩, -, rfl, rfl⟩ := h
    exact find?_saved hb rfl

theorem unlessRead_eq_some {r : Except HttpError (Store × Booking)} :
    unlessRead st id r = some v ↔ ∃ st', r = .ok (st', v) ∧ st.bookings.find? id ≠ some v := by
  simp only [unlessRead, Option.filter_eq_some_iff, Option.map_eq_some_iff, toOption_eq_some, decide_eq_true_eq]
  constructor
  · rintro ⟨⟨⟨st', w⟩, hr, rfl⟩, h⟩
    exact ⟨st', hr, h⟩
  · rintro ⟨st', hr, h⟩
    exact ⟨⟨(st', v), hr, rfl⟩, h⟩

theorem saved_row {b b' w : Booking} (hb : st.bookings.find? id = some b)
    (hb' : findBooking st.bookings tenantId id = some b') (hrow : (st.bookings.save w).find? id = some v)
    (hid : w.id = b'.id) : b' = b ∧ b.tenantId = tenantId ∧ v = w := by
  obtain ⟨hfind, hten⟩ := findBooking_eq_some.1 hb'
  obtain rfl := Option.some.inj (hb.symm.trans hfind)
  exact ⟨rfl, hten, Option.some.inj (hrow.symm.trans (find?_saved hb' hid))⟩

theorem settle_unlessRead {r : Except HttpError (Store × Booking)}
    (hrow : ∀ st' v, r = .ok (st', v) → st'.bookings.find? id = some v) :
    (settle r st).bookings.find? id = (unlessRead st id r).or (st.bookings.find? id) := by
  cases r with
  | error e => rfl
  | ok p =>
    obtain ⟨st', v⟩ := p
    rw [settle_ok, hrow st' v rfl]
    by_cases hv : st.bookings.find? id = some v
    · simp [unlessRead, Except.toOption, hv, Option.filter]
    · simp [unlessRead, Except.toOption, hv, Option.filter]

/-- **An operation in one go.** An operation that reads and saves leaves its entity as the row, or else the row as it
was. -/
theorem step_entity {e : Event} (he : OnBooking id e) (hs : Saves e) :
    (step st e).bookings.find? id = (entity st st.bookings e).or (st.bookings.find? id) := by
  obtain ⟨env, now, op⟩ := e
  cases op with
  | update tenantId userId role bookingId dto =>
    obtain rfl : bookingId = id := he
    have hent : entity st st.bookings ⟨env, now, .update tenantId userId role bookingId dto⟩ =
        (applyUpdate env now tenantId userId role bookingId dto st.bookings).toOption := (toOption_bind _ _).symm
    rw [hent]
    simp only [step, update]
    cases happ : applyUpdate env now tenantId userId role bookingId dto st.bookings with
    | error x => rfl
    | ok saved =>
      obtain ⟨b, hb⟩ := applyUpdate_ok happ
      exact find?_saved hb.found hb.id_eq
  | cancel tenantId userId role bookingId reason =>
    obtain rfl : bookingId = id := he
    exact settle_unlessRead fun _ _ h => cancel_row h
  | issueToken tenantId userId admin bookingId token =>
    obtain rfl : bookingId = id := he
    simp only [step, entity]
    cases hr : issueToken now token tenantId userId admin bookingId st with
    | error x => rfl
    | ok r =>
      obtain ⟨b, hb, -, hst⟩ := issueToken_ok hr
      obtain ⟨v, hfind⟩ : ∃ v, r.1.bookings.find? bookingId = some v := by
        rw [hst]
        exact ⟨_, find?_saved hb rfl⟩
      simp [Except.toOption, hfind]
  | checkinByBooking tenantId userId admin bookingId =>
    obtain rfl : bookingId = id := he
    exact settle_unlessRead fun _ _ h => checkinByBooking_row h
  | markNoShow tenantId bookingId reason =>
    obtain rfl : bookingId = id := he
    exact settle_unlessRead fun _ _ h => markNoShow_row h
  | markAttended tenantId bookingId =>
    obtain rfl : bookingId = id := he
    exact settle_unlessRead fun _ _ h => markAttended_row h
  | tick => exact absurd rfl hs.1
  | redeemToken token => exact absurd rfl (hs.2 token)
  | _ => exact absurd he (by simp [OnBooking])

theorem saves_of_entity {checked : Table Booking} {e : Event} (h : entity st checked e = some v) : Saves e := by
  constructor
  · intro hop
    simp [entity, hop] at h
  · intro token hop
    simp [entity, hop] at h

theorem unlessRead_congr (h : st'.bookings.find? id = st.bookings.find? id)
    {f : Store → Except HttpError (Store × Booking)} (hf : (f st').toOption.map (·.2) = (f st).toOption.map (·.2)) :
    unlessRead st' id (f st') = unlessRead st id (f st) := by
  simp only [unlessRead, hf, h]

/-- An operation sees nothing of the store but the row, and the bookings of its conflict check. -/
theorem entity_congr (h : st'.bookings.find? id = st.bookings.find? id) {e : Event} (he : OnBooking id e)
    (checked : Table Booking) : entity st' checked e = entity st checked e := by
  have hfind : ∀ tenantId, findBooking st'.bookings tenantId id = findBooking st.bookings tenantId id :=
    fun _ => congrArg _ h
  have hite : ∀ {p : Bool} {x y : Except HttpError (Store × Booking)},
      (if p then x else y).toOption.map (·.2) = if p then x.toOption.map (·.2) else y.toOption.map (·.2) := by
    intro p x y
    cases p <;> rfl
  have hpure : ∀ r : Store × Booking, (pure r : Except HttpError (Store × Booking)).toOption.map (·.2) = some r.2 :=
    fun _ => rfl
  obtain ⟨env, now, op⟩ := e
  cases op with
  | update tenantId userId role bookingId dto =>
    obtain rfl : bookingId = id := he
    simp only [entity, updateAdmit, hfind]
  | cancel tenantId userId role bookingId reason =>
    obtain rfl : bookingId = id := he
    refine unlessRead_congr h ?_
    simp only [cancel, toOption_bind, Option.map_bind, Function.comp_def, hite, hpure, hfind]
  | issueToken tenantId userId admin bookingId token =>
    obtain rfl : bookingId = id := he
    have hpure' : ∀ r : Store × String, (pure r : Except HttpError (Store × String)).toOption = some r := fun _ => rfl
    simp only [entity, issueToken, toOption_bind, hfind, Option.bind_assoc, hpure', Option.bind_some,
      Table.find?_save, h]
  | checkinByBooking tenantId userId admin bookingId =>
    obtain rfl : bookingId = id := he
    refine unlessRead_congr h ?_
    simp only [checkinByBooking, toOption_bind, Option.map_bind, Function.comp_def, hpure, hfind]
  | markNoShow tenantId bookingId reason =>
    obtain rfl : bookingId = id := he
    refine unlessRead_congr h ?_
    simp only [markNoShow, toOption_bind, Option.map_bind, Function.comp_def, hite, hpure, hfind]
  | markAttended tenantId bookingId =>
    obtain rfl : bookingId = id := he
    refine unlessRead_congr h ?_
    simp only [markAttended, toOption_bind, Option.map_bind, Function.comp_def, hite, hpure, hfind]
  | _ => rfl

end Reads

/-! ### The conflict check of an edit -/

/-- Every conflict check that an edit of the booking `id` passes on `t` it passes on `t'`. -/
def Eases (id : Uuid) (t t' : Table Booking) : Prop :=
  ∀ tenantId ids start finish, t'.rows.countP (clashes tenantId ids start finish (some id)) ≤
    t.rows.countP (clashes tenantId ids start finish (some id))

def sweeps (st : Store) (e : Event) (b : Booking) : Bool :=
  match e.op with
  | .tick => (candidates e.now st.bookings).contains b && overdue e.env e.now b
  | _ => false

def standing (st : Store) (e : Event) : Table Booking where
  rows := st.bookings.rows.filter fun b => !sweeps st e b
  nodup := st.bookings.nodup.sublist (List.filter_sublist.map _)

section Eases

variable {id : Uuid} {st : Store} {e : Event} {t t' : Table Booking}

theorem Eases.refl (id : Uuid) (t : Table Booking) : Eases id t t := fun _ _ _ _ => le_rfl

theorem Eases.trans {t'' : Table Booking} (h : Eases id t t') (h' : Eases id t' t'') : Eases id t t'' :=
  fun tenantId ids start finish => (h' tenantId ids start finish).trans (h tenantId ids start finish)

/-- The entity of an edit does not depend on the conflict check, once it is passed. -/
theorem Eases.entity (h : Eases id t t') (he : OnBooking id e) (hv : entity st t e = some v) :
    Concurrency.entity st t' e = some v := by
  obtain ⟨env, now, op⟩ := e
  cases op with
  | update tenantId userId role bookingId dto =>
    obtain rfl : bookingId = id := he
    simp only [Concurrency.entity, Option.bind_eq_some_iff, toOption_eq_some] at hv ⊢
    obtain ⟨⟨b, slot⟩, hadm, hcom⟩ := hv
    refine ⟨⟨b, slot⟩, hadm, ?_⟩
    have hid : b.id = bookingId := Table.key_of_find? (findBooking_eq_some.1 (updateAdmit_ok hadm).1).1
    cases slot with
    | none => exact hcom
    | some sl =>
      simp only [updateCommit, bind_eq_ok] at hcom ⊢
      obtain ⟨⟨⟩, hcheck, hf⟩ := hcom
      rw [hid] at hcheck ⊢
      exact ⟨(), assertNoConflict_mono (h tenantId sl.ids sl.start sl.finish) hcheck, hf⟩
  | _ => exact hv

theorem eases_of_map {g : Booking → Booking} (hrows : t'.rows = t.rows.map g)
    (hg : ∀ r ∈ t.rows, ∀ tenantId ids start finish, clashes tenantId ids start finish (some id) (g r) =
      clashes tenantId ids start finish (some id) r) : Eases id t t' ∧ Eases id t' t := by
  have hcount : ∀ tenantId ids start finish, t'.rows.countP (clashes tenantId ids start finish (some id)) =
      t.rows.countP (clashes tenantId ids start finish (some id)) := by
    intro tenantId ids start finish
    rw [hrows, List.countP_map]
    exact List.countP_congr fun r hr => by rw [Function.comp, hg r hr]
  exact ⟨fun _ _ _ _ => (hcount _ _ _ _).le, fun _ _ _ _ => (hcount _ _ _ _).ge⟩

theorem eases_standing (id : Uuid) (st : Store) (e : Event) : Eases id st.bookings (standing st e) :=
  fun _ _ _ _ => List.filter_sublist.countP_le

theorem standing_of_ne (hop : e.op ≠ .tick) : standing st e = st.bookings := by
  have hnone : ∀ b, sweeps st e b = false := by
    intro b
    unfold sweeps
    split
    · rename_i h
      exact absurd h hop
    · rfl
  ext1
  simp [standing, hnone]

/-- The sweep takes no booking out of the check but those it is about to release, -/
theorem eases_of_swept (hop : e.op = .tick) {swept todo : List Booking}
    (hsplit : candidates e.now st.bookings = swept ++ todo) :
    Eases id (swept.foldl (sweep e) st.bookings) (standing st e) := by
  intro tenantId ids start finish
  have hrows := @rows_releases e.env e.now swept st.bookings fun b hb =>
    mem_candidates (by rw [hsplit]; exact List.mem_append_left _ hb)
  show _ ≤ (swept.foldl _ st.bookings).rows.countP _
  rw [show sweep e = fun bookings b => if overdue e.env e.now b then release bookings b else bookings from rfl, hrows,
    List.countP_map, standing, List.countP_filter]
  refine List.countP_mono_left fun r _ hq => ?_
  simp only [Bool.and_eq_true, sweeps, hop, hsplit, Bool.not_eq_true'] at hq
  have hnot : ¬ (r ∈ swept ∧ overdue e.env e.now r = true) := by
    rintro ⟨hmem, hover⟩
    simp [hmem, hover] at hq
  simpa [hnot] using hq.1

theorem swept_eases (hop : e.op = .tick) :
    Eases id (standing st e) ((candidates e.now st.bookings).foldl (sweep e) st.bookings) := by
  intro tenantId ids start finish
  have hrows := @rows_releases e.env e.now (candidates e.now st.bookings) st.bookings fun b hb => mem_candidates hb
  rw [show sweep e = fun bookings b => if overdue e.env e.now b then release bookings b else bookings from rfl, hrows,
    List.countP_map, standing, List.countP_filter]
  refine List.countP_mono_left fun r _ hq => ?_
  by_cases hr : r ∈ candidates e.now st.bookings ∧ overdue e.env e.now r = true
  · simp [hr, noShowRow, clashes, BookingStatus.released] at hq
  · simp only [Function.comp, hr, if_false] at hq
    simpa [sweeps, hop, hq, imp_iff_not_or] using hr

theorem eases_of_save (id : Uuid) (t : Table Booking) (v loaded : Booking) :
    Eases id t (t.update (fun r => r.id == id) (writeDiff v loaded) (key_writeDiff v loaded)) ∧
      Eases id (t.update (fun r => r.id == id) (writeDiff v loaded) (key_writeDiff v loaded)) t := by
  refine eases_of_map (Table.rows_update ..) fun r _ tenantId ids start finish => ?_
  by_cases hr : r.id = id
  · have hid : (writeDiff v loaded r).id = id := hr
    simp [clashes, hr, hid]
  · simp [hr]

/-- A booking takes part in the check whether it is checked in or not. -/
theorem eases_of_redeem {token : String} (hop : e.op = .redeemToken token) :
    Eases id st.bookings (step st e).bookings ∧ Eases id (step st e).bookings st.bookings := by
  have hstep : step st e = settle (CheckinService.redeemToken e.now token st) st := by
    unfold step
    rw [hop]
  rw [hstep]
  refine settle_induction
    (P := fun st' : Store => Eases id st.bookings st'.bookings ∧ Eases id st'.bookings st.bookings)
    ⟨.refl _ _, .refl _ _⟩ fun r hr => ?_
  obtain ⟨claim, at', -, hclaim, hst⟩ := @redeemToken_ok e.now token st r.1 r.2 hr
  have hburn := @eases_of_map id st.bookings _ _ (Table.rows_update st.bookings (claims e.now token)
    burn key_burn) fun x _ tenantId ids start finish => by split <;> rfl
  have hburnt : (st.bookings.update (claims e.now token) burn
      key_burn).find? claim.id = some (burn claim) := by
    have hrow : st.bookings.find? claim.id = some claim := Table.find?_of_mem (List.mem_of_find?_eq_some hclaim)
    rw [Table.find?_update, hrow, Option.map_some, if_pos (List.find?_some hclaim)]
  have hsave := @eases_of_map id _ _ _ (Table.rows_save (st.bookings.update (claims e.now token)
    burn key_burn)
      { burn claim with status := .checkedIn, checkedInAt := at' })
    fun x hx tenantId ids start finish => by
      split
      · rename_i hkey
        obtain rfl : x = burn claim := Table.eq_of_key hx (Table.mem_of_find? hburnt) hkey
        have hrel : claim.status.released = false := released_of_claims (List.find?_some hclaim)
        have hin : BookingStatus.checkedIn.released = false := rfl
        simp [clashes, burn, hrel, hin]
      · rfl
  rw [hst]
  exact ⟨hburn.1.trans hsave.1, hsave.2.trans hburn.2⟩

end Eases

/-! ### An operation alone -/

/-- The edit has read the row `b`, and asks for the slot. -/
def Admits (id : Uuid) (st : Store) (e : Event) (tenantId : Uuid) (dto : UpdateBookingDto) (b : Booking)
    (slot : Option Slot) : Prop :=
  ∃ userId role, e.op = .update tenantId userId role id dto ∧
    updateAdmit e.env e.now tenantId userId role id dto st.bookings = .ok (b, slot)

/-- The store `s` when the operation stands at `ph`, and nobody else has written since `st`. -/
def Alone (id : Uuid) (st : Store) (e : Event) (ph : Phase) (s : Store) : Prop :=
  match ph with
  | .ready => s = st
  | .admitted tenantId dto b slot => s = st ∧ Admits id st e tenantId dto b slot
  | .holding _ v => s = st ∧ entity st st.bookings e = some v
  | .reloaded _ v loaded => s = st ∧ entity st st.bookings e = some v ∧ st.bookings.find? id = some loaded
  | .sweeping todo => e.op = .tick ∧ ∃ swept, candidates e.now st.bookings = swept ++ todo ∧
      s = { st with bookings := swept.foldl (sweep e) st.bookings }
  | .done => s.bookings.find? id = (step st e).bookings.find? id ∧ Eases id (standing st e) s.bookings ∧
      Eases id s.bookings (standing st e)

section Alone

variable {id : Uuid} {st s : Store} {e : Event} {ph : Phase} {b : Booking} {ids : List Uuid}

theorem kinds (e : Event) : (∃ token, e.op = .redeemToken token) ∨ e.op = .tick ∨ Saves e := by
  by_cases hr : ∃ token, e.op = .redeemToken token
  · exact .inl hr
  · by_cases ht : e.op = .tick
    · exact .inr (.inl ht)
    · exact .inr (.inr ⟨ht, fun token h => hr ⟨token, h⟩⟩)

theorem Admits.saves {dto : UpdateBookingDto} {slot : Option Slot} (h : Admits id st e tenantId dto b slot) :
    Saves e := by
  obtain ⟨userId, role, hop, -⟩ := h
  exact ⟨by simp [hop], by simp [hop]⟩

theorem write_ready (hs : Saves e) : write id e .ready s = s := by
  dsimp only [write]
  split
  · rename_i token hop
    exact absurd hop (hs.2 token)
  · rfl

/-- The first statement of an operation that saves. -/
theorem next_ready (he : OnBooking id e) (hs : Saves e) (s : Store) :
    (∃ tenantId dto b slot, next id e .ready s = .admitted tenantId dto b slot ∧ Admits id s e tenantId dto b slot) ∨
      (∃ v, next id e .ready s = .holding [] v ∧ ∀ checked, entity s checked e = some v) ∨
      (next id e .ready s = .done ∧ ∀ checked, entity s checked e = none) := by
  have hplain : (∀ checked, entity s checked e = entity s s.bookings e) →
      (next id e .ready s = match entity s s.bookings e with
        | some v => .holding [] v
        | none => .done) →
      (∃ v, next id e .ready s = .holding [] v ∧ ∀ checked, entity s checked e = some v) ∨
        (next id e .ready s = .done ∧ ∀ checked, entity s checked e = none) := by
    intro hsame hnext
    cases hv : entity s s.bookings e with
    | none => exact .inr ⟨by rw [hnext, hv], fun checked => by rw [hsame, hv]⟩
    | some v => exact .inl ⟨v, by rw [hnext, hv], fun checked => by rw [hsame, hv]⟩
  obtain ⟨env, now, op⟩ := e
  cases op with
  | update tenantId userId role bookingId dto =>
    obtain rfl : bookingId = id := he
    cases hadm : updateAdmit env now tenantId userId role bookingId dto s.bookings with
    | error x => exact .inr (.inr ⟨by simp [next, hadm], fun checked => by simp [entity, hadm, Except.toOption]⟩)
    | ok r => exact .inl ⟨tenantId, dto, r.1, r.2, by simp [next, hadm], userId, role, rfl, hadm⟩
  | tick => exact absurd rfl hs.1
  | redeemToken token => exact absurd rfl (hs.2 token)
  | cancel tenantId userId role bookingId reason => exact .inr (hplain (fun _ => rfl) rfl)
  | issueToken tenantId userId admin bookingId token => exact .inr (hplain (fun _ => rfl) rfl)
  | checkinByBooking tenantId userId admin bookingId => exact .inr (hplain (fun _ => rfl) rfl)
  | markNoShow tenantId bookingId reason => exact .inr (hplain (fun _ => rfl) rfl)
  | markAttended tenantId bookingId => exact .inr (hplain (fun _ => rfl) rfl)
  | _ => exact he.elim

theorem next_admitted {dto : UpdateBookingDto} {slot : Option Slot} (h : Admits id st e tenantId dto b slot)
    (s : Store) :
    (∃ v, next id e (.admitted tenantId dto b slot) s = .holding (asks e (.admitted tenantId dto b slot)) v ∧
      entity st s.bookings e = some v) ∨
      (next id e (.admitted tenantId dto b slot) s = .done ∧ entity st s.bookings e = none) := by
  obtain ⟨userId, role, hop, hadm⟩ := h
  cases hcom : updateCommit e.env tenantId dto b slot s.bookings with
  | error x => exact .inr ⟨by simp [next, hcom], by simp [entity, hop, hadm, hcom, Except.toOption]⟩
  | ok v => exact .inl ⟨v, by simp [next, hcom], by simp [entity, hop, hadm, hcom, Except.toOption]⟩

theorem next_holding {loaded : Booking} (hrow : s.bookings.find? id = some loaded) :
    next id e (.holding ids v) s = .reloaded ids v loaded := by
  simp [next, hrow]

theorem write_reloaded {loaded stored : Booking} (hrow : s.bookings.find? id = some stored) :
    (write id e (.reloaded ids v loaded) s).bookings.find? id = some (writeDiff v loaded stored) := by
  have hid : stored.id = id := Table.key_of_find? hrow
  show (s.bookings.update (fun r => r.id == id) (writeDiff v loaded) (key_writeDiff v loaded)).find? id = _
  rw [Table.find?_update, hrow, Option.map_some, if_pos (by simp [hid])]

theorem id_of_entity {checked : Table Booking} (he : OnBooking id e) (hv : entity st checked e = some v) :
    v.id = id := by
  have hplain : entity st st.bookings e = some v → v.id = id := by
    intro hv
    have hrow := @step_entity id st e he (saves_of_entity hv)
    rw [hv, Option.some_or] at hrow
    exact Table.key_of_find? hrow
  obtain ⟨env, now, op⟩ := e
  cases op with
  | update tenantId userId role bookingId dto =>
    obtain rfl : bookingId = id := he
    simp only [entity, Option.bind_eq_some_iff, toOption_eq_some] at hv
    obtain ⟨⟨b, slot⟩, hadm, hcom⟩ := hv
    have hid : b.id = bookingId := Table.key_of_find? (findBooking_eq_some.1 (updateAdmit_ok hadm).1).1
    rcases updateCommit_ok hcom with ⟨-, hed⟩ | ⟨sl, -, -, hed⟩
    · exact hed.id.trans hid
    · exact hed.id.trans hid
  | _ => exact hplain hv

theorem alone_of_none (he : OnBooking id e) (hs : Saves e) (hnone : entity st st.bookings e = none) :
    Alone id st e .done st := by
  have hrow := @step_entity id st e he hs
  rw [hnone, Option.none_or] at hrow
  rw [Alone, standing_of_ne hs.1]
  exact ⟨hrow.symm, .refl _ _, .refl _ _⟩

theorem alone_of_save (he : OnBooking id e) {loaded : Booking} (hv : entity st st.bookings e = some v)
    (hl : st.bookings.find? id = some loaded) : Alone id st e .done (write id e (.reloaded ids v loaded) st) := by
  have hs := saves_of_entity hv
  have hrow := @step_entity id st e he hs
  rw [hv, Option.some_or] at hrow
  have hid : v.id = loaded.id := (id_of_entity he hv).trans (Table.key_of_find? hl).symm
  rw [Alone, standing_of_ne hs.1, write_reloaded hl, writeDiff_self hid, hrow]
  exact ⟨rfl, eases_of_save id st.bookings v loaded⟩

theorem step_of_tick (hop : e.op = .tick) :
    step st e = { st with bookings := (candidates e.now st.bookings).foldl (sweep e) st.bookings } := by
  unfold step
  rw [hop]
  rfl

/-- **An operation alone.** One statement of an operation, when nobody else has written since it began. -/
theorem Alone.step (h : Alone id st e ph s) (he : OnBooking id e) (hb : st.bookings.find? id = some b) :
    Alone id st e (next id e ph s) (write id e ph s) := by
  cases ph with
  | ready =>
    obtain rfl : s = st := h
    rcases kinds e with ⟨token, hop⟩ | hop | hs
    · have hnext : next id e .ready s = .done := by simp [next, hop]
      have hwrite : write id e .ready s = Model.step s e := by simp [write, hop]
      rw [hnext, hwrite, Alone, standing_of_ne (by simp [hop])]
      exact ⟨rfl, eases_of_redeem hop⟩
    · have hnext : next id e .ready s = .sweeping (candidates e.now s.bookings) := by simp [next, hop]
      have hwrite : write id e .ready s = s := by simp [write, hop]
      rw [hnext, hwrite]
      exact ⟨hop, [], rfl, rfl⟩
    · rw [write_ready hs]
      rcases next_ready he hs s with ⟨tenantId, dto, b', slot, hnext, hadm⟩ | ⟨v, hnext, hv⟩ | ⟨hnext, hnone⟩
      · rw [hnext]
        exact ⟨rfl, hadm⟩
      · rw [hnext]
        exact ⟨rfl, hv _⟩
      · rw [hnext]
        exact alone_of_none he hs (hnone _)
  | admitted tenantId dto b' slot =>
    obtain ⟨rfl, hadm⟩ := h
    show Alone id s e (next id e (.admitted tenantId dto b' slot) s) s
    rcases next_admitted hadm s with ⟨v, hnext, hv⟩ | ⟨hnext, hnone⟩
    · rw [hnext]
      exact ⟨rfl, hv⟩
    · rw [hnext]
      exact alone_of_none he hadm.saves hnone
  | holding ids v =>
    obtain ⟨rfl, hv⟩ := h
    rw [next_holding hb]
    exact ⟨rfl, hv, hb⟩
  | reloaded ids v loaded =>
    obtain ⟨rfl, hv, hl⟩ := h
    exact alone_of_save he hv hl
  | sweeping todo =>
    obtain ⟨hop, swept, hsplit, rfl⟩ := h
    cases todo with
    | nil =>
      rw [List.append_nil] at hsplit
      refine ⟨?_, ?_, eases_of_swept hop (hsplit.trans (List.append_nil _).symm)⟩
      · rw [step_of_tick hop, hsplit]
        rfl
      · rw [← hsplit]
        exact swept_eases hop
    | cons c todo =>
      refine ⟨hop, swept ++ [c], by rw [hsplit, List.append_assoc]; rfl, ?_⟩
      rw [List.foldl_append]
      rfl
  | done => exact h

/-! ### After the write -/

def Spent (id : Uuid) : Phase → Prop
  | .sweeping todo => ∀ b ∈ todo, b.id ≠ id
  | .done => True
  | _ => False

def Proper (e : Event) : Phase → Prop
  | .ready | .done => True
  | .sweeping todo => e.op = .tick ∧ (todo.map (·.id)).Nodup
  | _ => Saves e

theorem Spent.next (h : Spent id ph) : Spent id (Concurrency.next id e ph s) := by
  cases ph with
  | sweeping todo =>
    cases todo with
    | nil => trivial
    | cons c todo => exact fun b hb => h b (List.mem_cons_of_mem _ hb)
  | done => trivial
  | _ => exact h.elim

theorem sweep_of_ne {t : Table Booking} (h : b.id ≠ id) : (sweep e t b).find? id = t.find? id := by
  unfold sweep
  split
  · exact find?_release_of_ne h
  · rfl

theorem Spent.row (h : Spent id ph) : (write id e ph s).bookings.find? id = s.bookings.find? id := by
  cases ph with
  | sweeping todo =>
    cases todo with
    | nil => rfl
    | cons c todo => exact sweep_of_ne (h c List.mem_cons_self)
  | done => rfl
  | _ => exact h.elim

theorem Proper.next (h : Proper e ph) (he : OnBooking id e) : Proper e (Concurrency.next id e ph s) := by
  cases ph with
  | ready =>
    rcases kinds e with ⟨token, hop⟩ | hop | hs
    · simp [Concurrency.next, hop, Proper]
    · have hnext : Concurrency.next id e .ready s = .sweeping (candidates e.now s.bookings) := by
        simp [Concurrency.next, hop]
      rw [hnext]
      exact ⟨hop, nodup_candidates ..⟩
    · rcases next_ready he hs s with ⟨tenantId, dto, b', slot, hnext, -⟩ | ⟨v, hnext, -⟩ | ⟨hnext, -⟩
      · rw [hnext]
        exact hs
      · rw [hnext]
        exact hs
      · rw [hnext]
        trivial
  | admitted tenantId dto b slot =>
    simp only [Concurrency.next]
    split
    · exact h
    · trivial
  | holding ids v =>
    simp only [Concurrency.next]
    split
    · exact h
    · trivial
  | reloaded ids v loaded => trivial
  | sweeping todo =>
    cases todo with
    | nil => trivial
    | cons c todo => exact ⟨h.1, (List.nodup_cons.1 h.2).2⟩
  | done => trivial

/-- A statement that changes the row is the last one of its operation to do so. -/
theorem spent_of_changed (h : Proper e ph) (hne : (write id e ph s).bookings.find? id ≠ s.bookings.find? id) :
    Spent id (Concurrency.next id e ph s) := by
  cases ph with
  | ready =>
    rcases kinds e with ⟨token, hop⟩ | hop | hs
    · simp [Concurrency.next, hop, Spent]
    · simp [write, hop] at hne
    · rw [write_ready hs] at hne
      exact absurd rfl hne
  | reloaded ids v loaded => trivial
  | sweeping todo =>
    cases todo with
    | nil => trivial
    | cons c todo =>
      have hc : c.id = id := by
        by_contra hc
        exact hne (sweep_of_ne hc)
      have hnodup := (List.nodup_cons.1 h.2).1
      exact fun b hb hid => hnodup (List.mem_map.2 ⟨b, hb, hid.trans hc.symm⟩)
  | _ => exact absurd rfl hne

theorem Alone.row_of_spent (h : Alone id st e ph s) (hs : Spent id ph) :
    s.bookings.find? id = (Model.step st e).bookings.find? id := by
  cases ph with
  | sweeping todo =>
    obtain ⟨hop, swept, hsplit, rfl⟩ := h
    rw [step_of_tick hop, hsplit, List.foldl_append]
    exact (releases_find?_of_notMem hs).symm
  | done => exact h.1
  | _ => exact hs.elim

theorem Alone.eases (h : Alone id st e ph s) : Eases id s.bookings (standing st e) := by
  cases ph with
  | ready =>
    obtain rfl : s = st := h
    exact eases_standing id s e
  | sweeping todo =>
    obtain ⟨hop, swept, hsplit, rfl⟩ := h
    exact eases_of_swept hop hsplit
  | done => exact h.2.2
  | _ =>
    obtain ⟨rfl, -⟩ := h
    exact eases_standing id s e

end Alone

end BookingSystem.Concurrency
