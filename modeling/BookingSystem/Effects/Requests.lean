import BookingSystem.Model.Requests
import BookingSystem.Effects.Bookings

/-!
# What a request keeps and what it announces

The rows that a request writes and does not give up, the changes of bookings among them, and the rows of the sync outbox
that it starts to write. The two lists are the same for every request (`announces`), and both are empty for one that
ends with an exception (`changes_of_failed`).
-/

namespace BookingSystem.Effects

open Base Model Model.BookingsService

def keptRows : Piece → List Row
  | .transaction committed rows => if committed then rows else []
  | .write row => [row]
  | .launch _ => []

def changes (ps : List Piece) : List (Uuid × BookingEvent) :=
  (ps.flatMap keptRows).filterMap fun
    | .booking id event => some (id, event)
    | _ => none

/-- The changes of bookings of the tenant that a request starts to write a row of the sync outbox for. -/
def announced (tenantId : Uuid) (ps : List Piece) : List (Uuid × BookingEvent) :=
  ps.filterMap fun
    | .launch (.syncOutbox t id event) => if t = tenantId then some (id, event) else none
    | _ => none

def outboxRow : Row → Bool
  | .syncOutbox .. | .notification .. => true
  | _ => false

def placed : Piece → Bool
  | .transaction _ rows => rows.all fun row => !outboxRow row
  | .write row => !outboxRow row
  | .launch row => outboxRow row

/-- The request announces the changes it keeps, and writes only the rows of the outboxes without waiting for them. -/
structure Announces (tenantId : Uuid) (ps : List Piece) : Prop where
  changes : changes ps = announced tenantId ps
  placed : ∀ p ∈ ps, placed p = true

section Lists

variable {tenantId : Uuid} {ps qs : List Piece}

theorem changes_append (ps qs : List Piece) : changes (ps ++ qs) = changes ps ++ changes qs := by simp [changes]

theorem announced_append (ps qs : List Piece) :
    announced tenantId (ps ++ qs) = announced tenantId ps ++ announced tenantId qs := by
  simp [announced]

theorem Announces.nil : Announces tenantId [] := ⟨rfl, by simp⟩

theorem Announces.append (h : Announces tenantId ps) (h' : Announces tenantId qs) : Announces tenantId (ps ++ qs) := by
  refine ⟨?_, fun p hp => ?_⟩
  · rw [changes_append, announced_append, h.changes, h'.changes]
  · exact (List.mem_append.1 hp).elim (h.placed p) (h'.placed p)

theorem announces_write (id : Uuid) (event : BookingEvent) :
    Announces tenantId [.write (.booking id event), dispatchSync event tenantId id] :=
  ⟨by simp [changes, announced, dispatchSync, keptRows], by simp [placed, dispatchSync, outboxRow]⟩

theorem announces_transaction (id : Uuid) (event : BookingEvent) :
    Announces tenantId [.transaction true [.booking id event], dispatchSync event tenantId id] :=
  ⟨by simp [changes, announced, dispatchSync, keptRows], by simp [placed, dispatchSync, outboxRow]⟩

theorem announces_rolledBack : Announces tenantId [.transaction false []] := ⟨rfl, by simp [placed]⟩

theorem announces_notification (event : BookingEvent) (id : Uuid) :
    Announces tenantId [dispatchNotification event id] :=
  ⟨rfl, by simp [placed, dispatchNotification, outboxRow]⟩

theorem announces_recurrence (id : Uuid) : Announces tenantId [.write (.recurrence id)] :=
  ⟨rfl, by simp [placed, outboxRow]⟩

theorem mem_changes {id : Uuid} {event : BookingEvent} :
    (id, event) ∈ changes ps ↔ .booking id event ∈ ps.flatMap keptRows := by
  rw [changes, List.mem_filterMap]
  constructor
  · rintro ⟨row, hrow, heq⟩
    cases row with
    | booking id' event' =>
      obtain ⟨rfl, rfl⟩ := Prod.mk.inj (Option.some.inj heq)
      exact hrow
    | _ => cases heq
  · exact fun hrow => ⟨_, hrow, rfl⟩

theorem mem_announced {id : Uuid} {event : BookingEvent} :
    (id, event) ∈ announced tenantId ps ↔ .launch (.syncOutbox tenantId id event) ∈ ps := by
  rw [announced, List.mem_filterMap]
  constructor
  · rintro ⟨p, hp, heq⟩
    split at heq
    · split_ifs at heq with ht
      obtain ⟨rfl, rfl⟩ := Prod.mk.inj (Option.some.inj heq)
      exact ht ▸ hp
    · cases heq
  · exact fun hp => ⟨_, hp, by simp⟩

end Lists

/-! ### Creating -/

section Create

variable {env : Env} {now : Instant} {tenantId userId : Uuid} {fresh : Fresh} {dto : CreateBookingDto} {st : Store}

/-- What follows the write of a new booking: its announcement, and then pieces that change no booking. -/
theorem createPieces_ok {st' : Store} {b : Booking} (h : create env now fresh tenantId userId dto st = .ok (st', b))
    (suppressNotification : Bool) :
    ∃ rest, createPieces env now tenantId userId fresh suppressNotification dto st =
      [.transaction true [.booking b.id .created], dispatchSync .created tenantId b.id] ++ rest ∧
        Announces tenantId rest ∧ changes rest = [] := by
  unfold create at h
  obtain ⟨⟨slot, row⟩, hadmit, h⟩ := bind_eq_ok.1 h
  obtain ⟨bookings, hcommit, h⟩ := bind_eq_ok.1 h
  have hrow : row = b := by
    dsimp only at h
    split at h
    · exact (Prod.mk.inj (pure_eq_ok.1 h)).2
    · exact (Prod.mk.inj (pure_eq_ok.1 h)).2
  subst hrow
  have hmail : ∀ suppress : Bool, Announces tenantId (if suppress then [] else [dispatchNotification .created row.id]) ∧
      changes (if suppress then [] else [dispatchNotification .created row.id]) = [] := by
    intro suppress
    cases suppress with
    | true => exact ⟨.nil, rfl⟩
    | false => exact ⟨announces_notification .created row.id, rfl⟩
  have hchain : Announces tenantId (materializePieces env now fresh.step row { st with bookings }) ∧
      changes (materializePieces env now fresh.step row { st with bookings }) = [] := by
    unfold materializePieces
    split
    · split
      · split
        · exact ⟨.nil, rfl⟩
        · exact ⟨⟨rfl, by simp [placed, outboxRow]⟩, rfl⟩
      · exact ⟨.nil, rfl⟩
    · exact ⟨.nil, rfl⟩
  refine ⟨_, ?_, (hmail suppressNotification).1.append hchain.1, ?_⟩
  · simp only [createPieces, hadmit, hcommit]
    rw [List.append_assoc]
  · rw [changes_append, (hmail suppressNotification).2, hchain.2]
    rfl

theorem createPieces_error {e : HttpError} (h : create env now fresh tenantId userId dto st = .error e)
    (suppressNotification : Bool) :
    Announces tenantId (createPieces env now tenantId userId fresh suppressNotification dto st) ∧
      changes (createPieces env now tenantId userId fresh suppressNotification dto st) = [] := by
  unfold createPieces
  cases hadmit : createAdmit env now tenantId userId dto fresh.booking with
  | error e => exact ⟨.nil, rfl⟩
  | ok r =>
    obtain ⟨slot, row⟩ := r
    dsimp only
    cases hcommit : createCommit st.bookings slot row with
    | error e => exact ⟨announces_rolledBack, rfl⟩
    | ok bookings =>
      have hok : ∃ r, create env now fresh tenantId userId dto st = .ok r := by
        refine exists_bind_ok hadmit (exists_bind_ok hcommit ?_)
        dsimp only
        split
        · exact ⟨_, rfl⟩
        · exact ⟨_, rfl⟩
      obtain ⟨r, hr⟩ := hok
      rw [h] at hr
      cases hr

/-- The two loops of a new series side by side: the one that books and the one that lists the pieces. -/
structure SeriesAlike (tenantId : Uuid) (booked : Store × List Uuid) (listed : SeriesRequest) : Prop where
  st : listed.st = booked.1
  ids : listed.ids = booked.2
  announces : Announces tenantId listed.pieces
  changes : listed.ids = [] → changes listed.pieces = []

theorem SeriesAlike.turn {fresh : ℕ → Fresh} {recurrenceId resourceId : Uuid} {booked : Store × List Uuid}
    {listed : SeriesRequest} (h : SeriesAlike tenantId booked listed) (occ : (Instant × Instant) × ℕ) :
    SeriesAlike tenantId
      (match create env now (fresh occ.2) tenantId userId
        { dto with
          resourceId
          startTime := occ.1.1
          endTime := occ.1.2
          recurrenceId := some recurrenceId
          isRecurring := true } booked.1 with
      | .ok (st', b) => (st', booked.2 ++ [b.id])
      | .error _ => booked)
      (createSeriesTurn env now tenantId userId fresh { dto with resourceId } recurrenceId listed occ) := by
  unfold createSeriesTurn
  dsimp only
  rw [← h.st]
  rcases hres : create env now (fresh occ.2) tenantId userId
    { dto with
      resourceId
      startTime := occ.1.1
      endTime := occ.1.2
      recurrenceId := some recurrenceId
      isRecurring := true } listed.st with e | ⟨st', b⟩
  · obtain ⟨hpieces, hnone⟩ := createPieces_error hres true
    exact ⟨h.st, h.ids, h.announces.append hpieces, fun hnil => by rw [changes_append, h.changes hnil, hnone]; rfl⟩
  · obtain ⟨rest, hpieces, hrest, -⟩ := createPieces_ok hres true
    simp only [hpieces]
    exact ⟨rfl, by rw [h.ids], h.announces.append ((announces_transaction _ _).append hrest), by simp⟩

theorem createSeries_announces {fresh : ℕ → Fresh} {recurrenceId : Uuid} {occurrences : List (Instant × Instant)} :
    Announces tenantId (createSeriesPieces env now tenantId userId fresh dto recurrenceId occurrences st) ∧
      ((createSeries env now fresh tenantId userId dto recurrenceId occurrences st).isOk = false →
        changes (createSeriesPieces env now tenantId userId fresh dto recurrenceId occurrences st) = []) := by
  unfold createSeriesPieces createSeries
  cases hresource : env.resource tenantId dto.resourceId with
  | none => exact ⟨.nil, fun _ => rfl⟩
  | some resource =>
    dsimp only
    split_ifs with hnone
    · exact ⟨.nil, fun _ => rfl⟩
    · obtain ⟨hactive, hsome⟩ : resource.isActive = true ∧ occurrences.isEmpty = false := by simpa using hnone
      simp only [found, require, hactive, hsome, bind, Except.bind, if_true, Bool.not_false]
      have hstart : SeriesAlike tenantId (st, []) ⟨st, [], [.write (.recurrence recurrenceId)]⟩ :=
        ⟨rfl, rfl, announces_recurrence recurrenceId, fun _ => rfl⟩
      generalize hbooked : occurrences.zipIdx.foldl _ (st, ([] : List Uuid)) = booked
      generalize hlisted : occurrences.zipIdx.foldl (createSeriesTurn env now tenantId userId fresh
        { dto with resourceId := resource.id } recurrenceId) _ = listed
      have halike : SeriesAlike tenantId booked listed := by
        rw [← hbooked, ← hlisted]
        exact List.foldl_rel hstart fun occ _ _ _ h => h.turn occ
      have hids := halike.ids
      cases hlist : listed.ids with
      | nil =>
        dsimp only
        refine ⟨halike.announces.append (announces_recurrence recurrenceId), fun _ => ?_⟩
        rw [changes_append, halike.changes hlist]
        rfl
      | cons first rest =>
        dsimp only
        refine ⟨halike.announces.append (announces_notification .created first), fun hfails => ?_⟩
        rw [← hids, hlist] at hfails
        cases hfails

end Create

/-! ### Editing -/

section Edit

variable {env : Env} {now : Instant} {tenantId userId : Uuid} {role : String} {id : Uuid} {dto : UpdateBookingDto}
  {st : Store}

theorem update_announces :
    Announces tenantId (updatePieces env now tenantId userId role id dto st) ∧
      ((update env now tenantId userId role id dto st).isOk = false →
        changes (updatePieces env now tenantId userId role id dto st) = []) := by
  unfold updatePieces update
  cases applyUpdate env now tenantId userId role id dto st.bookings with
  | error e => exact ⟨announces_rolledBack, fun _ => rfl⟩
  | ok saved =>
    exact ⟨(announces_transaction saved.id .updated).append (announces_notification .updated saved.id), nofun⟩

/-- The announcements after the transaction of a series, one for each row that it has saved. -/
theorem announces_saved (saved : List Booking) :
    Announces tenantId (.transaction true (saved.map fun b => .booking b.id .updated) ::
      saved.flatMap (editDispatch tenantId)) := by
  have hannounced : announced tenantId (saved.flatMap (editDispatch tenantId)) =
      saved.map fun b => (b.id, .updated) := by
    induction saved with
    | nil => rfl
    | cons b saved ih =>
      rw [List.flatMap_cons, announced_append, ih]
      simp [announced, editDispatch, dispatchSync, dispatchNotification]
  have hlaunch : ∀ p ∈ saved.flatMap (editDispatch tenantId), keptRows p = [] ∧ placed p = true := by
    intro p hp
    obtain ⟨b, -, hp⟩ := List.mem_flatMap.1 hp
    rcases List.mem_pair.1 hp with rfl | rfl
    · exact ⟨rfl, rfl⟩
    · exact ⟨rfl, rfl⟩
  have hkept : (saved.flatMap (editDispatch tenantId)).flatMap keptRows = [] :=
    List.flatMap_eq_nil_iff.2 fun p hp => (hlaunch p hp).1
  refine ⟨?_, fun p hp => ?_⟩
  · have hcons : announced tenantId (.transaction true (saved.map fun b => .booking b.id .updated) ::
        saved.flatMap (editDispatch tenantId)) = announced tenantId (saved.flatMap (editDispatch tenantId)) := rfl
    rw [hcons, hannounced, changes, List.flatMap_cons, hkept, List.append_nil, keptRows, if_pos rfl,
      List.filterMap_map]
    exact congrFun List.filterMap_eq_map saved
  · rcases List.mem_cons.1 hp with rfl | hp
    · simp [placed, outboxRow]
    · exact (hlaunch p hp).2

theorem updateSeries_announces :
    Announces tenantId (updateSeriesPieces env now tenantId userId role id dto st) ∧
      ((updateSeries env now tenantId userId role id dto st).isOk = false →
        changes (updateSeriesPieces env now tenantId userId role id dto st) = []) := by
  unfold updateSeriesPieces updateSeries
  cases findBooking st.bookings tenantId id with
  | none => exact ⟨.nil, fun _ => rfl⟩
  | some anchor =>
    dsimp only [found, bind, Except.bind]
    by_cases hmay : (anchor.userId == userId || isAdmin role) = true
    · rw [hmay]
      dsimp only [require, Bool.not_true, if_true]
      cases anchor.recurrenceId with
      | none =>
        refine ⟨update_announces.1, fun hfails => update_announces.2 ?_⟩
        cases hupdate : update env now tenantId userId role id dto st with
        | error e => rfl
        | ok r =>
          rw [hupdate] at hfails
          cases hfails
      | some rid => exact ⟨announces_saved _, nofun⟩
    · have hno := Bool.eq_false_iff.2 hmay
      rw [hno]
      exact ⟨.nil, fun _ => rfl⟩

end Edit

/-! ### Cancelling -/

section Cancel

variable {tenantId userId : Uuid} {role : String} {id : Uuid} {reason : String} {st : Store}

theorem cancel_announces :
    Announces tenantId (cancelPieces tenantId userId role id reason st) ∧
      ((cancel tenantId userId role id reason st).isOk = false →
        changes (cancelPieces tenantId userId role id reason st) = []) := by
  unfold cancelPieces
  split
  next b st' saved _ hok =>
    rw [hok]
    split_ifs
    · exact ⟨.nil, fun _ => rfl⟩
    · exact ⟨(announces_write saved.id .cancelled).append (announces_notification .cancelled saved.id), nofun⟩
  next => exact ⟨.nil, fun _ => rfl⟩

/-- A cancellation that cancels is written and announced. -/
theorem cancelPieces_ok {st' : Store} {b saved : Booking} (hb : findBooking st.bookings tenantId id = some b)
    (hst : b.status ≠ .cancelled) (h : cancel tenantId userId role id reason st = .ok (st', saved)) :
    cancelPieces tenantId userId role id reason st = [.write (.booking b.id .cancelled),
      dispatchSync .cancelled tenantId b.id, dispatchNotification .cancelled b.id] := by
  have hid : saved.id = b.id := by
    obtain ⟨r, hr, h⟩ := bind_eq_ok.1 h
    obtain rfl : b = r := Option.some.inj (hb.symm.trans (found_eq_ok.1 hr))
    obtain ⟨u, -, h⟩ := bind_eq_ok.1 h
    rw [if_neg (by simpa using hst)] at h
    obtain ⟨u', -, h⟩ := bind_eq_ok.1 h
    exact (congrArg (fun r : Store × Booking => r.2.id) (pure_eq_ok.1 h)).symm
  unfold cancelPieces
  rw [hb, h]
  dsimp only
  rw [if_neg (by simpa using hst), hid]

theorem cancelSeriesTurn_announces {acc : Store × List Piece} (h : Announces tenantId acc.2) (child : Booking) :
    Announces tenantId (cancelSeriesTurn tenantId userId role reason acc child).2 := by
  unfold cancelSeriesTurn
  split_ifs
  · exact h
  · exact h.append cancel_announces.1

theorem cancelSeries_announces {series : Option Recurrence} :
    Announces tenantId (cancelSeriesPieces tenantId userId role series reason st) ∧
      ((Model.cancelSeries tenantId userId role series reason st).isOk = false →
        changes (cancelSeriesPieces tenantId userId role series reason st) = []) := by
  unfold cancelSeriesPieces
  cases hseries : Model.cancelSeries tenantId userId role series reason st with
  | error e => exact ⟨.nil, fun _ => rfl⟩
  | ok r =>
    obtain ⟨st', pieces⟩ := r
    refine ⟨?_, nofun⟩
    obtain ⟨found, -, hseries⟩ := bind_eq_ok.1 hseries
    obtain ⟨-, -, hseries⟩ := bind_eq_ok.1 hseries
    have hpieces := congrArg Prod.snd (pure_eq_ok.1 hseries)
    dsimp only at hpieces ⊢
    rw [← hpieces]
    exact foldl_invariant (P := fun acc : Store × List Piece => Announces tenantId acc.2)
      (fun acc child _ h => cancelSeriesTurn_announces h child) (announces_recurrence found.id)

end Cancel

/-! ### Requests -/

section Request

variable (env : Env) (now : Instant) (st : Store) (req : Request)

/-- **A request announces the changes that it keeps.** -/
theorem announces : Announces req.tenantId (req.pieces env now st) := by
  cases req with
  | create tenantId userId dto fresh =>
    cases hcreate : create env now fresh tenantId userId dto st with
    | error e => exact (createPieces_error hcreate false).1
    | ok r =>
      obtain ⟨rest, hpieces, hrest, -⟩ := createPieces_ok hcreate false
      rw [Request.pieces, hpieces]
      exact (announces_transaction r.2.id .created).append hrest
  | createSeries => exact createSeries_announces.1
  | update => exact update_announces.1
  | updateSeries => exact updateSeries_announces.1
  | cancel => exact cancel_announces.1
  | cancelSeries => exact cancelSeries_announces.1

theorem changes_of_failed (h : req.succeeds env now st = false) : changes (req.pieces env now st) = [] := by
  cases req with
  | create tenantId userId dto fresh =>
    cases hcreate : create env now fresh tenantId userId dto st with
    | error e => exact (createPieces_error hcreate false).2
    | ok r =>
      rw [Request.succeeds, hcreate] at h
      cases h
  | createSeries => exact createSeries_announces.2 h
  | update => exact update_announces.2 h
  | updateSeries => exact updateSeries_announces.2 h
  | cancel => exact cancel_announces.2 h
  | cancelSeries => exact cancelSeries_announces.2 h

end Request

end BookingSystem.Effects
