import BookingSystem.Effects.Requests
import BookingSystem.Effects.Checkin
import BookingSystem.Effects.Inbox
import BookingSystem.Effects.Sweeps
import BookingSystem.Model.Announcements

/-!
# Cancelled bookings and the calendars

A booking that gets cancelled has to leave the calendars it was pushed to, and they hear of it through the sync outbox.
The bookings service enqueues a row for every booking it cancels, one by one or with its series. The approvals service
cancels bookings too, when a request is rejected and when it goes stale, and has no part in the sync outbox. So a run
enqueues a row for every cancellation iff it rejects no booking that is still alive and sweeps no stale one
(`releases_reach_calendars_iff`).
-/

namespace BookingSystem.Runs

open Base Model Model.BookingsService
open Model.ApprovalsService Effects

/-- Every booking that the call cancels comes with a row of the sync outbox that takes it off the calendars. -/
def Accompanied (st : Store) (c : ServiceCall) : Prop :=
  ∀ id b b', st.bookings.find? id = some b → b.status ≠ .cancelled → (c.step st).bookings.find? id = some b' →
    b'.status = .cancelled →
      ∃ event : BookingEvent, event.withdraws = true ∧ .syncOutbox b.tenantId b.id event ∈ c.enqueued st

/-- The call cancels no booking in the approvals service: it does not reject one that is not cancelled already, and
finds no stale request. -/
def Withdraws (st : Store) : ServiceCall → Prop
  | .service e =>
    match e.op with
    | .decide user bookingId input => input.status = .rejected →
        ∀ b, findBooking st.bookings user.tenantId bookingId = some b → b.status ≠ .cancelled →
          (∀ i step, ¬ ChainDecision e.env user bookingId input st i step) ∧ ¬ LegacyDecision user bookingId input st b
    | .sweepStaleApprovals => ∀ b ∈ st.bookings.rows, b.status = .pendingApproval → e.now ≤ b.startTime
    | _ => True
  | .cancelSeries .. => True

/-- The booking is cancelled by then only if it was before, or if a row of the sync outbox tells so. -/
structure Told (rows : List Row) (b b' : Booking) : Prop where
  id : b'.id = b.id
  tenantId : b'.tenantId = b.tenantId
  status : b'.status = .cancelled → b.status = .cancelled ∨ .syncOutbox b.tenantId b.id .cancelled ∈ rows

section Told

variable {rows rows' : List Row} {a b c : Booking}

theorem Told.refl (b : Booking) : Told rows b b := ⟨rfl, rfl, .inl⟩

theorem Told.trans (h : Told rows a b) (h' : Told rows b c) : Told rows a c := by
  refine ⟨h'.id.trans h.id, h'.tenantId.trans h.tenantId, fun hc => ?_⟩
  rcases h'.status hc with hb | hrow
  · exact h.status hb
  · rw [h.id, h.tenantId] at hrow
    exact .inr hrow

theorem Told.mono (h : Told rows a b) (hsub : rows ⊆ rows') : Told rows' a b :=
  ⟨h.id, h.tenantId, fun hb => (h.status hb).imp_right fun hrow => hsub hrow⟩

theorem Told.of_ne (hid : b.id = a.id) (hten : b.tenantId = a.tenantId) (hst : b.status ≠ .cancelled) :
    Told rows a b := ⟨hid, hten, fun hb => absurd hb hst⟩

end Told

/-- The bookings of `t` are in `t'`, and the rows tell which of them were cancelled. -/
abbrev ToldIn (rows : List Row) (t t' : Table Booking) : Prop := Table.Evolves (Told rows) t t'

section Writes

variable {rows : List Row} {env : Env} {now : Instant} {st st' : Store} {t : Table Booking}

theorem ToldIn.refl (t : Table Booking) : ToldIn rows t t := Table.Evolves.refl Told.refl t

theorem ToldIn.trans {t t' t'' : Table Booking} (h : ToldIn rows t t') (h' : ToldIn rows t' t'') : ToldIn rows t t'' :=
  Table.Evolves.trans (fun _ _ _ h h' => h.trans h') h h'

theorem toldIn_save {b v : Booking} {tenantId id : Uuid} (hb : findBooking t tenantId id = some b)
    (h : Told rows b v) : ToldIn rows t (t.save v) := by
  obtain ⟨hfind, -⟩ := findBooking_eq_some.1 hb
  have hid : b.id = id := Table.key_of_find? hfind
  refine Table.evolves_save Told.refl ?_ h
  rw [key_booking, h.id, hid]
  exact hfind

theorem toldIn_map {f : Booking → Booking} {t' : Table Booking} (hf : ∀ b ∈ t.rows, Told rows b (f b))
    (hfind : ∀ id, t'.find? id = (t.find? id).map f) : ToldIn rows t t' := by
  intro id b hb
  refine ⟨f b, ?_, hf b (Table.mem_of_find? hb)⟩
  rw [hfind, hb]
  rfl

theorem toldIn_create {fresh : Fresh} {tenantId userId : Uuid} {dto : CreateBookingDto} {row : Booking}
    (h : create env now fresh tenantId userId dto st = .ok (st', row)) : ToldIn rows st.bookings st'.bookings := by
  obtain ⟨slot, -, hins⟩ := create_inserts h
  exact Table.evolves_insert? Told.refl hins

theorem toldIn_edit {tenantId userId : Uuid} {role : String} {id : Uuid} {dto : UpdateBookingDto} {b saved : Booking}
    (h : Edited env tenantId userId role id dto t b saved) : ToldIn rows t (t.save saved) := by
  have hb : b.status ≠ .cancelled := fun hst => h.open_ (by simp [hst, terminalStatuses])
  refine toldIn_save h.found (.of_ne h.id_eq h.tenantId_eq fun hst => ?_)
  rcases h.row with ⟨-, he⟩ | ⟨slot, -, -, he⟩
  · exact hb (he.status ▸ hst)
  · rw [he.status, reschedule] at hst
    split_ifs at hst
    exact hb hst

theorem toldIn_redeemToken {token : String} {r : Uuid × Option Instant}
    (h : CheckinService.redeemToken now token st = .ok (st', r)) : ToldIn rows st.bookings st'.bookings :=
  redeemToken_evolves Told.refl (fun _ _ _ h h' => h.trans h') h (fun _ => ⟨rfl, rfl, .inl⟩)
    fun _ _ _ _ => .of_ne rfl rfl nofun

theorem toldIn_release (b : Booking) : ToldIn rows t (AutoReleaseService.release t b) :=
  Table.evolves_update Told.refl _ fun _ _ _ => .of_ne rfl rfl nofun

theorem toldIn_settle {α : Type} {x : Except HttpError (Store × α)}
    (h : ∀ st' r, x = .ok (st', r) → ToldIn rows st.bookings st'.bookings) :
    ToldIn rows st.bookings (settle x st).bookings :=
  settle_induction (P := fun s : Store => ToldIn rows st.bookings s.bookings) (.refl _) fun r hr => h r.1 r.2 hr

end Writes

/-! ### The bookings service -/

section Cancel

variable {tenantId userId : Uuid} {role : String} {id : Uuid} {reason : String} {st : Store}

theorem launchedRows_append (ps qs : List Piece) :
    ServiceCall.launchedRows (ps ++ qs) = ServiceCall.launchedRows ps ++ ServiceCall.launchedRows qs :=
  List.filterMap_append

theorem toldIn_cancel :
    ToldIn (ServiceCall.launchedRows (cancelPieces tenantId userId role id reason st)) st.bookings
      (settle (cancel tenantId userId role id reason st) st).bookings := by
  refine toldIn_settle fun st' saved hr => ?_
  obtain ⟨b, hb, -, ⟨-, rfl⟩ | ⟨hst, notes, rfl⟩⟩ := cancel_ok hr
  · exact .refl _
  · have hne : b.status ≠ .cancelled := fun h => hst (by simp [h, terminalStatuses])
    refine toldIn_save hb ⟨rfl, rfl, fun _ => .inr ?_⟩
    rw [cancelPieces_ok hb hne hr, (findBooking_eq_some.1 hb).2]
    simp [ServiceCall.launchedRows, dispatchSync]

/-- The loop of `cancelSeries` tells of every occurrence that it cancels. -/
theorem toldIn_cancelSeriesTurn {t : Table Booking} {acc : Store × List Piece}
    (h : ToldIn (ServiceCall.launchedRows acc.2) t acc.1.bookings) (child : Booking) :
    ToldIn (ServiceCall.launchedRows (cancelSeriesTurn tenantId userId role reason acc child).2) t
      (cancelSeriesTurn tenantId userId role reason acc child).1.bookings := by
  unfold cancelSeriesTurn
  split_ifs
  · exact h
  · dsimp only
    rw [launchedRows_append]
    have hold : ∀ more, ToldIn (ServiceCall.launchedRows acc.2 ++ more) t acc.1.bookings := by
      intro more k b hb
      obtain ⟨b', hb', htold⟩ := h k b hb
      exact ⟨b', hb', htold.mono (List.subset_append_left _ _)⟩
    refine (hold _).trans fun k b hb => ?_
    obtain ⟨b', hb', htold⟩ := toldIn_cancel k b hb
    exact ⟨b', hb', htold.mono (List.subset_append_right _ _)⟩

theorem toldIn_cancelSeries {series : Option Recurrence} :
    ToldIn (ServiceCall.launchedRows (cancelSeriesPieces tenantId userId role series reason st)) st.bookings
      (settle (Model.cancelSeries tenantId userId role series reason st) st).bookings := by
  unfold cancelSeriesPieces
  cases hseries : Model.cancelSeries tenantId userId role series reason st with
  | error e => exact .refl _
  | ok r =>
    obtain ⟨found, -, hseries⟩ := bind_eq_ok.1 hseries
    obtain ⟨-, -, hseries⟩ := bind_eq_ok.1 hseries
    have hr := pure_eq_ok.1 hseries
    rw [settle_ok, ← hr]
    exact foldl_invariant
      (P := fun acc : Store × List Piece => ToldIn (ServiceCall.launchedRows acc.2) st.bookings acc.1.bookings)
      (fun acc child _ h => toldIn_cancelSeriesTurn h child) (.refl _)

end Cancel

/-! ### The approvals service -/

section Approvals

variable {rows : List Row} {env : Env} {now : Instant} {st : Store}

theorem toldIn_decide {user : AuthUser} {bookingId : Uuid} {input : DecideInput}
    (h : Withdraws st (.service ⟨env, now, .decide user bookingId input⟩)) :
    ToldIn rows st.bookings (settle (ApprovalsService.decide env now user bookingId input st) st).bookings := by
  refine toldIn_settle fun st' r hok => ?_
  rcases decide_ok hok with ⟨b, hleg, -, hbk | ⟨hbk, -⟩⟩ | ⟨i, step, hd, rfl⟩
  · have hne : b.status ≠ .cancelled := by
      rcases hleg.open_ with hst | hst <;> rw [hst] <;> exact fun h => by cases h
    rw [hbk]
    cases hin : input.status with
    | approved =>
      rw [legacyDecided, hin]
      exact toldIn_save hleg.found (.of_ne rfl rfl fun h => by cases h)
    | rejected => exact absurd hleg (h hin b hleg.found hne).2
  · rw [hbk]
    exact .refl _
  · refine toldIn_map (fun b hb => ?_) fun id => commitStepDecision_find? ..
    split_ifs with hbk
    · cases hin : input.status with
      | approved =>
        rw [decidedBooking, hin]
        dsimp only
        split_ifs
        · exact .of_ne rfl rfl fun h => by cases h
        · exact .refl b
      | rejected =>
        have hfind : findBooking st.bookings user.tenantId bookingId = some b :=
          findBooking_eq_some.2 ⟨by rw [← hbk.1]; exact Table.find?_of_mem hb, hbk.2⟩
        have hst : b.status = .cancelled := by
          by_contra hne
          exact (h hin b hfind hne).1 i step hd
        obtain ⟨hid, hten, -⟩ := decidedBooking_same (lockChain st user.tenantId bookingId) step input b
        exact ⟨hid, hten, fun _ => .inl hst⟩
    · exact .refl b

theorem toldIn_delegate {user : AuthUser} {bookingId toUserId : Uuid} {reason : String} :
    ToldIn rows st.bookings (settle (delegate env now user bookingId toUserId reason st) st).bookings := by
  refine toldIn_settle fun st' r hok => ?_
  rcases delegate_ok hok with ⟨s, -, -, rfl⟩ | ⟨b, notes, -, hb, -, rfl⟩
  · exact .refl _
  · exact toldIn_save hb ⟨rfl, rfl, .inl⟩

theorem toldIn_runDue : ToldIn rows st.bookings (runDueAutoApprovals now st).bookings := by
  refine toldIn_map (fun b _ => ?_) fun id => runDueAutoApprovals_find? id
  split_ifs
  · exact .of_ne rfl rfl nofun
  · exact .refl b

theorem toldIn_sweepStale (h : Withdraws st (.service ⟨env, now, .sweepStaleApprovals⟩)) :
    ToldIn rows st.bookings (sweepStaleApprovals now st).bookings := by
  have hnone : staleBookings now st = [] := by
    refine List.eq_nil_iff_forall_not_mem.2 fun b hb => ?_
    obtain ⟨hrow, hst, hlt⟩ := mem_staleBookings hb
    exact absurd (h b hrow hst) (not_le.2 hlt)
  have hsame : sweepStaleApprovals now st = st := by
    show (staleBookings now st).foldl _ st = st
    rw [hnone]
    rfl
  rw [hsame]
  exact .refl _

end Approvals

/-! ### One call -/

/-- A call that cancels nothing in the approvals service tells of every booking that it cancels. -/
theorem toldIn_step {st : Store} {c : ServiceCall} (h : Withdraws st c) :
    ToldIn (c.enqueued st) st.bookings (c.step st).bookings := by
  cases c with
  | cancelSeries tenantId userId role series reason => exact toldIn_cancelSeries
  | service e =>
    obtain ⟨env, now, op⟩ := e
    cases op with
    | create tenantId userId dto fresh => exact toldIn_settle fun st' r hr => toldIn_create hr
    | createSeries tenantId userId dto recurrenceId occurrences fresh =>
      refine toldIn_settle fun st' r hr => ?_
      exact createSeries_ok (P := fun s : Store => ToldIn _ st.bookings s.bookings) hr (.refl _)
        fun _ _ _ _ _ _ _ hP hc => hP.trans (toldIn_create hc)
    | update tenantId userId role id dto =>
      refine toldIn_settle fun st' saved hr => ?_
      obtain ⟨b, hb, rfl⟩ := update_ok hr
      exact toldIn_edit hb
    | updateSeries tenantId userId role id dto =>
      refine toldIn_settle fun st' r hr => ?_
      exact (updateSeries_ok (P := ToldIn _ st.bookings) hr (.refl _)
        fun _ _ _ _ _ hP _ _ hb => hP.trans (toldIn_edit hb)).1
    | cancel tenantId userId role id reason =>
      have hrows : (ServiceCall.service ⟨env, now, .cancel tenantId userId role id reason⟩).enqueued st =
          ServiceCall.launchedRows (cancelPieces tenantId userId role id reason st) := by
        simp [ServiceCall.enqueued, Op.request, Request.pieces]
      rw [hrows]
      exact toldIn_cancel
    | issueToken tenantId userId isAdmin bookingId token =>
      refine toldIn_settle fun st' r hr => ?_
      obtain ⟨b, hb, -, rfl⟩ := issueToken_ok hr
      exact toldIn_save hb ⟨rfl, rfl, .inl⟩
    | checkinByBooking tenantId userId isAdmin bookingId =>
      refine toldIn_settle fun st' r hr => ?_
      obtain ⟨b, at', hb, -, -, rfl⟩ := checkinByBooking_ok hr
      exact toldIn_save hb (.of_ne rfl rfl fun h => by cases h)
    | redeemToken token => exact toldIn_settle fun st' r hr => toldIn_redeemToken hr
    | markNoShow tenantId bookingId reason =>
      refine toldIn_settle fun st' r hr => ?_
      rcases markNoShow_ok hr with rfl | ⟨b, notes, hb, -, rfl⟩
      · exact .refl _
      · exact toldIn_save hb (.of_ne rfl rfl fun h => by cases h)
    | markAttended tenantId bookingId =>
      refine toldIn_settle fun st' r hr => ?_
      rcases markAttended_ok hr with rfl | ⟨b, hb, -, rfl⟩
      · exact .refl _
      · exact toldIn_save hb (.of_ne rfl rfl fun h => by cases h)
    | tick => exact tick_ok (P := ToldIn _ st.bookings) (.refl _) fun _ b hP => hP.trans (toldIn_release b)
    | materialize booking newId =>
      show ToldIn _ st.bookings (settle (materialize env now newId booking st) st).bookings
      rw [materialize_bookings]
      exact .refl _
    | decide user bookingId input => exact toldIn_decide h
    | delegate user bookingId toUserId reason => exact toldIn_delegate
    | runDueAutoApprovals => exact toldIn_runDue
    | sweepStaleApprovals => exact toldIn_sweepStale h

/-! ### What the approvals service enqueues -/

section Mails

variable {env : Env} {now : Instant} {st : Store} {tenantId bookingId : Uuid} {event : BookingEvent}

theorem not_sync_of_notify {t id : Uuid} {event' : BookingEvent} :
    .syncOutbox t id event ∉ notifyDecision tenantId bookingId event' st := by
  unfold notifyDecision
  split_ifs <;> simp

theorem not_sync_of_decide {user : AuthUser} {id : Uuid} {input : DecideInput} :
    .syncOutbox tenantId bookingId event ∉ decideRows env now user id input st := by
  unfold decideRows
  split
  · intro hmem
    obtain ⟨event', -, hmem⟩ := List.mem_flatMap.1 hmem
    exact not_sync_of_notify hmem
  · exact List.not_mem_nil

theorem not_sync_of_sweep : .syncOutbox tenantId bookingId event ∉ sweepStaleRows now st := by
  refine foldl_invariant (P := fun acc : Store × List Row => .syncOutbox tenantId bookingId event ∉ acc.2)
    (s := (st, [])) (fun acc b _ hacc => ?_) List.not_mem_nil
  intro hmem
  rcases List.mem_append.1 hmem with hmem | hmem
  · exact hacc hmem
  · split_ifs at hmem
    · exact not_sync_of_notify hmem
    · exact List.not_mem_nil hmem

end Mails

/-- A call of the approvals service that cancels a booking tells no calendar. -/
theorem withdraws_of_accompanied {st : Store} {c : ServiceCall} (h : Accompanied st c) : Withdraws st c := by
  cases c with
  | cancelSeries tenantId userId role series reason => trivial
  | service e =>
    obtain ⟨env, now, op⟩ := e
    cases op with
    | decide user bookingId input =>
      intro hin b hb hne
      obtain ⟨hfind, hten⟩ := findBooking_eq_some.1 hb
      have hid : b.id = bookingId := Table.key_of_find? hfind
      have huntold : ∀ st' r, ApprovalsService.decide env now user bookingId input st = .ok (st', r) →
          ∀ b', st'.bookings.find? bookingId = some b' → b'.status ≠ .cancelled := by
        intro st' r hok b' hb' hst
        have hstep : (ServiceCall.service ⟨env, now, .decide user bookingId input⟩).step st = st' := by
          simp [ServiceCall.step, step, hok]
        obtain ⟨event, -, hrow⟩ := h bookingId b b' hfind hne (by rw [hstep]; exact hb') hst
        exact not_sync_of_decide hrow
      refine ⟨fun i s hd => ?_, fun hleg => ?_⟩
      · refine huntold _ _ (hd.decide_ok now) (decidedBooking (lockChain st user.tenantId bookingId) s input b)
          ((commitStepDecision_find? ..).trans ?_) (by rw [decidedBooking, hin])
        rw [hfind, Option.map_some, if_pos ⟨hid, hten⟩]
      · refine huntold _ _ (hleg.decide_ok now) (legacyDecided input b) ?_ (by rw [legacyDecided, hin])
        have hsaved : legacyStore input b st = { st with bookings := st.bookings.save (legacyDecided input b) } := by
          rw [legacyStore, hin]
          rfl
        have hkey : (legacyDecided input b).id = bookingId := by
          rw [legacyDecided, hin]
          exact hid
        rw [recordApprovalAudit, hsaved]
        exact Table.find?_save_of_key hkey hfind
    | sweepStaleApprovals =>
      intro b hb hst
      by_contra hlt
      have hstale : b ∈ st.bookings.rows.filter fun b => b.status == .pendingApproval && b.startTime < now :=
        List.mem_filter.2 ⟨hb, by simpa [hst] using hlt⟩
      have hne : staleBookings now st ≠ [] := fun hnil => by
        rcases List.take_eq_nil_iff.1 hnil with hzero | hsorted
        · cases hzero
        · have hmem := (List.perm_insertionSort (fun b b' : Booking => b.startTime ≤ b'.startTime) _).mem_iff.2 hstale
          rw [hsorted] at hmem
          cases hmem
      obtain ⟨x, hx⟩ := List.exists_mem_of_ne_nil _ hne
      obtain ⟨hrow, hpending, -⟩ := mem_staleBookings hx
      have hfind : st.bookings.find? x.id = some x := Table.find?_of_mem hrow
      have hswept : (sweepStaleApprovals now st).bookings.find? x.id = some (staleRejected x) := by
        refine (staleTurns_find? now (staleBookings now st) st x.id).trans ?_
        rw [hfind, Option.map_some, if_pos ⟨hpending, x, hx, rfl, rfl⟩]
      obtain ⟨event, -, hmem⟩ := h x.id x (staleRejected x) hfind (by rw [hpending]; decide) hswept rfl
      exact not_sync_of_sweep hmem
    | _ => trivial

/-! ### Every run -/

/-- **Every release reaches the calendars** exactly in the runs in which the approvals service cancels no booking: no
rejection of a booking that is not cancelled is accepted, and no sweep finds a stale request. -/
theorem releases_reach_calendars_iff (st : Store) (cs : List ServiceCall) :
    (∀ p c r, cs = p ++ c :: r → Accompanied (Base.run ServiceCall.step st p) c) ↔
      AllSteps ServiceCall.step Withdraws st cs := by
  rw [allSteps_iff]
  refine forall₃_congr fun p c r => imp_congr_right fun _ => ⟨withdraws_of_accompanied, fun h => ?_⟩
  intro id b b' hb hne hb' hst
  obtain ⟨b'', hb'', htold⟩ := toldIn_step h id b hb
  obtain rfl : b' = b'' := Option.some.inj (hb'.symm.trans hb'')
  exact ⟨.cancelled, rfl, (htold.status hst).resolve_left hne⟩

/-- A booking is requested and rejected: it is cancelled, and no calendar hears of it. -/
theorem rejection_untold :
    ¬ Accompanied (run Store.empty [⟨approvalOffice, 0, requestRoom⟩])
      (.service ⟨approvalOffice, 1, .decide ⟨"ann", "t", "Officer", none⟩ "b" ⟨.rejected, some "no"⟩⟩) := by
  intro h
  obtain ⟨event, -, hrow⟩ := h "b" _ _ rfl (by decide) rfl (by decide)
  have hrows : (ServiceCall.service ⟨approvalOffice, 1,
      .decide ⟨"ann", "t", "Officer", none⟩ "b" ⟨.rejected, some "no"⟩⟩).enqueued
        (run Store.empty [⟨approvalOffice, 0, requestRoom⟩]) = [.notification "b" .rejected] := by
    decide +kernel
  rw [hrows, List.mem_singleton] at hrow
  cases hrow

end BookingSystem.Runs
