import BookingSystem.Effects.Chains
import BookingSystem.Effects.Checkin
import BookingSystem.Effects.Sweeps
import BookingSystem.Model.System

/-!
# Released slots

A booking that is `'Cancelled'` or `'No Show'` has given its slot away. Every service but one looks at the status
before it writes it. The decision on a chain does not, and so a chain that outlives its booking can bring the
booking back. `Respects` says when that does not happen, and `released_stays_iff` that it is the only way a
released booking changes its status.
-/

namespace BookingSystem.Runs

open Base Model Model.BookingsService
open Model.ApprovalsService Effects

/-- The call does not decide a chain that outlived its booking: it does not close the chain of a released booking,
and does not reject it when the booking is a `'No Show'`. -/
def Respects (st : Store) (e : Event) : Prop :=
  match e.op with
  | .decide user bookingId input => ∀ i step b, ChainDecision e.env user bookingId input st i step →
      findBooking st.bookings user.tenantId bookingId = some b → b.status.released = true →
      match input.status with
      | .approved => allDone (lockChain st user.tenantId bookingId) step = false
      | .rejected => b.status = .cancelled
  | .runDueAutoApprovals => ∀ b ∈ st.bookings.rows, b.status.released = true →
      closes (due e.now) (lockChain st b.tenantId b.id) = false
  | _ => True

/-- A released booking keeps its status. -/
def KeepsReleased (b b' : Booking) : Prop := b.status.released = true → b'.status = b.status

theorem KeepsReleased.refl (b : Booking) : KeepsReleased b b := fun _ => rfl

theorem KeepsReleased.trans (a b c : Booking) (h : KeepsReleased a b) (h' : KeepsReleased b c) :
    KeepsReleased a c := by
  intro ha
  rw [h' (by rw [h ha]; exact ha), h ha]

theorem KeepsReleased.of_open {b b' : Booking} (h : b.status.released = false) : KeepsReleased b b' := fun hr => by
  rw [h] at hr
  cases hr

theorem released_of_notMem_terminal {s : BookingStatus} (h : s ∉ terminalStatuses) : s.released = false := by
  cases s <;> simp_all [terminalStatuses, BookingStatus.released]

/-- The released bookings of `t` are in `t'` with their status. -/
def Kept (t t' : Table Booking) : Prop :=
  ∀ id b, t.find? id = some b → b.status.released = true → ∃ b', t'.find? id = some b' ∧ b'.status = b.status

theorem Kept.refl (t : Table Booking) : Kept t t := fun _ b hb _ => ⟨b, hb, rfl⟩

theorem Kept.trans {t t' t'' : Table Booking} (h : Kept t t') (h' : Kept t' t'') : Kept t t'' := by
  intro id b hb hrel
  obtain ⟨b', hb', hst⟩ := h id b hb hrel
  obtain ⟨b'', hb'', hst'⟩ := h' id b' hb' (by rw [hst]; exact hrel)
  exact ⟨b'', hb'', hst'.trans hst⟩

theorem kept_of_evolves {t t' : Table Booking} (h : Table.Evolves KeepsReleased t t') : Kept t t' := by
  intro id b hb hrel
  obtain ⟨b', hb', hk⟩ := h id b hb
  exact ⟨b', hb', hk hrel⟩

/-! ### The guarded operations -/

section Guarded

variable {env : Env} {now : Instant} {st st' : Store} {t : Table Booking}

theorem Kept.save {b v : Booking} {tenantId id : Uuid} (hb : findBooking t tenantId id = some b) (hid : v.id = b.id)
    (h : KeepsReleased b v) : Kept t (t.save v) := by
  obtain ⟨hfind, -⟩ := findBooking_eq_some.1 hb
  refine kept_of_evolves (Table.evolves_save KeepsReleased.refl ?_ h)
  rw [key_booking, hid, show b.id = id from Table.key_of_find? hfind]
  exact hfind

theorem kept_edit {tenantId userId : Uuid} {role : String} {id : Uuid} {dto : UpdateBookingDto} {b saved : Booking}
    (h : Edited env tenantId userId role id dto t b saved) : Kept t (t.save saved) :=
  Kept.save h.found h.id_eq (.of_open (released_of_notMem_terminal h.open_))

theorem kept_create {fresh : Fresh} {tenantId userId : Uuid} {dto : CreateBookingDto} {row : Booking}
    (h : create env now fresh tenantId userId dto st = .ok (st', row)) : Kept st.bookings st'.bookings := by
  obtain ⟨slot, -, hins⟩ := create_inserts h
  exact kept_of_evolves (Table.evolves_insert? KeepsReleased.refl hins)

theorem kept_redeemToken {token : String} {r : Uuid × Option Instant}
    (h : CheckinService.redeemToken now token st = .ok (st', r)) : Kept st.bookings st'.bookings := by
  refine kept_of_evolves (redeemToken_evolves KeepsReleased.refl KeepsReleased.trans h (fun _ _ => rfl) ?_)
  intro claim at' _ hclaim
  have hrel : claim.status.released = false := released_of_claims (List.find?_some hclaim)
  exact .of_open hrel

theorem kept_release (b : Booking) : Kept t (AutoReleaseService.release t b) := by
  refine kept_of_evolves (Table.evolves_update KeepsReleased.refl _ fun r _ hp => .of_open ?_)
  simp only [Bool.and_eq_true, beq_iff_eq] at hp
  rw [hp.1.2]
  rfl

theorem kept_autoRejectStale (tenantId id : Uuid) : Kept st.bookings (autoRejectStale now tenantId id st).bookings := by
  rcases autoRejectStale_cases now tenantId id st with h | ⟨b, hb, hst, hbk, -⟩
  · rw [h]
    exact .refl _
  · rw [hbk]
    exact Kept.save hb rfl (.of_open (by rw [hst]; rfl))

end Guarded

/-! ### One call -/

theorem kept_settle {α : Type} {st : Store} {x : Except HttpError (Store × α)}
    (h : ∀ st' r, x = .ok (st', r) → Kept st.bookings st'.bookings) : Kept st.bookings (settle x st).bookings :=
  settle_induction (P := fun s : Store => Kept st.bookings s.bookings) (.refl _) fun r hr => h r.1 r.2 hr

theorem kept_commit {now : Instant} {tenantId bookingId : Uuid} {steps : List ApprovalStep} {step : ApprovalStep}
    {input : DecideInput} {actorId : Option Uuid} {st : Store} :
    Kept st.bookings (commitStepDecision now tenantId bookingId steps step input actorId st).1.bookings ↔
      ∀ b, findBooking st.bookings tenantId bookingId = some b → b.status.released = true →
        match input.status with
        | .approved => allDone steps step = false
        | .rejected => b.status = .cancelled := by
  have hrow : ∀ b : Booking, b.status.released = true → ((decidedBooking steps step input b).status = b.status ↔
      match input.status with
      | .approved => allDone steps step = false
      | .rejected => b.status = .cancelled) := by
    intro b hrel
    unfold decidedBooking
    cases input.status with
    | rejected => exact eq_comm
    | approved =>
      cases allDone steps step with
      | false => simp
      | true =>
        have : b.status ≠ .confirmed := fun h => by simp [h, BookingStatus.released] at hrel
        simpa [confirmed] using this.symm
  constructor
  · intro h b hb hrel
    obtain ⟨hfind, hten⟩ := findBooking_eq_some.1 hb
    obtain ⟨b', hb', hst⟩ := h bookingId b hfind hrel
    rw [commitStepDecision_find?, hfind, Option.map_some,
      if_pos ⟨Table.key_of_find? hfind, hten⟩, Option.some.injEq] at hb'
    subst hb'
    exact (hrow b hrel).1 hst
  · intro h id b hb hrel
    rw [commitStepDecision_find?, hb]
    refine ⟨_, rfl, ?_⟩
    dsimp only
    split
    · rename_i hbk
      have hid : b.id = id := Table.key_of_find? hb
      refine (hrow b hrel).2 (h b (findBooking_eq_some.2 ⟨?_, hbk.2⟩) hrel)
      rw [← hbk.1, hid]
      exact hb
    · rfl

theorem kept_sweep {now : Instant} {st : Store} :
    Kept st.bookings (runDueAutoApprovals now st).bookings ↔ ∀ b ∈ st.bookings.rows, b.status.released = true →
      closes (due now) (lockChain st b.tenantId b.id) = false := by
  constructor
  · intro h b hb hrel
    have hfind : st.bookings.find? b.id = some b := Table.find?_of_mem hb
    obtain ⟨b', hb', hst⟩ := h b.id b hfind hrel
    rw [runDueAutoApprovals_find?, hfind, Option.map_some, Option.some.injEq] at hb'
    by_contra hc
    rw [if_pos (by simpa using hc)] at hb'
    subst hb'
    simp [← hst, confirmed, BookingStatus.released] at hrel
  · intro h id b hb hrel
    rw [runDueAutoApprovals_find?, hb]
    refine ⟨_, rfl, ?_⟩
    dsimp only
    rw [h b (Table.mem_of_find? hb) hrel]
    rfl

theorem kept_decide {env : Env} {now : Instant} {user : AuthUser} {bookingId : Uuid} {input : DecideInput}
    {st : Store} (h : Respects st ⟨env, now, .decide user bookingId input⟩) :
    Kept st.bookings (settle (ApprovalsService.decide env now user bookingId input st) st).bookings := by
  refine kept_settle fun st' r hok => ?_
  rcases decide_ok hok with ⟨b, hleg, -, hst⟩ | ⟨i, step, hd, rfl⟩
  · rcases hst with hbk | ⟨hbk, -⟩
    · rw [hbk]
      refine Kept.save hleg.found ?_ (.of_open ?_)
      · unfold legacyDecided
        cases input.status <;> rfl
      · rcases hleg.open_ with hs | hs <;> rw [hs] <;> rfl
    · rw [hbk]
      exact .refl _
  · exact kept_commit.2 fun b hb hrel => h i step b hd hb hrel

theorem kept_delegate {env : Env} {now : Instant} {user : AuthUser} {bookingId toUserId : Uuid} {reason : String}
    {st st' : Store} {u : Unit} (h : delegate env now user bookingId toUserId reason st = .ok (st', u)) :
    Kept st.bookings st'.bookings := by
  rcases delegate_ok h with ⟨s, -, -, rfl⟩ | ⟨b, notes, -, hb, -, rfl⟩
  · exact .refl _
  · exact Kept.save hb rfl fun _ => rfl

/-- A call that respects the released bookings keeps them. -/
theorem kept_step {st : Store} {e : Event} (h : Respects st e) : Kept st.bookings (step st e).bookings := by
  have refl : Kept st.bookings st.bookings := .refl _
  obtain ⟨env, now, op⟩ := e
  cases op with
  | create tenantId userId dto fresh =>
    exact kept_settle fun st' r hr => kept_create hr
  | createSeries tenantId userId dto recurrenceId occurrences fresh =>
    refine kept_settle fun st' r hr => ?_
    exact createSeries_ok (P := fun s : Store => Kept st.bookings s.bookings) hr refl
      fun _ _ _ _ _ _ _ hP hc => hP.trans (kept_create hc)
  | update tenantId userId role id dto =>
    refine kept_settle fun st' saved hr => ?_
    obtain ⟨b, hb, rfl⟩ := update_ok hr
    exact kept_edit hb
  | updateSeries tenantId userId role id dto =>
    refine kept_settle fun st' r hr => ?_
    exact (updateSeries_ok (P := Kept st.bookings) hr refl
      fun _ _ _ _ _ hP _ _ hb => hP.trans (kept_edit hb)).1
  | cancel tenantId userId role id reason =>
    refine kept_settle fun st' saved hr => ?_
    obtain ⟨b, hb, -, ⟨-, rfl⟩ | ⟨hst, notes, rfl⟩⟩ := cancel_ok hr
    · exact refl
    · exact Kept.save hb rfl (.of_open (released_of_notMem_terminal hst))
  | issueToken tenantId userId isAdmin bookingId token =>
    refine kept_settle fun st' r hr => ?_
    obtain ⟨b, hb, -, rfl⟩ := issueToken_ok hr
    exact Kept.save hb rfl fun _ => rfl
  | checkinByBooking tenantId userId isAdmin bookingId =>
    refine kept_settle fun st' r hr => ?_
    obtain ⟨b, at', hb, -, hrel, rfl⟩ := checkinByBooking_ok hr
    exact Kept.save hb rfl (.of_open hrel)
  | redeemToken token =>
    exact kept_settle fun st' r hr => kept_redeemToken hr
  | markNoShow tenantId bookingId reason =>
    refine kept_settle fun st' r hr => ?_
    rcases markNoShow_ok hr with rfl | ⟨b, notes, hb, hrel, rfl⟩
    · exact refl
    · exact Kept.save hb rfl (.of_open hrel)
  | markAttended tenantId bookingId =>
    refine kept_settle fun st' r hr => ?_
    rcases markAttended_ok hr with rfl | ⟨b, hb, hrel, rfl⟩
    · exact refl
    · exact Kept.save hb rfl (.of_open hrel)
  | tick =>
    exact tick_ok (P := Kept st.bookings) refl fun _ b hP => hP.trans (kept_release b)
  | materialize booking newId =>
    show Kept st.bookings (settle (materialize env now newId booking st) st).bookings
    rw [materialize_bookings]
    exact refl
  | decide user bookingId input => exact kept_decide h
  | delegate user bookingId toUserId reason =>
    exact kept_settle fun st' r hr => kept_delegate hr
  | runDueAutoApprovals => exact kept_sweep.2 h
  | sweepStaleApprovals =>
    exact foldl_invariant (P := fun s : Store => Kept st.bookings s.bookings)
      (fun _ _ _ hP => hP.trans (kept_autoRejectStale _ _)) refl

theorem respects_of_kept {st : Store} {e : Event} (h : Kept st.bookings (step st e).bookings) : Respects st e := by
  obtain ⟨env, now, op⟩ := e
  cases op with
  | decide user bookingId input =>
    intro i s b hd hb hrel
    simp only [step, hd.decide_ok now, settle_ok] at h
    exact kept_commit.1 h b hb hrel
  | runDueAutoApprovals => exact kept_sweep.1 h
  | _ => trivial

/-! ### Every run -/

/-- **Released slots.** In a run from the empty store no released booking ever changes its status, if and only if
every call respects the released bookings. -/
theorem released_stays_iff (es : List Event) :
    AllSteps step Respects Store.empty es ↔
      ∀ p q r, es = p ++ q ++ r → ∀ id b, (run Store.empty p).bookings.find? id = some b →
        b.status.released = true → ∃ b', (run Store.empty (p ++ q)).bookings.find? id = some b' ∧
          b'.status = b.status := by
  constructor
  · rintro h p q r rfl
    have hq := (allSteps_append.1 (allSteps_append.1 h).1).2
    rw [run_then]
    exact run_related (I := fun _ => True) (R := fun s s' : Store => Kept s.bookings s'.bookings) (fun s => .refl _)
      (fun _ _ _ h h' => h.trans h') (fun _ _ _ _ => trivial) (fun _ _ _ hC => kept_step hC) trivial hq
  · intro h
    rw [allSteps_iff]
    rintro p e r rfl
    refine respects_of_kept ?_
    have := h p [e] r (by simp)
    rw [run_then] at this
    exact this

/-- A booking is requested, cancelled by its owner, and then approved: the approval closes the chain that the
cancellation left behind, and the cancelled booking is confirmed. -/
theorem released_not_kept :
    ¬ ∀ es fs id b, (run Store.empty es).bookings.find? id = some b → b.status.released = true →
      ∃ b', (run Store.empty (es ++ fs)).bookings.find? id = some b' ∧ b'.status = b.status := by
  intro h
  obtain ⟨b', hb', hst⟩ := h
    [⟨approvalOffice, 0, requestRoom⟩, ⟨approvalOffice, 1, .cancel "t" "u" "Officer" "b" "no longer needed"⟩]
    [⟨approvalOffice, 2, .decide ⟨"ann", "t", "Officer", none⟩ "b" ⟨.approved, none⟩⟩] "b" _ rfl rfl
  have hconf : ((run Store.empty [⟨approvalOffice, 0, requestRoom⟩,
      ⟨approvalOffice, 1, .cancel "t" "u" "Officer" "b" "no longer needed"⟩,
      ⟨approvalOffice, 2, .decide ⟨"ann", "t", "Officer", none⟩ "b" ⟨.approved, none⟩⟩]).bookings.find? "b").map
      (·.status) = some .confirmed := by decide
  simp only [List.cons_append, List.nil_append] at hb'
  rw [hb', Option.map_some, hst] at hconf
  cases hconf

end BookingSystem.Runs
