import BookingSystem.Effects.Checkin
import BookingSystem.Effects.Inbox
import BookingSystem.Effects.Sweeps
import BookingSystem.Model.System

/-!
# The approver's inbox

Inbox and decision agree as long as the chains fit their bookings. Four kinds of calls can upset this, and `Orderly`
says when they do not: the inbox agrees with `decide` all along a run exactly when every call of the run is orderly
(`inbox_agrees_iff`).
-/

namespace BookingSystem.Runs

open Base Model Model.BookingsService
open Model.ApprovalsService Effects

/-! ### Chains that fit their bookings -/

/-- The chain fits the booking: an open step only while the booking waits, a pending step when the booking waits, and
a rejected step only when the booking is released. -/
structure Fits (env : Env) (b : Booking) (chain : List ApprovalStep) : Prop where
  open_ : ∀ i, Open env chain i → b.status = .pendingApproval
  waits : b.status = .pendingApproval → chain = [] ∨ HasPending chain
  rejected : ∀ s ∈ chain, s.status = .rejected → b.status.released = true

/-- Every chain fits its booking. -/
abbrev Fitting (env : Env) (st : Store) : Prop := Chained (Fits env) st

theorem inboxAgrees_of_fitting {env : Env} {st : Store} (h : Fitting env st) : InboxAgrees env st := by
  refine inboxAgrees_iff.2 fun b hb => ⟨?_, (h.holds b hb).waits⟩
  rintro ⟨i, hi⟩
  exact (h.holds b hb).open_ i hi

theorem fitting_congr {env env' : Env} (h : env'.rules = env.rules) {st : Store} (hst : Fitting env st) :
    Fitting env' st :=
  hst.mono fun _ _ hf => ⟨fun i hi => hf.open_ i ((open_congr h).1 hi), hf.waits, hf.rejected⟩

section Fits

variable {env : Env} {b b' : Booking} {chain : List ApprovalStep}

theorem Fits.of_status (h : Fits env b chain) (hst : b'.status = b.status) : Fits env b' chain :=
  ⟨fun i hi => hst.trans (h.open_ i hi), fun hp => h.waits (hst.symm.trans hp),
    fun s hs hr => by rw [hst]; exact h.rejected s hs hr⟩

theorem Fits.release (hopen : ∀ i, ¬ Open env chain i) (hst : b'.status.released = true) : Fits env b' chain :=
  ⟨fun i hi => absurd hi (hopen i), fun hp => (by rw [hp] at hst; cases hst), fun _ _ _ => hst⟩

theorem Fits.not_open (h : Fits env b chain) (hst : b.status ≠ .pendingApproval) (i : ℕ) : ¬ Open env chain i :=
  fun hi => hst (h.open_ i hi)

theorem Fits.reenter (h : Fits env b chain) (hrel : b.status.released = false) (hst : b'.status = .pendingApproval)
    (hwait : chain = [] ∨ HasPending chain) : Fits env b' chain := by
  refine ⟨fun _ _ => hst, fun _ => hwait, fun s hs hr => ?_⟩
  rw [h.rejected s hs hr] at hrel
  cases hrel

section Approve

variable {p : ApprovalStep → Bool} {f : ApprovalStep → ApprovalStep}
  (hf : ∀ s, (f s).status = if p s then .approved else s.status)

include hf

theorem status_of_not_approved {s : ApprovalStep} (h : (f s).status ≠ .approved) :
    p s = false ∧ s.status = (f s).status := by
  rw [hf] at h ⊢
  cases hps : p s with
  | true => exact absurd (if_pos hps) h
  | false => exact ⟨rfl, rfl⟩

theorem Fits.close (hc : closes p chain = true) : Fits env (confirmed b) (chain.map f) := by
  have hdone : ∀ s ∈ chain, isDone (f s) = true := by
    intro s hs
    rw [isDone, hf]
    rcases (closes_iff.1 hc).2 s hs with hd | hd
    · split
      · rfl
      · exact hd
    · rw [if_pos hd]
      rfl
  refine ⟨?_, fun hst => (by cases hst), ?_⟩
  · rintro i ⟨x, hx, hp, -⟩
    rw [List.getElem?_map, Option.map_eq_some_iff] at hx
    obtain ⟨s, hs, rfl⟩ := hx
    have := hdone s (List.mem_of_getElem? hs)
    simp [isDone, hp] at this
  · intro x hx hr
    obtain ⟨s, hs, rfl⟩ := List.mem_map.1 hx
    have := hdone s hs
    simp [isDone, hr] at this

theorem Fits.hasPending (h : Fits env b chain) (hst : b.status = .pendingApproval) (hc : closes p chain = false) :
    chain.map f = [] ∨ HasPending (chain.map f) := by
  rcases h.waits hst with rfl | ⟨s, hs, hp⟩
  · exact .inl rfl
  right
  by_cases hps : p s = true
  · -- a step that is not done and not approved now is pending, since no step is rejected
    have hnot : ¬ ∀ x ∈ chain, isDone x = true ∨ p x = true := by
      intro hall
      rw [closes_iff.2 ⟨⟨s, hs, hps⟩, hall⟩] at hc
      cases hc
    push Not at hnot
    obtain ⟨x, hx, hxd, hxp⟩ := hnot
    refine ⟨f x, List.mem_map_of_mem hx, ?_⟩
    rw [hf, if_neg hxp]
    cases hxs : x.status with
    | pending => rfl
    | approved => simp [isDone, hxs] at hxd
    | skipped => simp [isDone, hxs] at hxd
    | rejected =>
      have := h.rejected x hx hxs
      rw [hst] at this
      cases this
  · exact ⟨f s, List.mem_map_of_mem hs, by rw [hf, if_neg hps, hp]⟩

theorem Fits.approve (h : Fits env b chain)
    (hopen : b.status ≠ .pendingApproval → closes p chain = false → ∀ i, ¬ Open env (chain.map f) i) :
    Fits env (if closes p chain then confirmed b else b) (chain.map f) := by
  cases hc : closes p chain with
  | true => exact Fits.close hf hc
  | false =>
    refine ⟨fun i hi => ?_, fun hst => h.hasPending hf hst hc, fun x hx hr => ?_⟩
    · by_contra hst
      exact hopen hst hc i hi
    · obtain ⟨s, hs, rfl⟩ := List.mem_map.1 hx
      have hs' := (status_of_not_approved hf (s := s) (by rw [hr]; decide)).2
      exact h.rejected s hs (hs'.trans hr)

end Approve

theorem fits_nil (env : Env) (b : Booking) : Fits env b [] := by
  refine ⟨?_, fun _ => .inl rfl, fun s hs => by cases hs⟩
  rintro i ⟨s, hs, -⟩
  simp at hs

theorem fits_chainRows {env env' : Env} {now : Instant} {newId : ℕ → Uuid} {row : Booking} {res : Resource}
    {rule : ApprovalRule} (hst : row.status = .pendingApproval) (hlev : rule.levels ≠ []) :
    Fits env row (chainRows env' now newId row res rule) := by
  refine ⟨fun _ _ => hst, fun _ => .inr ?_, fun s hs hr => ?_⟩
  · have hne : chainRows env' now newId row res rule ≠ [] := by simpa [chainRows] using hlev
    obtain ⟨s, hs⟩ := List.exists_mem_of_ne_nil _ hne
    exact ⟨s, hs, (mem_chainRows hs).2.2.2⟩
  · rw [(mem_chainRows hs).2.2.2] at hr
    cases hr

end Fits

/-! ### One call -/

/-- The calls that lead to the states of the inbox. -/
def InboxCall (e : Event) : Prop :=
  match e.op with
  | .create .. | .update .. | .cancel .. | .decide .. | .delegate .. | .runDueAutoApprovals | .sweepStaleApprovals
  | .tick => True
  | _ => False

/-- The call leaves inbox and decision in agreement: a confirmed booking does not re-enter the queue with a chain that
is decided, a booking is not cancelled while a step of its chain is open, a step is not rejected while another one is
open, and a sweep does not open a step of a booking that does not wait. -/
def Orderly (st : Store) (e : Event) : Prop :=
  match e.op with
  | .update tenantId userId role id dto => ∀ b r, findBooking st.bookings tenantId id = some b →
      b.status = .confirmed → (timeChanged dto = true ∨ dto.resourceId.getD b.resourceId ≠ b.resourceId) →
      e.env.resource tenantId (dto.resourceId.getD b.resourceId) = some r → needsApproval r = true →
      (∃ x, update e.env e.now tenantId userId role id dto st = .ok x) →
      lockChain st tenantId id = [] ∨ HasPending (lockChain st tenantId id)
  | .cancel tenantId userId role id _ => ∀ b, findBooking st.bookings tenantId id = some b →
      (b.userId = userId ∨ isAdmin role = true) → b.status ∉ terminalStatuses →
      ∀ i, ¬ Open e.env (lockChain st tenantId id) i
  | .decide user bookingId input => input.status = .rejected →
      ∀ i s, ChainDecision e.env user bookingId input st i s →
      ∀ j, Open e.env (lockChain st user.tenantId bookingId) j → j = i
  | .runDueAutoApprovals => ∀ b ∈ st.bookings.rows, b.status ≠ .pendingApproval →
      ∀ i s, (lockChain st b.tenantId b.id)[i]? = some s → s.status = .pending → due e.now s = false →
      ¬ ∀ d ∈ depsOf (chainRule e.env (lockChain st b.tenantId b.id)) i,
        ∃ x, stepAt (lockChain st b.tenantId b.id) d = some x ∧ (isDone x = true ∨ due e.now x = true)
  | _ => True

section Calls

variable {env : Env} {now : Instant} {st st' : Store}

theorem fitting_update {tenantId userId : Uuid} {role : String} {id : Uuid} {dto : UpdateBookingDto} {saved : Booking}
    (h : Fitting env st) (hC : Orderly st ⟨env, now, .update tenantId userId role id dto⟩)
    (hu : update env now tenantId userId role id dto st = .ok (st', saved)) : Fitting env st' := by
  obtain ⟨b, hb, rfl⟩ := update_ok hu
  rcases hb.row with ⟨-, he⟩ | ⟨slot, hcl, -, he⟩
  · exact h.save rfl rfl hb.found he.id he.tenantId fun hf => hf.of_status he.status
  · refine h.save rfl rfl hb.found he.id he.tenantId fun hf => ?_
    by_cases hre : needsApproval slot.resource = true ∧ b.status = .confirmed
    · refine hf.reenter (by rw [hre.2]; rfl) ?_
        (hC b slot.resource hb.found hre.2 hcl.changed hcl.resource hre.1 ⟨_, hu⟩)
      rw [he.status]
      simp [reschedule, hre.1, hre.2]
    · refine hf.of_status ?_
      rw [he.status]
      rw [not_and] at hre
      simp only [reschedule, Bool.and_eq_true, beq_iff_eq]
      exact if_neg fun hk => hre hk.1 hk.2

theorem fitting_cancel {tenantId userId : Uuid} {role : String} {id : Uuid} {reason : String} {saved : Booking}
    (h : Fitting env st) (hC : Orderly st ⟨env, now, .cancel tenantId userId role id reason⟩)
    (hc : cancel tenantId userId role id reason st = .ok (st', saved)) : Fitting env st' := by
  obtain ⟨b, hb, hown, ⟨-, rfl⟩ | ⟨hst, notes, rfl⟩⟩ := cancel_ok hc
  · exact h
  · exact h.save rfl rfl hb rfl rfl fun _ => Fits.release (hC b hb hown hst) rfl

theorem allDone_eq_closes {tenantId bookingId : Uuid} {step : ApprovalStep}
    (hstep : step ∈ lockChain st tenantId bookingId) :
    allDone (lockChain st tenantId bookingId) step = closes (· == step) (lockChain st tenantId bookingId) := by
  refine Bool.eq_iff_iff.2 ?_
  rw [closes_iff, and_iff_right ⟨step, hstep, by simp⟩, allDone]
  simp only [List.all_eq_true, Bool.or_eq_true, beq_iff_eq]
  refine forall₂_congr fun x hx => ?_
  have hid : x.id = step.id ↔ x = step :=
    ⟨fun hk => Table.eq_of_key (mem_lockChain.1 hx).1 (mem_lockChain.1 hstep).1 hk, fun hk => by rw [hk]⟩
  rw [hid]
  exact or_comm

theorem fits_decided {user : AuthUser} {bookingId : Uuid} {input : DecideInput} {i : ℕ} {step : ApprovalStep}
    {b : Booking} (hd : ChainDecision env user bookingId input st i step)
    (hC : Orderly st ⟨env, now, .decide user bookingId input⟩)
    (hf : Fits env b (lockChain st user.tenantId bookingId)) :
    Fits env (decidedBooking (lockChain st user.tenantId bookingId) step input b)
      ((lockChain st user.tenantId bookingId).map fun s =>
        if s = step then decidedStep now input (some user.id) step else s) := by
  have hmem := List.mem_of_getElem? hd.at_
  have hopen : Open env (lockChain st user.tenantId bookingId) i := ⟨step, hd.at_, hd.pending, hd.deps⟩
  have hrule : ∀ s, (if s = step then decidedStep now input (some user.id) step else s).ruleId = s.ruleId :=
    Table.replace_same (f := ApprovalStep.ruleId) rfl
  unfold decidedBooking
  cases hin : input.status with
  | approved =>
    simp only
    rw [allDone_eq_closes hmem]
    refine Fits.approve (fun s => ?_) hf fun hno _ => absurd (hf.open_ i hopen) hno
    by_cases hs : s = step
    · simp [hs, decidedStep, hin, ApprovalDecision.stepStatus]
    · simp [hs]
  | rejected =>
    refine Fits.release (fun j hj => ?_) rfl
    obtain ⟨s, hs, hp, hdeps⟩ := (open_map hrule).1 hj
    -- an open step was open before, and so it is the one that was rejected
    have hne : s ≠ step := by
      rintro rfl
      simp [decidedStep, hin, ApprovalDecision.stepStatus] at hp
    rw [if_neg hne] at hp
    have hji : j = i := by
      refine hC hin i step hd j ⟨s, hs, hp, ?_⟩
      refine List.all_eq_true.2 fun d hdd => ?_
      obtain ⟨x, hx, hxd⟩ := hdeps d hdd
      refine (Option.any_eq_true _ _).2 ⟨x, hx, ?_⟩
      by_cases hxs : x = step
      · simp [hxs, decidedStep, isDone, hin, ApprovalDecision.stepStatus] at hxd
      · rwa [if_neg hxs] at hxd
    rw [hji, hd.at_, Option.some.injEq] at hs
    exact hne hs.symm

theorem Fits.map_same {b : Booking} {chain : List ApprovalStep} {f : ApprovalStep → ApprovalStep}
    (h : Fits env b chain) (hst : ∀ s, (f s).status = s.status) (hrule : ∀ s, (f s).ruleId = s.ruleId) :
    Fits env b (chain.map f) := by
  have hdone : ∀ s, isDone (f s) = isDone s := fun s => by rw [isDone, hst, isDone]
  refine ⟨fun i hi => ?_, fun hp => ?_, fun x hx hr => ?_⟩
  · obtain ⟨s, hs, hp, hdeps⟩ := (open_map hrule).1 hi
    refine h.open_ i ⟨s, hs, (hst s).symm.trans hp, List.all_eq_true.2 fun d hd => ?_⟩
    obtain ⟨x, hx, hxd⟩ := hdeps d hd
    exact (Option.any_eq_true _ _).2 ⟨x, hx, (hdone x).symm.trans hxd⟩
  · rcases h.waits hp with rfl | ⟨s, hs, hsp⟩
    · exact .inl rfl
    · exact .inr ⟨f s, List.mem_map_of_mem hs, (hst s).trans hsp⟩
  · obtain ⟨s, hs, rfl⟩ := List.mem_map.1 hx
    exact h.rejected s hs ((hst s).symm.trans hr)

theorem fitting_delegate {user : AuthUser} {bookingId toUserId : Uuid} {reason : String} {u : Unit}
    (h : Fitting env st) (hd : delegate env now user bookingId toUserId reason st = .ok (st', u)) :
    Fitting env st' := by
  rcases delegate_ok hd with ⟨s₀, hm, -, rfl⟩ | ⟨b, notes, -, hb, -, rfl⟩
  · refine h.rewrite (f := fun s => if s = s₀ then delegatedStep now user toUserId reason s₀ else s) (g := id)
      (Table.rows_save_of_mem hm rfl) ?_ ?_ ?_ (fun k => by simp) (fun _ _ => ⟨rfl, rfl⟩) fun b _ hf => ?_
    · exact Table.replace_same (f := ApprovalStep.tenantId) rfl
    · exact Table.replace_same (f := ApprovalStep.bookingId) rfl
    · exact Table.replace_same (f := ApprovalStep.stepIndex) rfl
    · exact hf.map_same (Table.replace_same (f := ApprovalStep.status) rfl)
        (Table.replace_same (f := ApprovalStep.ruleId) rfl)
  · exact h.save rfl rfl hb rfl rfl fun hf => hf.of_status rfl

theorem fitting_runDue (h : Fitting env st) (hC : Orderly st ⟨env, now, .runDueAutoApprovals⟩) :
    Fitting env (runDueAutoApprovals now st) := by
  have hstatus : ∀ s, (if due now s then approveStep now s else s).status =
      if due now s then .approved else s.status := by
    intro s
    split <;> rfl
  refine h.rewrite (f := fun s => if due now s then approveStep now s else s)
    (g := fun b => if closes (due now) (lockChain st b.tenantId b.id) then confirmed b else b)
    runDueAutoApprovals_steps ?_ ?_ ?_ runDueAutoApprovals_find? ?_ ?_
  · intro s; split <;> rfl
  · intro s; split <;> rfl
  · intro s; split <;> rfl
  · intro b _; split <;> exact ⟨rfl, rfl⟩
  · intro b hb hf
    refine hf.approve hstatus fun hno _ i hi => ?_
    obtain ⟨s, hs, hp, hdeps⟩ := (open_map (fun s => by split <;> rfl)).1 hi
    rw [hstatus] at hp
    cases hdue : due now s with
    | true => simp [hdue] at hp
    | false =>
      refine hC b hb hno i s hs (by simpa [hdue] using hp) hdue fun d hd => ?_
      obtain ⟨x, hx, hxd⟩ := hdeps d hd
      refine ⟨x, hx, ?_⟩
      cases hxdue : due now x with
      | true => exact .inr rfl
      | false => exact .inl (by simpa [hxdue] using hxd)

/-- A turn of the stale sweep: the booking is cancelled and its pending steps are closed. -/
theorem fitting_autoRejectStale (h : Fitting env st) (tenantId bookingId : Uuid) :
    Fitting env (autoRejectStale now tenantId bookingId st) := by
  rcases autoRejectStale_cases now tenantId bookingId st with heq | ⟨b, hb, -, hbk, hrows⟩
  · rw [heq]
    exact h
  obtain ⟨hfind, hten⟩ := findBooking_eq_some.1 hb
  have hid : b.id = bookingId := Table.key_of_find? hfind
  refine h.rewrite
    (g := fun x => if x.id = b.id then { b with status := .cancelled, exceptionNotes := staleNote } else x)
    hrows ?_ ?_ ?_ ?_ ?_ ?_
  · intro s; split <;> rfl
  · intro s; split <;> rfl
  · intro s; split <;> rfl
  · intro k
    rw [hbk, Table.find?_save_map]
    rfl
  · intro x hx
    split
    · rename_i hxb
      obtain rfl := Table.eq_of_key hx (Table.mem_of_find? hfind) hxb
      exact ⟨rfl, rfl⟩
    · exact ⟨rfl, rfl⟩
  · intro x hx hf
    split
    · rename_i hxb
      obtain rfl := Table.eq_of_key hx (Table.mem_of_find? hfind) hxb
      refine Fits.release (fun i => ?_) rfl
      rintro ⟨s', hs', hp, -⟩
      rw [List.getElem?_map, Option.map_eq_some_iff] at hs'
      obtain ⟨s, hs, rfl⟩ := hs'
      obtain ⟨-, hsten, hsbook⟩ := mem_lockChain.1 (List.mem_of_getElem? hs)
      by_cases hsp : s.status = .pending
      · simp [hsten, hten, hsbook, hid, hsp] at hp
      · simp [hsp] at hp
    · rename_i hxb
      have hsame : ((lockChain st x.tenantId x.id).map fun s =>
          if s.tenantId == tenantId && s.bookingId == bookingId && s.status == .pending then
            { s with status := .rejected, reason := staleNote, decisionAt := some now }
          else s) = lockChain st x.tenantId x.id := by
        conv_rhs => rw [← List.map_id (lockChain st x.tenantId x.id)]
        refine List.map_congr_left fun s hs => if_neg ?_
        have hne : s.bookingId ≠ bookingId := by
          rw [(mem_lockChain.1 hs).2.2, ← hid]
          exact hxb
        simp [hne]
      rw [hsame]
      exact hf

theorem fitting_tick (h : Fitting env st) : Fitting env (AutoReleaseService.tick env now st) := by
  refine tick_ok (P := fun t => Fitting env { st with bookings := t }) h fun t b ht => ?_
  refine ht.rebook rfl (find?_release t b) (fun x _ => ?_) fun x _ hf => ?_
  · split <;> exact ⟨rfl, rfl⟩
  · split
    · rename_i hx
      exact Fits.release (hf.not_open (by rw [hx.2.1]; decide)) rfl
    · exact hf

/-- **One call.** An orderly call leaves the chains fitting. -/
theorem fitting_step {e : Event} (h : Fitting e.env st) (he : InboxCall e) (hC : Orderly st e) :
    Fitting e.env (step st e) := by
  obtain ⟨env, now, op⟩ := e
  cases op with
  | create tenantId userId dto fresh =>
    exact settle_induction (P := Fitting env) h fun r hr =>
      h.create hr (fits_nil env _) fun _ _ hp _ _ hlev => fits_chainRows hp hlev
  | update tenantId userId role id dto =>
    exact settle_induction (P := Fitting env) h fun r hr => fitting_update h hC hr
  | cancel tenantId userId role id reason =>
    exact settle_induction (P := Fitting env) h fun r hr => fitting_cancel h hC hr
  | decide user bookingId input =>
    exact settle_induction (P := Fitting env) h fun r hr =>
      h.decide hr (fun _ _ => fits_nil env _) fun _ _ _ hd hf => fits_decided hd hC hf
  | delegate user bookingId toUserId reason =>
    exact settle_induction (P := Fitting env) h fun r hr => fitting_delegate h hr
  | runDueAutoApprovals => exact fitting_runDue h hC
  | sweepStaleApprovals =>
    exact foldl_invariant (P := Fitting env) (fun _ b _ hst => fitting_autoRejectStale hst b.tenantId b.id) h
  | tick => exact fitting_tick h
  | _ => exact absurd he (by simp [InboxCall])

end Calls

/-! ### The converse -/

section Converse

variable {env : Env} {now : Instant} {st : Store}

theorem mem_saved {t : Table Booking} {tenantId id : Uuid} {b v : Booking} (hb : findBooking t tenantId id = some b)
    (hid : v.id = b.id) : v ∈ (t.save v).rows :=
  Table.mem_save.2 (.inl ⟨rfl, b, Table.mem_of_find? (findBooking_eq_some.1 hb).1, hid.symm⟩)

theorem open_of_rejected {user : AuthUser} {bookingId : Uuid} {input : DecideInput} {i j : ℕ} {step : ApprovalStep}
    (hd : ChainDecision env user bookingId input st i step)
    (hj : Open env (lockChain st user.tenantId bookingId) j) (hne : j ≠ i) :
    Open env ((lockChain st user.tenantId bookingId).map fun s =>
      if s = step then decidedStep now input (some user.id) step else s) j := by
  obtain ⟨s, hs, hp, hdeps⟩ := hj
  have hnodup : (lockChain st user.tenantId bookingId).Nodup := nodup_lockChain ..
  have hrule : ∀ s, (if s = step then decidedStep now input (some user.id) step else s).ruleId = s.ruleId :=
    Table.replace_same (f := ApprovalStep.ruleId) rfl
  refine (open_map hrule).2 ⟨s, hs, ?_, fun d hdd => ?_⟩
  · rw [if_neg, hp]
    rintro rfl
    exact hne ((List.getElem?_inj (List.getElem?_eq_some_iff.1 hs).1 hnodup).1 (hs.trans hd.at_.symm))
  · obtain ⟨x, hx, hxd⟩ := (Option.any_eq_true _ _).1 (List.all_eq_true.1 hdeps d hdd)
    refine ⟨x, hx, ?_⟩
    rw [if_neg]
    · exact hxd
    · rintro rfl
      simp [isDone, hd.pending] at hxd

theorem orderly_update {tenantId userId : Uuid} {role : String} {id : Uuid} {dto : UpdateBookingDto}
    (h' : InboxAgrees env (step st ⟨env, now, .update tenantId userId role id dto⟩)) :
    Orderly st ⟨env, now, .update tenantId userId role id dto⟩ := by
  rintro b r hb hst hch hres hneeds ⟨⟨st', saved⟩, hu⟩
  have hstep : step st ⟨env, now, .update tenantId userId role id dto⟩ = st' := by simp only [step, hu, settle_ok]
  obtain ⟨b', hed, rfl⟩ := update_ok hu
  obtain rfl : b' = b := Option.some.inj (hed.found.symm.trans hb)
  obtain ⟨hfind, hten⟩ := findBooking_eq_some.1 hb
  rw [hstep, inboxAgrees_iff] at h'
  rcases hed.row with ⟨hsame, -⟩ | ⟨slot, hcl, -, he⟩
  · rcases hch with hch | hch
    · rw [hsame.1] at hch
      cases hch
    · exact absurd hsame.2 hch
  · have hr : slot.resource = r := Option.some.inj (hcl.resource.symm.trans hres)
    have hpend : saved.status = .pendingApproval := by
      rw [he.status]
      simp [reschedule, hr, hneeds, hst]
    have hid : saved.id = id := he.id.trans (Table.key_of_find? hfind)
    have htenant : saved.tenantId = tenantId := he.tenantId.trans hten
    have hchain := (h' saved (mem_saved hb he.id)).2 hpend
    rw [hid, htenant] at hchain
    exact hchain

theorem orderly_cancel {tenantId userId : Uuid} {role : String} {id : Uuid} {reason : String}
    (h' : InboxAgrees env (step st ⟨env, now, .cancel tenantId userId role id reason⟩)) :
    Orderly st ⟨env, now, .cancel tenantId userId role id reason⟩ := by
  intro b hb hown hst i hi
  obtain ⟨v, hv, hid, hten, hcan⟩ := @cancel_of_open tenantId userId role id reason st b hb hown hst
  obtain ⟨hfind, hbten⟩ := findBooking_eq_some.1 hb
  have hbid : b.id = id := Table.key_of_find? hfind
  simp only [step, hv, settle_ok, inboxAgrees_iff] at h'
  have hwait := (h' v (mem_saved hb hid)).1 ⟨i, by rw [hid, hten, hbid, hbten]; exact hi⟩
  rw [hcan] at hwait
  cases hwait

theorem orderly_decide {user : AuthUser} {bookingId : Uuid} {input : DecideInput} (h : Fitting env st)
    (h' : InboxAgrees env (step st ⟨env, now, .decide user bookingId input⟩)) :
    Orderly st ⟨env, now, .decide user bookingId input⟩ := by
  intro hin i s hd j hj
  by_contra hne
  simp only [step, hd.decide_ok now, settle_ok, inboxAgrees_iff] at h'
  obtain ⟨hrow, hten, hbook⟩ := hd.mem
  obtain ⟨b, hb, hbten⟩ := h.owned s hrow
  have hbid : b.id = s.bookingId := Table.key_of_find? hb
  have hafter := commitStepDecision_find? now user.tenantId bookingId (lockChain st user.tenantId bookingId) s input
    (some user.id) st s.bookingId
  rw [hb, Option.map_some, if_pos ⟨hbid.trans hbook, hbten.trans hten⟩] at hafter
  have hchain := lockChain_commitStepDecision now user.tenantId bookingId (lockChain st user.tenantId bookingId) s
    input (some user.id) st hrow user.tenantId bookingId
  have hopen := @open_of_rejected env now st user bookingId input i j s hd hj hne
  rw [← hchain] at hopen
  have hst := (h' _ (Table.mem_of_find? hafter)).1 ⟨j, ?_⟩
  · simp [decidedBooking, hin] at hst
  · simp only [decidedBooking, hin]
    rw [hbid, hbten, hbook, hten]
    exact hopen

theorem orderly_runDue (h' : InboxAgrees env (runDueAutoApprovals now st)) :
    Orderly st ⟨env, now, .runDueAutoApprovals⟩ := by
  intro b hb hno i s hs hp hdue hdeps
  have hfind : st.bookings.find? b.id = some b := Table.find?_of_mem hb
  have hclosed : closes (due now) (lockChain st b.tenantId b.id) = false :=
    closes_of_open (List.mem_of_getElem? hs) (by simp [isDone, hp]) hdue
  have hafter : (runDueAutoApprovals now st).bookings.find? b.id = some b := by
    rw [runDueAutoApprovals_find?, hfind, Option.map_some, hclosed]
    rfl
  have hchain := lockChain_map (@runDueAutoApprovals_steps now st) (fun s => by split <;> rfl)
    (fun s => by split <;> rfl) (fun s => by split <;> rfl) b.tenantId b.id
  refine hno ((inboxAgrees_iff.1 h' b (Table.mem_of_find? hafter)).1 ⟨i, ?_⟩)
  rw [hchain]
  refine (open_map fun s => by split <;> rfl).2 ⟨s, hs, by rw [hdue]; exact hp, fun d hd => ?_⟩
  obtain ⟨x, hx, hxd⟩ := hdeps d hd
  refine ⟨x, hx, ?_⟩
  split
  · rfl
  · rename_i hxdue
    exact hxd.resolve_right hxdue

theorem orderly_of_agrees {e : Event} (h : Fitting e.env st) (h' : InboxAgrees e.env (step st e)) : Orderly st e := by
  obtain ⟨env, now, op⟩ := e
  cases op with
  | update tenantId userId role id dto => exact orderly_update h'
  | cancel tenantId userId role id reason => exact orderly_cancel h'
  | decide user bookingId input => exact orderly_decide h h'
  | runDueAutoApprovals => exact orderly_runDue h'
  | _ => trivial

end Converse

/-! ### Every run -/

/-- **The inbox agrees with the decision.** In every state of a run from the empty store, with the rules unchanged,
each booking in the inbox of a user waits for approval and the user's approval of it is accepted, if and only if all
calls of the run are orderly. -/
theorem inbox_agrees_iff {env : Env} {es : List Event} (hes : ∀ e ∈ es, InboxCall e ∧ e.env.rules = env.rules) :
    AllSteps step Orderly Store.empty es ↔ ∀ p q, es = p ++ q → InboxAgrees env (run Store.empty p) := by
  refine allSteps_iff_forall_prefix (I := Fitting env) (P := InboxAgrees env)
    (D := fun e => InboxCall e ∧ e.env.rules = env.rules) (fun _ => inboxAgrees_of_fitting) ?_ ?_ (chained_empty _) hes
  · rintro st e hst ⟨hcall, hrules⟩ hC
    exact fitting_congr hrules.symm (fitting_step (fitting_congr hrules hst) hcall hC)
  · rintro st e hst ⟨-, hrules⟩ hagree
    exact orderly_of_agrees (fitting_congr hrules hst) (InboxAgrees.congr hrules hagree)

/-- A request that `ann` has to approve. -/
theorem inbox_agrees_iff_request :
    (listPendingForApprover approvalOffice ⟨"ann", "t", "Officer", none⟩
      (run Store.empty [⟨approvalOffice, 0, requestRoom⟩])).map (·.booking.id) = ["b"] ∧
    ∀ p q, [(⟨approvalOffice, 0, requestRoom⟩ : Event)] = p ++ q → InboxAgrees approvalOffice (run Store.empty p) := by
  refine ⟨by decide, (inbox_agrees_iff ?_).1 ⟨trivial, trivial⟩⟩
  simp [InboxCall, requestRoom]

/-- A request is cancelled by its owner: it stays in the inbox of `ann`. -/
theorem inbox_lists_cancelled :
    ¬ ∀ (env : Env) (es : List Event), (∀ e ∈ es, InboxCall e ∧ e.env.rules = env.rules) →
      InboxAgrees env (run Store.empty es) := by
  intro h
  have hagree := h approvalOffice
    [⟨approvalOffice, 0, requestRoom⟩, ⟨approvalOffice, 1, .cancel "t" "u" "Officer" "b" "no longer needed"⟩]
    (by simp [InboxCall, requestRoom]) 2 ⟨"ann", "t", "Officer", none⟩
  have hlisted : (listPendingForApprover approvalOffice ⟨"ann", "t", "Officer", none⟩
      (run Store.empty [⟨approvalOffice, 0, requestRoom⟩,
        ⟨approvalOffice, 1, .cancel "t" "u" "Officer" "b" "no longer needed"⟩])).map (·.booking.status) =
      [.cancelled] := by decide
  obtain ⟨entry, hentry, hst⟩ : ∃ entry ∈ listPendingForApprover approvalOffice ⟨"ann", "t", "Officer", none⟩
      (run Store.empty [⟨approvalOffice, 0, requestRoom⟩,
        ⟨approvalOffice, 1, .cancel "t" "u" "Officer" "b" "no longer needed"⟩]), entry.booking.status = .cancelled := by
    rw [← List.mem_map, hlisted]
    simp
  have := (hagree entry hentry).1
  rw [hst] at this
  cases this

end BookingSystem.Runs
