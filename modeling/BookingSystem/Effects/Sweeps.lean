import BookingSystem.Effects.Approvals
import Mathlib.Data.List.Induction

/-!
# What the two sweeps write

`runDueAutoApprovals` takes the due steps one after another. After any number of them, the steps taken so far are
approved and nothing else about the chains has changed (`autoApproveTurns_steps`); a booking is confirmed when the
steps taken so far close its chain, and only then (`autoApproveTurns_find?`).
-/

namespace BookingSystem.Effects

open Base Model Model.ApprovalsService

abbrev approveStep (now : Instant) (s : ApprovalStep) : ApprovalStep := decidedStep now autoInput none s

def due (now : Instant) (s : ApprovalStep) : Bool := s.status == .pending && s.dueAt.any (· ≤ now)

theorem due_iff {now : Instant} {s : ApprovalStep} :
    due now s = true ↔ s.status = .pending ∧ ∃ d, s.dueAt = some d ∧ d ≤ now := by
  simp [due, Option.any_eq_true]

theorem mem_dueSteps_iff {now : Instant} {st : Store} {s : ApprovalStep} :
    s ∈ dueSteps now st ↔ s ∈ st.steps.rows ∧ due now s = true := by
  rw [mem_dueSteps, due_iff]

theorem nodup_dueSteps (now : Instant) (st : Store) : (dueSteps now st).Nodup := by
  rw [dueSteps, (List.perm_insertionSort _ _).nodup_iff]
  exact (List.Nodup.of_map _ st.steps.nodup).filter _

/-- Approving the steps with `p` closes the chain: there is one, and every other step is done. -/
def closes (p : ApprovalStep → Bool) (chain : List ApprovalStep) : Bool :=
  chain.any p && chain.all fun s => isDone s || p s

theorem closes_iff {p : ApprovalStep → Bool} {chain : List ApprovalStep} :
    closes p chain = true ↔ (∃ s ∈ chain, p s = true) ∧ ∀ s ∈ chain, isDone s = true ∨ p s = true := by
  simp [closes]

theorem closes_congr {p q : ApprovalStep → Bool} {chain : List ApprovalStep} (h : ∀ s ∈ chain, p s = q s) :
    closes p chain = closes q chain := by
  refine Bool.eq_iff_iff.2 ?_
  rw [closes_iff, closes_iff]
  refine and_congr (exists_congr fun s => and_congr_right fun hs => by rw [h s hs]) ?_
  exact forall₂_congr fun s hs => by rw [h s hs]

theorem closes_of_open {p : ApprovalStep → Bool} {chain : List ApprovalStep} {s : ApprovalStep} (h : s ∈ chain)
    (hopen : isDone s = false) (hnew : p s = false) : closes p chain = false := by
  by_contra hc
  have := (closes_iff.1 (by simpa using hc)).2 s h
  simp [hopen, hnew] at this

section Turns

variable {now : Instant} {st : Store} {taken : List ApprovalStep}

theorem autoApproveTurn_of_due {s : ApprovalStep} (hs : s ∈ st.steps.rows) (hdue : due now s = true) :
    autoApproveTurn now st s = recordApprovalAudit now s.tenantId s.bookingId none autoInput
      (commitStepDecision now s.tenantId s.bookingId (lockChain st s.tenantId s.bookingId) s autoInput none st).1 := by
  obtain ⟨hp, d, hd, hle⟩ := due_iff.1 hdue
  unfold autoApproveTurn
  rw [autoApproveStep_of_due hs hp hd hle]

theorem autoApproveTurns_steps (hnodup : taken.Nodup) (htaken : ∀ s ∈ taken, s ∈ st.steps.rows ∧ due now s = true) :
    (taken.foldl (autoApproveTurn now) st).steps.rows =
      st.steps.rows.map fun s => if s ∈ taken then approveStep now s else s := by
  induction taken using List.reverseRecOn with
  | nil => simp
  | append_singleton taken s ih =>
    obtain ⟨hs, hdue⟩ := htaken s (by simp)
    have hnew : s ∉ taken := fun h => (List.nodup_append.1 hnodup).2.2 s h s (by simp) rfl
    have hrows := ih (hnodup.sublist (List.sublist_append_left _ _)) fun s' h => htaken s' (by simp [h])
    have hs' : s ∈ (taken.foldl (autoApproveTurn now) st).steps.rows := by
      rw [hrows]
      exact List.mem_map.2 ⟨s, hs, if_neg hnew⟩
    rw [List.foldl_append, List.foldl_cons, List.foldl_nil, autoApproveTurn_of_due hs' hdue]
    show (commitStepDecision ..).1.steps.rows = _
    rw [commitStepDecision_steps, Table.rows_save, hrows, List.map_map]
    refine List.map_congr_left fun x hx => ?_
    have hid : (decidedStep now autoInput none s).id = s.id := rfl
    simp only [Function.comp_apply, List.mem_append, List.mem_singleton, key_step, hid]
    by_cases hxs : x = s
    · simp [hxs, hnew]
    · have hne : x.id ≠ s.id := fun h => hxs (Table.eq_of_key hx hs h)
      by_cases hxt : x ∈ taken
      · have : (approveStep now x).id = x.id := rfl
        simp [hxt, this, hne]
      · simp [hxt, hxs, hne]

theorem lockChain_autoApproveTurns (hnodup : taken.Nodup) (htaken : ∀ s ∈ taken, s ∈ st.steps.rows ∧ due now s = true)
    (tenantId bookingId : Uuid) :
    lockChain (taken.foldl (autoApproveTurn now) st) tenantId bookingId =
      (lockChain st tenantId bookingId).map fun s => if s ∈ taken then approveStep now s else s :=
  lockChain_map (autoApproveTurns_steps hnodup htaken)
    (fun s => by split <;> rfl) (fun s => by split <;> rfl) (fun s => by split <;> rfl) _ _

theorem allDone_turn {s : ApprovalStep} (hs : s ∈ st.steps.rows) {tenantId bookingId : Uuid}
    (hchain : s ∈ lockChain st tenantId bookingId) :
    allDone ((lockChain st tenantId bookingId).map fun s => if s ∈ taken then approveStep now s else s) s =
      closes ((taken ++ [s]).contains ·) (lockChain st tenantId bookingId) := by
  refine Bool.eq_iff_iff.2 ?_
  rw [closes_iff, and_iff_right ⟨s, hchain, by simp⟩, allDone, List.all_map]
  simp only [List.all_eq_true, Function.comp_apply, Bool.or_eq_true, beq_iff_eq, List.contains_iff_mem,
    List.mem_append, List.mem_singleton]
  refine forall₂_congr fun x hx => ?_
  have hid : x.id = s.id ↔ x = s := ⟨fun h => Table.eq_of_key (mem_lockChain.1 hx).1 hs h, fun h => by rw [h]⟩
  by_cases hxt : x ∈ taken
  · simp [hxt, approveStep, isDone, decidedStep, autoInput, ApprovalDecision.stepStatus]
  · simp only [hxt, if_false, false_or, hid]
    exact or_comm

/-- The turn of one more step: it is still pending when it comes. -/
theorem autoApproveTurns_concat {s : ApprovalStep} (hnodup : (taken ++ [s]).Nodup)
    (htaken : ∀ s' ∈ taken ++ [s], s' ∈ st.steps.rows ∧ due now s' = true) :
    s ∉ taken ∧ taken.Nodup ∧ (∀ s' ∈ taken, s' ∈ st.steps.rows ∧ due now s' = true) ∧
      s ∈ (taken.foldl (autoApproveTurn now) st).steps.rows := by
  have hnew : s ∉ taken := fun h => (List.nodup_append.1 hnodup).2.2 s h s (by simp) rfl
  have hnodup' := hnodup.sublist (List.sublist_append_left taken [s])
  have htaken' : ∀ s' ∈ taken, s' ∈ st.steps.rows ∧ due now s' = true := fun s' h => htaken s' (by simp [h])
  refine ⟨hnew, hnodup', htaken', ?_⟩
  rw [autoApproveTurns_steps hnodup' htaken']
  exact List.mem_map.2 ⟨s, (htaken s (by simp)).1, if_neg hnew⟩

theorem autoApproveTurns_find? (hnodup : taken.Nodup) (htaken : ∀ s ∈ taken, s ∈ st.steps.rows ∧ due now s = true)
    (id : Uuid) :
    (taken.foldl (autoApproveTurn now) st).bookings.find? id = (st.bookings.find? id).map fun b =>
      if closes (taken.contains ·) (lockChain st b.tenantId b.id) then confirmed b else b := by
  induction taken using List.reverseRecOn with
  | nil => simp [closes]
  | append_singleton taken s ih =>
    obtain ⟨hnew, hnodup', htaken', hs'⟩ := autoApproveTurns_concat hnodup htaken
    obtain ⟨hs, hdue⟩ := htaken s (by simp)
    rw [List.foldl_append, List.foldl_cons, List.foldl_nil, autoApproveTurn_of_due hs' hdue]
    show (commitStepDecision ..).1.bookings.find? id = _
    rw [commitStepDecision_find?, ih hnodup' htaken', Option.map_map, lockChain_autoApproveTurns hnodup' htaken']
    congr 1
    funext b
    by_cases hb : b.id = s.bookingId ∧ b.tenantId = s.tenantId
    · -- the booking of the step at hand: its chain was not closed before
      have hchain : s ∈ lockChain st b.tenantId b.id := mem_lockChain.2 ⟨hs, hb.2.symm, hb.1.symm⟩
      have hopen : isDone s = false := by simp [isDone, (due_iff.1 hdue).1]
      have hdone := @allDone_turn now st taken s hs b.tenantId b.id hchain
      simp only [Function.comp_apply, closes_of_open hchain hopen (p := (taken.contains ·)) (by simpa using hnew)]
      simp only [Bool.false_eq_true, if_false, decidedBooking, ← hb.1, ← hb.2, hdone]
      rfl
    · have hsame : closes ((taken ++ [s]).contains ·) (lockChain st b.tenantId b.id) =
          closes (taken.contains ·) (lockChain st b.tenantId b.id) := by
        refine closes_congr fun x hx => ?_
        have hne : x ≠ s := by
          rintro rfl
          exact hb ⟨(mem_lockChain.1 hx).2.2.symm, (mem_lockChain.1 hx).2.1.symm⟩
        simp [hne]
      rw [Function.comp_apply, hsame]
      cases closes (taken.contains ·) (lockChain st b.tenantId b.id) with
      | true => exact if_neg hb
      | false => exact if_neg hb

/-- **The sweep, on the bookings.** A booking is confirmed iff the due steps close its chain. -/
theorem runDueAutoApprovals_find? (id : Uuid) :
    (runDueAutoApprovals now st).bookings.find? id = (st.bookings.find? id).map fun b =>
      if closes (due now) (lockChain st b.tenantId b.id) then confirmed b else b := by
  rw [runDueAutoApprovals, autoApproveTurns_find? (nodup_dueSteps now st) fun s h => mem_dueSteps_iff.1 h]
  congr 1
  funext b
  have : closes ((dueSteps now st).contains ·) (lockChain st b.tenantId b.id) =
      closes (due now) (lockChain st b.tenantId b.id) := by
    refine closes_congr fun x hx => Bool.eq_iff_iff.2 ?_
    rw [List.contains_iff_mem, mem_dueSteps_iff]
    exact and_iff_right (mem_lockChain.1 hx).1
  rw [this]

/-- **The sweep, on the steps.** The due steps are approved. -/
theorem runDueAutoApprovals_steps :
    (runDueAutoApprovals now st).steps.rows =
      st.steps.rows.map fun s => if due now s then approveStep now s else s := by
  rw [runDueAutoApprovals, autoApproveTurns_steps (nodup_dueSteps now st) fun s h => mem_dueSteps_iff.1 h]
  refine List.map_congr_left fun s hs => ?_
  have : s ∈ dueSteps now st ↔ due now s = true := by
    rw [mem_dueSteps_iff]
    exact and_iff_right hs
  by_cases hd : due now s = true
  · rw [if_pos (this.2 hd), if_pos hd]
  · rw [if_neg fun h => hd (this.1 h), if_neg hd]

/-- The audit row of a step that the sweep approves. -/
def autoAudit (now : Instant) (s : ApprovalStep) : Approval :=
  ⟨s.tenantId, s.bookingId, none, autoInput.status, autoInput.reason.getD "", now⟩

theorem autoApproveTurns_approvals (hnodup : taken.Nodup) (htaken : ∀ s ∈ taken, s ∈ st.steps.rows ∧ due now s = true) :
    (taken.foldl (autoApproveTurn now) st).approvals = st.approvals ++ taken.map (autoAudit now) := by
  induction taken using List.reverseRecOn with
  | nil => simp
  | append_singleton taken s ih =>
    obtain ⟨hnew, hnodup', htaken', hs'⟩ := autoApproveTurns_concat hnodup htaken
    obtain ⟨hs, hdue⟩ := htaken s (by simp)
    rw [List.foldl_append, List.foldl_cons, List.foldl_nil, autoApproveTurn_of_due hs' hdue, recordApprovalAudit]
    dsimp only
    rw [commitStepDecision_approvals, ih hnodup' htaken', List.map_append, List.append_assoc]
    rfl

end Turns

/-! ### The stale sweep -/

theorem mem_staleBookings {now : Instant} {st : Store} {b : Booking} (h : b ∈ staleBookings now st) :
    b ∈ st.bookings.rows ∧ b.status = .pendingApproval ∧ b.startTime < now := by
  have hmem := List.mem_of_mem_take h
  rw [(List.perm_insertionSort _ _).mem_iff, List.mem_filter] at hmem
  simpa using hmem

theorem nodup_staleBookings (now : Instant) (st : Store) : (staleBookings now st).Nodup := by
  have hsub : (staleBookings now st).Sublist _ := List.take_sublist _ _
  refine List.Nodup.sublist hsub ?_
  rw [(List.perm_insertionSort _ _).nodup_iff]
  exact (List.Nodup.of_map _ st.bookings.nodup).filter _

theorem autoRejectStale_cases (now : Instant) (tenantId bookingId : Uuid) (st : Store) :
    autoRejectStale now tenantId bookingId st = st ∨
      ∃ b, findBooking st.bookings tenantId bookingId = some b ∧ b.status = .pendingApproval ∧
        (autoRejectStale now tenantId bookingId st).bookings =
          st.bookings.save { b with status := .cancelled, exceptionNotes := staleNote } ∧
        (autoRejectStale now tenantId bookingId st).steps.rows = st.steps.rows.map fun s =>
          if s.tenantId == tenantId && s.bookingId == bookingId && s.status == .pending then
            { s with status := .rejected, reason := staleNote, decisionAt := some now }
          else s := by
  unfold autoRejectStale
  split
  · rename_i b hb
    split
    · rename_i hst
      exact .inr ⟨b, hb, by simpa using hst, rfl, rfl⟩
    · exact .inl rfl
  · exact .inl rfl

def staleRejected (b : Booking) : Booking := { b with status := .cancelled, exceptionNotes := staleNote }

theorem autoRejectStale_find? (now : Instant) (tenantId bookingId : Uuid) (st : Store) (id : Uuid) :
    (autoRejectStale now tenantId bookingId st).bookings.find? id = (st.bookings.find? id).map fun b =>
      if b.status = .pendingApproval ∧ bookingId = b.id ∧ tenantId = b.tenantId then staleRejected b else b := by
  have hsame : ∀ {b : Booking}, findBooking st.bookings tenantId bookingId = some b →
      ∀ {r : Booking}, st.bookings.find? id = some r → bookingId = r.id → r = b := by
    intro b hb r hr heq
    have hid : r.id = id := Table.key_of_find? hr
    rw [heq, hid] at hb
    exact Option.some.inj (hr.symm.trans (findBooking_eq_some.1 hb).1)
  cases hfind : st.bookings.find? id with
  | none =>
    unfold autoRejectStale
    split
    · split_ifs
      · rw [Table.find?_save_map, hfind]
        rfl
      · exact hfind
    · exact hfind
  | some r =>
    have hid : r.id = id := Table.key_of_find? hfind
    rw [Option.map_some]
    by_cases hr : bookingId = r.id ∧ tenantId = r.tenantId
    · have hb : findBooking st.bookings tenantId bookingId = some r :=
        findBooking_eq_some.2 ⟨by rw [hr.1, hid, hfind], hr.2.symm⟩
      unfold autoRejectStale
      rw [hb]
      dsimp only
      by_cases hst : r.status = .pendingApproval
      · rw [if_pos (beq_iff_eq.2 hst), if_pos ⟨hst, hr⟩, Table.find?_save_map, hfind]
        exact congrArg some (if_pos rfl)
      · rw [if_neg (mt beq_iff_eq.1 hst), if_neg fun h => hst h.1]
        exact hfind
    · rw [if_neg fun h => hr h.2]
      rcases autoRejectStale_cases now tenantId bookingId st with h | ⟨b, hb, -, hbk, -⟩
      · rw [h, hfind]
      · have hne : r.id ≠ b.id := fun heq => by
          have hbid : b.id = bookingId := Table.key_of_find? (findBooking_eq_some.1 hb).1
          have hrb := hsame hb hfind (heq.trans hbid).symm
          exact hr ⟨(heq.trans hbid).symm, by rw [hrb, (findBooking_eq_some.1 hb).2]⟩
        rw [hbk, Table.find?_save_map, hfind, Option.map_some]
        exact congrArg some (if_neg hne)

def staleClosed (now : Instant) (s : ApprovalStep) : ApprovalStep :=
  { s with status := .rejected, reason := staleNote, decisionAt := some now }

/-- The steps that the sweep closes with the booking. -/
def closedWith (b : Booking) (s : ApprovalStep) : Prop :=
  s.status = .pending ∧ b.tenantId = s.tenantId ∧ b.id = s.bookingId

instance (b : Booking) : DecidablePred (closedWith b) := fun _ => inferInstanceAs (Decidable (_ ∧ _))

theorem autoRejectStale_steps {now : Instant} {st : Store} {b : Booking} (hb : b ∈ st.bookings.rows)
    (hst : b.status = .pendingApproval) :
    (autoRejectStale now b.tenantId b.id st).steps.rows =
      st.steps.rows.map fun s => if closedWith b s then staleClosed now s else s := by
  have hfind : findBooking st.bookings b.tenantId b.id = some b :=
    findBooking_eq_some.2 ⟨Table.find?_of_mem hb, rfl⟩
  unfold autoRejectStale
  rw [hfind]
  dsimp only
  rw [if_pos (beq_iff_eq.2 hst)]
  refine List.map_congr_left fun s _ => if_congr ?_ rfl rfl
  simp only [closedWith, Bool.and_eq_true, beq_iff_eq]
  constructor
  · rintro ⟨⟨hten, hid⟩, hp⟩
    exact ⟨hp, hten.symm, hid.symm⟩
  · rintro ⟨hp, hten, hid⟩
    exact ⟨⟨hten.symm, hid.symm⟩, hp⟩

/-- **The stale sweep, on the steps.** The pending steps of the bookings that it takes are closed. -/
theorem staleTurns_steps (now : Instant) {taken : List Booking} (hnodup : taken.Nodup) {st : Store}
    (htaken : ∀ b ∈ taken, b ∈ st.bookings.rows ∧ b.status = .pendingApproval) :
    (taken.foldl (fun st b => autoRejectStale now b.tenantId b.id st) st).steps.rows =
      st.steps.rows.map fun s => if ∃ b ∈ taken, closedWith b s then staleClosed now s else s := by
  induction taken generalizing st with
  | nil => simp
  | cons x taken ih =>
    obtain ⟨hx, hst⟩ := htaken x List.mem_cons_self
    obtain ⟨hnew, hnodup⟩ := List.nodup_cons.1 hnodup
    have hrest : ∀ b ∈ taken, b ∈ (autoRejectStale now x.tenantId x.id st).bookings.rows ∧
        b.status = .pendingApproval := by
      intro b hb
      obtain ⟨hrow, hpending⟩ := htaken b (List.mem_cons_of_mem _ hb)
      have hne : x.id ≠ b.id := fun heq => hnew (Table.eq_of_key hrow hx heq.symm ▸ hb)
      have hold : st.bookings.find? b.id = some b := Table.find?_of_mem hrow
      have hfind : (autoRejectStale now x.tenantId x.id st).bookings.find? b.id = some b := by
        rw [autoRejectStale_find?, hold, Option.map_some, if_neg fun h => hne h.2.1]
      exact ⟨Table.mem_of_find? hfind, hpending⟩
    rw [List.foldl_cons, ih hnodup hrest, autoRejectStale_steps hx hst, List.map_map]
    refine List.map_congr_left fun s _ => ?_
    rw [Function.comp_apply]
    by_cases hclosed : closedWith x s
    · -- a step that is closed is not pending any more
      have hdone : ∀ b ∈ taken, ¬ closedWith b (staleClosed now s) := fun b _ h => nomatch h.1
      rw [if_pos hclosed, if_neg (by simpa using hdone), if_pos ⟨x, List.mem_cons_self, hclosed⟩]
    · rw [if_neg hclosed]
      refine if_congr ?_ rfl rfl
      rw [List.exists_mem_cons_iff, or_iff_right hclosed]

theorem autoRejectStale_approvals (now : Instant) (tenantId bookingId : Uuid) (st : Store) :
    (autoRejectStale now tenantId bookingId st).approvals = st.approvals := by
  unfold autoRejectStale
  split
  · split_ifs <;> rfl
  · rfl

/-- **The stale sweep, on the bookings.** Of the bookings that it takes, those that are pending are rejected. -/
theorem staleTurns_find? (now : Instant) (taken : List Booking) (st : Store) (id : Uuid) :
    (taken.foldl (fun st b => autoRejectStale now b.tenantId b.id st) st).bookings.find? id =
      (st.bookings.find? id).map fun b =>
        if b.status = .pendingApproval ∧ ∃ x ∈ taken, x.id = b.id ∧ x.tenantId = b.tenantId then staleRejected b
        else b := by
  induction taken generalizing st with
  | nil => simp
  | cons x taken ih =>
    rw [List.foldl_cons, ih, autoRejectStale_find?, Option.map_map]
    congr 1
    funext b
    by_cases hx : b.status = .pendingApproval ∧ x.id = b.id ∧ x.tenantId = b.tenantId
    · have hdone : (staleRejected b).status ≠ .pendingApproval := fun h => by cases h
      rw [Function.comp_apply, if_pos hx, if_neg fun h => hdone h.1, if_pos ⟨hx.1, x, List.mem_cons_self, hx.2⟩]
    · rw [Function.comp_apply, if_neg hx]
      refine if_congr (and_congr_right fun hst => ?_) rfl rfl
      rw [List.exists_mem_cons_iff, or_iff_right fun h => hx ⟨hst, h⟩]

end BookingSystem.Effects
