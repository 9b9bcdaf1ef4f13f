import BookingSystem.Effects.Chains

/-!
# What the approver's inbox lists

The inbox lists the bookings with a step for the user, and the pending ones without a pending step that the user may
decide in one go. It agrees with `decide` in a store exactly when every open step belongs to a booking that waits, and
every booking that waits has no chain, or a pending step (`inboxAgrees_iff`).
-/

namespace BookingSystem.Effects

open Base Model Model.ApprovalsService

/-- Every booking in an inbox waits for approval, and the user's approval of it is accepted. -/
def InboxAgrees (env : Env) (st : Store) : Prop :=
  ∀ now user, ∀ entry ∈ listPendingForApprover env user st, entry.booking.status = .pendingApproval ∧
    ∃ r, ApprovalsService.decide env now user entry.booking.id ⟨.approved, none⟩ st = .ok r

/-- The `i`-th step of the chain is pending, and the steps it waits for are done. -/
def Open (env : Env) (chain : List ApprovalStep) (i : ℕ) : Prop :=
  ∃ s, chain[i]? = some s ∧ s.status = .pending ∧ depsDone chain (chainRule env chain) i = true

theorem mem_withPendingStep {st : Store} {tenantId id : Uuid} :
    id ∈ withPendingStep st tenantId ↔ HasPending (lockChain st tenantId id) := by
  unfold withPendingStep HasPending
  rw [List.mem_eraseDups, List.mem_map]
  simp only [List.mem_filter, Bool.and_eq_true, beq_iff_eq, mem_lockChain]
  constructor
  · rintro ⟨s, ⟨hs, hten, hp⟩, hb⟩
    exact ⟨s, ⟨hs, hten, hb⟩, hp⟩
  · rintro ⟨s, ⟨hs, hten, hb⟩, hp⟩
    exact ⟨s, ⟨hs, hten, hp⟩, hb⟩

theorem mem_listPendingForApprover {env : Env} {user : AuthUser} {st : Store} {b : Booking} :
    (∃ entry ∈ listPendingForApprover env user st, entry.booking = b) ↔
      b ∈ st.bookings.rows ∧ b.tenantId = user.tenantId ∧
        ((∃ i s, (lockChain st b.tenantId b.id)[i]? = some s ∧ s.status = .pending ∧
            depsDone (lockChain st b.tenantId b.id) (chainRule env (lockChain st b.tenantId b.id)) i = true ∧
            canDecideStep env s user = true) ∨
          (b.status = .pendingApproval ∧ ¬ HasPending (lockChain st b.tenantId b.id) ∧
            canDecideLegacy user b = true)) := by
  have hentry : (∃ entry ∈ listPendingForApprover env user st, entry.booking = b) ↔
      b ∈ st.bookings.rows ∧ b.id ∈ actionableIds env user st ∧ b.tenantId = user.tenantId := by
    unfold listPendingForApprover
    simp only [List.mem_map, (List.perm_insertionSort _ _).mem_iff, List.mem_filter, Bool.and_eq_true, beq_iff_eq,
      List.contains_iff_mem]
    constructor
    · rintro ⟨_, ⟨x, ⟨hx, hid, hten⟩, rfl⟩, rfl⟩
      exact ⟨hx, hid, hten⟩
    · rintro ⟨hb, hid, hten⟩
      exact ⟨_, ⟨b, ⟨hb, hid, hten⟩, rfl⟩, rfl⟩
  rw [hentry]
  refine and_congr_right fun hb => ?_
  rw [and_comm]
  refine and_congr_right fun hten => ?_
  simp only [actionableIds, List.mem_append, List.mem_filter, List.mem_map, mem_withPendingStep,
    firstActionableIndex_isSome, Bool.and_eq_true, beq_iff_eq, Bool.not_eq_true', List.contains_eq_mem,
    decide_eq_false_iff_not, hten]
  refine or_congr ?_ ?_
  · -- a step for the user is a pending one
    refine and_iff_right_of_imp ?_
    rintro ⟨i, s, hs, hp, -⟩
    exact ⟨s, List.mem_of_getElem? hs, hp⟩
  · constructor
    · rintro ⟨x, ⟨hx, ⟨⟨-, hst⟩, hno⟩, hmay⟩, hid⟩
      obtain rfl : x = b := Table.eq_of_key hx hb hid
      exact ⟨hst, hno, hmay⟩
    · rintro ⟨hst, hno, hmay⟩
      exact ⟨b, ⟨hb, ⟨⟨hten, hst⟩, hno⟩, hmay⟩, rfl⟩

theorem gradeAtLeast_last (required : String) : gradeAtLeast (some "DGFS") required = true := by
  have hle : rank required ≤ 80 := by
    unfold rank
    split
    · rename_i i hi
      have hlt : i < grades.length := (List.findIdx?_eq_some_iff_findIdx_eq.1 hi).1
      have : grades.length = 8 := rfl
      omega
    · omega
  have hlast : rank "DGFS" = 80 := by decide
  simp [gradeAtLeast, hlast, hle]

theorem exists_approver (env : Env) (tenantId : Uuid) (s : ApprovalStep) :
    ∃ user : AuthUser, user.tenantId = tenantId ∧ canDecideStep env s user = true := by
  cases hids : s.approverIds with
  | cons a l =>
    refine ⟨⟨a, tenantId, "", some "DGFS"⟩, rfl, ?_⟩
    simp [canDecideStep, hids, gradeAtLeast_last]
  | nil =>
    by_cases hrole : s.approverRole = ""
    · refine ⟨⟨"", tenantId, Roles.systemAdmin, none⟩, rfl, ?_⟩
      simp [canDecideStep, hids, hrole]
    · refine ⟨⟨"", tenantId, s.approverRole, some "DGFS"⟩, rfl, ?_⟩
      simp [canDecideStep, hids, hrole, gradeAtLeast_last]

theorem decide_of_noChain {env : Env} {now : Instant} {user : AuthUser} {st : Store} {b : Booking}
    (hb : b ∈ st.bookings.rows) (hten : b.tenantId = user.tenantId) (hst : b.status = .pendingApproval)
    (hmay : canDecideLegacy user b = true) (hchain : lockChain st user.tenantId b.id = []) :
    ∃ r, ApprovalsService.decide env now user b.id ⟨.approved, none⟩ st = .ok r := by
  have hfind : findBooking st.bookings user.tenantId b.id = some b :=
    findBooking_eq_some.2 ⟨Table.find?_of_mem hb, hten⟩
  simp [ApprovalsService.decide, decideLegacyTx, hchain, hfind, hmay, hst, found, require, bind, Except.bind, pure,
    Except.pure]

/-- **Inbox and decision.** They agree in a store iff every booking with an open step waits for approval, and every
booking that waits has no chain or a pending step. -/
theorem inboxAgrees_iff {env : Env} {st : Store} :
    InboxAgrees env st ↔ ∀ b ∈ st.bookings.rows,
      ((∃ i, Open env (lockChain st b.tenantId b.id) i) → b.status = .pendingApproval) ∧
      (b.status = .pendingApproval → lockChain st b.tenantId b.id = [] ∨
        HasPending (lockChain st b.tenantId b.id)) := by
  constructor
  · intro h b hb
    constructor
    · rintro ⟨i, s, hs, hp, hdeps⟩
      obtain ⟨user, hten, hmay⟩ := exists_approver env b.tenantId s
      obtain ⟨entry, hentry, rfl⟩ := mem_listPendingForApprover.2
        ⟨hb, hten.symm, .inl ⟨i, s, hs, hp, hdeps, hmay⟩⟩
      exact (h 0 user entry hentry).1
    · intro hst
      by_contra hno
      rw [not_or] at hno
      -- an admin finds the booking in the inbox, but there is nothing to decide
      have hmay : canDecideLegacy ⟨"", b.tenantId, Roles.systemAdmin, none⟩ b = true := by
        simp [canDecideLegacy, isAdmin, adminRoles]
      obtain ⟨entry, hentry, rfl⟩ := (@mem_listPendingForApprover env
        ⟨"", b.tenantId, Roles.systemAdmin, none⟩ st b).2 ⟨hb, rfl, .inr ⟨hst, hno.2, hmay⟩⟩
      obtain ⟨-, ⟨st', r⟩, hr⟩ := h 0 _ entry hentry
      rcases decide_ok hr with ⟨_, hleg, -⟩ | ⟨i, s, hd, -⟩
      · exact hno.1 hleg.chain
      · exact hno.2 ⟨s, List.mem_of_getElem? hd.at_, hd.pending⟩
  · intro h now user entry hentry
    obtain ⟨hb, hten, hcase⟩ := mem_listPendingForApprover.1 ⟨entry, hentry, rfl⟩
    obtain ⟨hopen, hwait⟩ := h entry.booking hb
    rw [hten] at hopen hwait hcase
    rcases hcase with ⟨i, s, hs, hp, hdeps, hmay⟩ | ⟨hst, hno, hmay⟩
    · refine ⟨hopen ⟨i, s, hs, hp, hdeps⟩, ?_⟩
      obtain ⟨j, hj⟩ := Option.isSome_iff_exists.1 (firstActionableIndex_isSome.2 ⟨i, s, hs, hp, hdeps, hmay⟩)
      obtain ⟨s', hs', hp', hdeps', hmay'⟩ := firstActionableIndex_some hj
      have hd : ChainDecision env user entry.booking.id ⟨.approved, none⟩ st j s' :=
        ⟨.inl rfl, hj, hs', hp', hdeps', hmay'⟩
      exact ⟨_, hd.decide_ok now⟩
    · refine ⟨hst, decide_of_noChain hb hten hst hmay ?_⟩
      exact (hwait hst).resolve_right hno

theorem open_congr {env env' : Env} (h : env'.rules = env.rules) {chain : List ApprovalStep} {i : ℕ} :
    Open env' chain i ↔ Open env chain i := by
  unfold Open chainRule
  rw [h]

theorem InboxAgrees.congr {env env' : Env} (h : env'.rules = env.rules) {st : Store} (hst : InboxAgrees env st) :
    InboxAgrees env' st := by
  rw [inboxAgrees_iff] at hst ⊢
  intro b hb
  refine ⟨?_, (hst b hb).2⟩
  rintro ⟨i, hi⟩
  exact (hst b hb).1 ⟨i, (open_congr h).1 hi⟩

theorem open_map {env : Env} {chain : List ApprovalStep} {f : ApprovalStep → ApprovalStep}
    (hrule : ∀ s, (f s).ruleId = s.ruleId) {i : ℕ} :
    Open env (chain.map f) i ↔ ∃ s, chain[i]? = some s ∧ (f s).status = .pending ∧
      ∀ d ∈ depsOf (chainRule env chain) i, ∃ x, stepAt chain d = some x ∧ isDone (f x) = true := by
  unfold Open
  rw [chainRule_map hrule, List.getElem?_map, depsDone_map]
  cases chain[i]? with
  | none => simp
  | some s => simp

end BookingSystem.Effects
