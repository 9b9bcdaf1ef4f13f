import BookingSystem.Effects.Chains
import BookingSystem.Model.System

/-!
# The rule of the room

A chain is written once, from the rule that matches the room of the booking at that time. An edit that moves the
booking leaves the chain as it is. So a chain that is completed is one of the rule of the booking's room as long as
edits move bookings that wait for a step only between rooms of the same rule (`confirmed_by_room_rule`).
-/

namespace BookingSystem.Runs

open Base Model Model.BookingsService
open Model.ApprovalsService Effects

/-- The calls that write chains, move bookings and decide. -/
def RoomCall (e : Event) : Prop :=
  match e.op with
  | .create .. | .update .. | .updateSeries .. | .decide .. => True
  | _ => False

/-- The chain is one of the rule that matches the room the booking is in: the same rule and the same number of
levels. -/
def OfRoom (env : Env) (b : Booking) (chain : List ApprovalStep) : Prop :=
  ∃ r rule, env.resource b.tenantId b.resourceId = some r ∧ matchRule env b.tenantId r = some rule ∧
    chain.length = rule.levels.length ∧ ∀ s ∈ chain, s.ruleId = some rule.id

/-- The room the edit names has the same rule as the room of the booking, or no step of the booking's chain is
pending. -/
def SameRule (env : Env) (st : Store) (dto : UpdateBookingDto) (b : Booking) : Prop :=
  HasPending (lockChain st b.tenantId b.id) → ∀ r r', env.resource b.tenantId b.resourceId = some r →
    dto.resourceId = some r'.id → env.resource b.tenantId r'.id = some r' →
    matchRule env b.tenantId r' = matchRule env b.tenantId r

/-- An edit moves bookings that wait for a step only between rooms of the same rule. -/
def KeepsRoomRule (st : Store) (e : Event) : Prop :=
  match e.op with
  | .update tenantId _ _ id dto => ∀ b, findBooking st.bookings tenantId id = some b → SameRule e.env st dto b
  | .updateSeries tenantId _ _ id dto => ∀ b, InSeries st.bookings tenantId id b → SameRule e.env st dto b
  | _ => True

/-- The decision completes a chain, and the booking is confirmed. -/
def Completes (st : Store) (e : Event) (user : AuthUser) (bookingId : Uuid) : Prop :=
  ∃ input i step, e.op = .decide user bookingId input ∧ ChainDecision e.env user bookingId input st i step ∧
    (commitStepDecision e.now user.tenantId bookingId (lockChain st user.tenantId bookingId) step input (some user.id)
      st).2.confirmed = true

/-! ### One call -/

/-- A chain with a pending step is one of the rule of the room. -/
def RuleOfRoom (env : Env) (b : Booking) (chain : List ApprovalStep) : Prop := HasPending chain → OfRoom env b chain

section Calls

variable {env : Env} {now : Instant} {st st' : Store}

theorem ruleOfRoom_nil (env : Env) (b : Booking) : RuleOfRoom env b [] := by
  rintro ⟨s, hs, -⟩
  cases hs

theorem ruleOfRoom_chainRows {newId : ℕ → Uuid} {row : Booking} {res : Resource} {rule : ApprovalRule}
    (hres : env.resource row.tenantId row.resourceId = some res) (hrule : matchRule env row.tenantId res = some rule) :
    RuleOfRoom env row (chainRows env now newId row res rule) := by
  intro _
  refine ⟨res, rule, hres, hrule, ?_, fun s hs => (mem_chainRows hs).2.2.1⟩
  simp [chainRows]

theorem ruleOfRoom_moved {tenantId userId : Uuid} {role : String} {dto : UpdateBookingDto} {covers : Booking → Prop}
    {b b' : Booking} (hcov : covers b → SameRule env st dto b)
    (hmoved : MovedBy env tenantId userId role dto covers b b')
    (h : RuleOfRoom env b (lockChain st b.tenantId b.id)) : RuleOfRoom env b' (lockChain st b.tenantId b.id) := by
  intro hpend
  obtain ⟨r, rule, hr, hrule, hlen, hids⟩ := h hpend
  obtain ⟨hten, -, hroom⟩ := hmoved
  unfold OfRoom
  rw [hten]
  rcases hroom with hsame | ⟨hc, rfl, -, r', hname, hr', hrid⟩
  · rw [hsame]
    exact ⟨r, rule, hr, hrule, hlen, hids⟩
  · rw [hrid]
    exact ⟨r', rule, hr', (hcov hc hpend r r' hr hname hr').trans hrule, hlen, hids⟩

theorem chained_of_moves {tenantId userId : Uuid} {role : String} {dto : UpdateBookingDto} {covers : Booking → Prop}
    (h : Chained (RuleOfRoom env) st) (hmoves : Moves env tenantId userId role dto covers st.bookings st'.bookings)
    (hsteps : st'.steps = st.steps) (hcov : ∀ b, covers b → SameRule env st dto b) :
    Chained (RuleOfRoom env) st' :=
  h.evolves hsteps hmoves.evolves hmoves.closed (fun _ _ hR => hR.1) fun b _ _ hR hQ => ruleOfRoom_moved (hcov b) hR hQ

theorem decidedStep_not_pending (now : Instant) (input : DecideInput) (actorId : Option Uuid) (step : ApprovalStep) :
    (decidedStep now input actorId step).status ≠ .pending := by
  show input.status.stepStatus ≠ .pending
  cases input.status <;> simp [ApprovalDecision.stepStatus]

theorem ruleOfRoom_decided {user : AuthUser} {input : DecideInput} {steps chain : List ApprovalStep}
    {step : ApprovalStep} {b : Booking} (h : RuleOfRoom env b chain) :
    RuleOfRoom env (decidedBooking steps step input b)
      (chain.map fun s => if s = step then decidedStep now input (some user.id) step else s) := by
  rintro ⟨x, hx, hp⟩
  obtain ⟨s, hs, rfl⟩ := List.mem_map.1 hx
  have hne : s ≠ step := by
    rintro rfl
    rw [if_pos rfl] at hp
    exact decidedStep_not_pending _ _ _ _ hp
  rw [if_neg hne] at hp
  obtain ⟨r, rule, hr, hrule, hlen, hids⟩ := h ⟨s, hs, hp⟩
  obtain ⟨-, hten, hroom⟩ := decidedBooking_same steps step input b
  unfold OfRoom
  rw [hten, hroom]
  refine ⟨r, rule, hr, hrule, by rw [List.length_map, hlen], fun y hy => ?_⟩
  obtain ⟨z, hz, rfl⟩ := List.mem_map.1 hy
  have hrule := @Table.replace_same ApprovalStep _ _ ApprovalStep.ruleId step
    (decidedStep now input (some user.id) step) rfl
  exact (hrule z).trans (hids z hz)

/-- **One call.** A call that keeps the rules of the rooms keeps the chains on them. -/
theorem chained_step {e : Event} (h : Chained (RuleOfRoom e.env) st) (he : RoomCall e) (hC : KeepsRoomRule st e) :
    Chained (RuleOfRoom e.env) (step st e) := by
  obtain ⟨env, now, op⟩ := e
  cases op with
  | create tenantId userId dto fresh =>
    exact settle_induction (P := Chained (RuleOfRoom env)) h fun r hr =>
      h.create hr (ruleOfRoom_nil env _) fun _ _ _ hres hrule _ => ruleOfRoom_chainRows hres hrule
  | update tenantId userId role id dto =>
    exact settle_induction (P := Chained (RuleOfRoom env)) h fun r hr =>
      chained_of_moves h (update_moves hr).1 (update_moves hr).2 hC
  | updateSeries tenantId userId role id dto =>
    exact settle_induction (P := Chained (RuleOfRoom env)) h fun r hr =>
      chained_of_moves h (updateSeries_moves hr).1 (updateSeries_moves hr).2 hC
  | decide user bookingId input =>
    exact settle_induction (P := Chained (RuleOfRoom env)) h fun r hr =>
      h.decide hr (fun _ _ => ruleOfRoom_nil env _) fun _ _ _ _ hQ => ruleOfRoom_decided hQ
  | _ => exact absurd he (by simp [RoomCall])

end Calls

/-! ### Every run -/

theorem chained_congr {env env' : Env} (hres : env'.resources = env.resources) (hrules : env'.rules = env.rules)
    {st : Store} (h : Chained (RuleOfRoom env) st) : Chained (RuleOfRoom env') st := by
  refine h.mono fun b chain hQ hpend => ?_
  obtain ⟨r, rule, hr, hrule, hlen, hids⟩ := hQ hpend
  refine ⟨r, rule, ?_, ?_, hlen, hids⟩
  · rw [← hr, Env.resource, Env.resource, hres]
  · rw [← hrule, matchRule, matchRule, hrules]

/-- **Approval follows the room.** With rules and resources fixed, in a run from the empty store whose edits move
bookings that wait for a step only between rooms of the same rule, every chain whose completion confirms a booking is
one of the rule that matches the room of the booking. -/
theorem confirmed_by_room_rule {env : Env} {es : List Event}
    (hes : ∀ e ∈ es, RoomCall e ∧ e.env.resources = env.resources ∧ e.env.rules = env.rules)
    (hC : AllSteps step KeepsRoomRule Store.empty es) :
    ∀ p e r, es = p ++ e :: r → ∀ user bookingId b, Completes (run Store.empty p) e user bookingId →
      findBooking (run Store.empty p).bookings user.tenantId bookingId = some b →
      OfRoom env b (lockChain (run Store.empty p) user.tenantId bookingId) := by
  rintro p e r rfl user bookingId b ⟨input, i, s, -, hd, -⟩ hb
  have hp : Chained (RuleOfRoom env) (run Store.empty p) := by
    refine run_invariant (I := Chained (RuleOfRoom env))
      (C := fun st e => KeepsRoomRule st e ∧ RoomCall e ∧ e.env.resources = env.resources ∧ e.env.rules = env.rules)
      ?_ (chained_empty _) ?_
    · rintro st e h ⟨hkeep, hcall, hres, hrules⟩
      exact chained_congr hres.symm hrules.symm (chained_step (chained_congr hres hrules h) hcall hkeep)
    · rw [allSteps_iff] at hC ⊢
      rintro p' e' r' rfl
      exact ⟨hC p' e' (r' ++ e :: r) (by simp), hes e' (by simp)⟩
  obtain ⟨hfind, hten⟩ := findBooking_eq_some.1 hb
  have hid : b.id = bookingId := Table.key_of_find? hfind
  have := hp.holds b (Table.mem_of_find? hfind)
  rw [hid, hten] at this
  exact this ⟨s, List.mem_of_getElem? hd.at_, hd.pending⟩

/-! ### Two rooms -/

def twoRooms (rules : Table ApprovalRule) : Env :=
  office ⟨[{ id := "r", tenantId := "t", requiresApproval := true },
    { id := "hall", tenantId := "t", requiresApproval := true }], by decide⟩ .empty rules

def oneRule : Env :=
  twoRooms (.single { id := "rule", tenantId := "t", scopeType := .tenant,
                      levels := [{ name := "lead", approverUserIds := ["ann"] }] })

def ruleForEach : Env :=
  twoRooms ⟨[{ id := "rule", tenantId := "t", scopeType := .resource, scopeValue := "r",
               levels := [{ name := "lead", approverUserIds := ["ann"] }] },
             { id := "other", tenantId := "t", scopeType := .resource, scopeValue := "hall",
               levels := [{ name := "lead", approverUserIds := ["bob"] }] }], by decide⟩

def requestAndMove (env : Env) : List Event :=
  [⟨env, 0, requestRoom⟩, ⟨env, 1, .update "t" "u" "Officer" "b" { resourceId := some "hall" }⟩]

def annApproves (env : Env) : Event := ⟨env, 2, .decide ⟨"ann", "t", "Officer", none⟩ "b" ⟨.approved, none⟩⟩

theorem completes_ann {env : Env} (henv : env = oneRule ∨ env = ruleForEach) :
    Completes (run Store.empty (requestAndMove env)) (annApproves env) ⟨"ann", "t", "Officer", none⟩ "b" := by
  rcases henv with rfl | rfl
  · exact ⟨⟨.approved, none⟩, 0, _, rfl, ⟨.inl rfl, by decide, rfl, rfl, by decide, by decide⟩, by decide⟩
  · exact ⟨⟨.approved, none⟩, 0, _, rfl, ⟨.inl rfl, by decide, rfl, rfl, by decide, by decide⟩, by decide⟩

/-- The rooms have the same rule. -/
theorem confirmed_by_room_rule_oneRule : ∃ b,
    findBooking (run Store.empty (requestAndMove oneRule)).bookings "t" "b" = some b ∧
    OfRoom oneRule b (lockChain (run Store.empty (requestAndMove oneRule)) "t" "b") := by
  refine ⟨_, rfl, @confirmed_by_room_rule oneRule (requestAndMove oneRule ++ [annApproves oneRule]) ?_ ?_
    (requestAndMove oneRule) (annApproves oneRule) [] rfl ⟨"ann", "t", "Officer", none⟩ "b" _
    (completes_ann (.inl rfl)) rfl⟩
  · simp [requestAndMove, annApproves, RoomCall, requestRoom]
  · refine ⟨trivial, fun b hb _ r r' hr hname hr' => ?_, trivial, trivial⟩
    have hsame : ∀ b ∈ findBooking (run Store.empty [⟨oneRule, 0, requestRoom⟩]).bookings "t" "b",
        ∀ r ∈ oneRule.resource b.tenantId b.resourceId, ∀ r' ∈ oneRule.resource b.tenantId "hall",
        matchRule oneRule b.tenantId r' = matchRule oneRule b.tenantId r := by decide
    rw [← Option.some.inj hname] at hr'
    exact hsame b hb r hr r' hr'

/-- The booking is moved from the room of `ann` to the room of `bob`, and `ann`'s approval confirms it there. -/
theorem confirmed_by_other_rule :
    ¬ ∀ (env : Env) (es : List Event),
      (∀ e ∈ es, RoomCall e ∧ e.env.resources = env.resources ∧ e.env.rules = env.rules) →
      ∀ p e r, es = p ++ e :: r → ∀ user bookingId b, Completes (run Store.empty p) e user bookingId →
        findBooking (run Store.empty p).bookings user.tenantId bookingId = some b →
        OfRoom env b (lockChain (run Store.empty p) user.tenantId bookingId) := by
  intro h
  obtain ⟨r, rule, hr, hrule, -, hids⟩ := h ruleForEach (requestAndMove ruleForEach ++ [annApproves ruleForEach])
    (by simp [requestAndMove, annApproves, RoomCall, requestRoom]) (requestAndMove ruleForEach)
    (annApproves ruleForEach) [] rfl ⟨"ann", "t", "Officer", none⟩ "b" _ (completes_ann (.inr rfl)) rfl
  have hother : ∀ b ∈ findBooking (run Store.empty (requestAndMove ruleForEach)).bookings "t" "b",
      ∀ r ∈ ruleForEach.resource b.tenantId b.resourceId, ∀ rule ∈ matchRule ruleForEach b.tenantId r,
      ∃ s ∈ lockChain (run Store.empty (requestAndMove ruleForEach)) "t" "b", s.ruleId ≠ some rule.id := by decide
  obtain ⟨s, hs, hne⟩ := hother _ rfl r hr rule hrule
  exact hne (hids s hs)

end BookingSystem.Runs
