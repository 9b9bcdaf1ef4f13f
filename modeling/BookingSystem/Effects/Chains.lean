import BookingSystem.Effects.Bookings
import BookingSystem.Effects.Approvals

/-!
# Bookings and their chains

Invariants that relate every booking to its chain. `Chained Q` says that every chain is that of a booking, and that
`Q` holds of each booking and its chain; the lemmas say what `Q` has to satisfy for a write to keep it.
-/

namespace BookingSystem.Effects

open Base Model Model.BookingsService
open Model.ApprovalsService

/-- The chain has a pending step. -/
def HasPending (chain : List ApprovalStep) : Prop := ∃ s ∈ chain, s.status = .pending

/-- Every chain is that of a booking, and `Q` holds of the booking and its chain. -/
structure Chained (Q : Booking → List ApprovalStep → Prop) (st : Store) : Prop where
  owned : ∀ s ∈ st.steps.rows, ∃ b, st.bookings.find? s.bookingId = some b ∧ b.tenantId = s.tenantId
  holds : ∀ b ∈ st.bookings.rows, Q b (lockChain st b.tenantId b.id)

theorem chained_empty (Q : Booking → List ApprovalStep → Prop) : Chained Q Store.empty := by
  constructor
  · intro s hs
    cases hs
  · intro b hb
    cases hb

theorem Chained.mono {Q Q' : Booking → List ApprovalStep → Prop} (hQ : ∀ b chain, Q b chain → Q' b chain) {st : Store}
    (h : Chained Q st) : Chained Q' st :=
  ⟨h.owned, fun b hb => hQ _ _ (h.holds b hb)⟩

section Writes

variable {Q : Booking → List ApprovalStep → Prop} {st st' : Store}

theorem Chained.rewrite {f : ApprovalStep → ApprovalStep} {g : Booking → Booking} (h : Chained Q st)
    (hrows : st'.steps.rows = st.steps.rows.map f) (hften : ∀ s, (f s).tenantId = s.tenantId)
    (hfbook : ∀ s, (f s).bookingId = s.bookingId) (hfidx : ∀ s, (f s).stepIndex = s.stepIndex)
    (hbook : ∀ id, st'.bookings.find? id = (st.bookings.find? id).map g)
    (hg : ∀ b ∈ st.bookings.rows, (g b).id = b.id ∧ (g b).tenantId = b.tenantId)
    (hfit : ∀ b ∈ st.bookings.rows, Q b (lockChain st b.tenantId b.id) →
      Q (g b) ((lockChain st b.tenantId b.id).map f)) : Chained Q st' := by
  constructor
  · intro s' hs'
    rw [hrows, List.mem_map] at hs'
    obtain ⟨s, hs, rfl⟩ := hs'
    obtain ⟨b, hb, hten⟩ := h.owned s hs
    refine ⟨g b, ?_, ?_⟩
    · rw [hfbook, hbook, hb, Option.map_some]
    · rw [hften, (hg b (Table.mem_of_find? hb)).2, hten]
  · intro b' hb'
    have hfind : st'.bookings.find? b'.id = some b' := Table.find?_of_mem hb'
    rw [hbook, Option.map_eq_some_iff] at hfind
    obtain ⟨b, hb, rfl⟩ := hfind
    have hmem := Table.mem_of_find? hb
    rw [(hg b hmem).1, (hg b hmem).2, lockChain_map hrows hften hfbook hfidx]
    exact hfit b hmem (h.holds b hmem)

theorem Chained.rebook {g : Booking → Booking} (h : Chained Q st) (hsteps : st'.steps = st.steps)
    (hbook : ∀ id, st'.bookings.find? id = (st.bookings.find? id).map g)
    (hg : ∀ b ∈ st.bookings.rows, (g b).id = b.id ∧ (g b).tenantId = b.tenantId)
    (hfit : ∀ b ∈ st.bookings.rows, Q b (lockChain st b.tenantId b.id) →
      Q (g b) (lockChain st b.tenantId b.id)) : Chained Q st' := by
  refine h.rewrite (f := id) (by rw [hsteps, List.map_id]) (fun _ => rfl) (fun _ => rfl) (fun _ => rfl) hbook hg ?_
  intro b hb hfits
  rw [List.map_id]
  exact hfit b hb hfits

theorem Chained.save {b v : Booking} {tenantId id : Uuid} (h : Chained Q st) (hsteps : st'.steps = st.steps)
    (hst' : st'.bookings = st.bookings.save v) (hb : findBooking st.bookings tenantId id = some b) (hid : v.id = b.id)
    (hten : v.tenantId = b.tenantId)
    (hfit : Q b (lockChain st tenantId id) → Q v (lockChain st tenantId id)) : Chained Q st' := by
  obtain ⟨hfind, hbten⟩ := findBooking_eq_some.1 hb
  have hbid : b.id = id := Table.key_of_find? hfind
  have hsame : ∀ x ∈ st.bookings.rows, x.id = v.id → x = b := fun x hx hxv =>
    Table.eq_of_key hx (Table.mem_of_find? hfind) (hxv.trans hid)
  refine h.rebook (g := fun x => if x.id = v.id then v else x) hsteps (fun k => ?_) (fun x hx => ?_)
    fun x hx hfits => ?_
  · rw [hst', Table.find?_save_map]
    rfl
  · by_cases hxv : x.id = v.id
    · simp only [if_pos hxv]
      rw [hsame x hx hxv]
      exact ⟨hid, hten⟩
    · simp only [if_neg hxv, and_self]
  · by_cases hxv : x.id = v.id
    · rw [if_pos hxv]
      obtain rfl := hsame x hx hxv
      rw [hbten, hbid] at hfits ⊢
      exact hfit hfits
    · rw [if_neg hxv]
      exact hfits

theorem Chained.same (h : Chained Q st) (hsteps : st'.steps = st.steps) (hbook : st'.bookings = st.bookings) :
    Chained Q st' :=
  h.rebook (g := id) hsteps (fun k => by rw [hbook, Option.map_id_fun, id]) (fun _ _ => ⟨rfl, rfl⟩) fun _ _ hf => hf

/-- The rows of the bookings evolve as `R` allows, and there are no new ones. -/
theorem Chained.evolves {R : Booking → Booking → Prop} (h : Chained Q st) (hsteps : st'.steps = st.steps)
    (hev : Table.Evolves R st.bookings st'.bookings)
    (hclosed : ∀ k, st.bookings.find? k = none → st'.bookings.find? k = none)
    (hten : ∀ b b', R b b' → b'.tenantId = b.tenantId)
    (hQ : ∀ b ∈ st.bookings.rows, ∀ b', R b b' → Q b (lockChain st b.tenantId b.id) →
      Q b' (lockChain st b.tenantId b.id)) : Chained Q st' := by
  constructor
  · intro s hs
    rw [hsteps] at hs
    obtain ⟨b, hb, hbten⟩ := h.owned s hs
    obtain ⟨b', hb', hR⟩ := hev _ b hb
    exact ⟨b', hb', (hten b b' hR).trans hbten⟩
  · intro b' hb'
    have hfind : st'.bookings.find? b'.id = some b' := Table.find?_of_mem hb'
    cases hb : st.bookings.find? b'.id with
    | none =>
      rw [hclosed _ hb] at hfind
      cases hfind
    | some b =>
      obtain ⟨b'', hb'', hR⟩ := hev _ b hb
      obtain rfl := Option.some.inj (hfind.symm.trans hb'')
      have hid : b.id = b'.id := Table.key_of_find? hb
      have hmem := Table.mem_of_find? hb
      rw [lockChain_congr hsteps, hten b b' hR, ← hid]
      exact hQ b hmem b' hR (h.holds b hmem)

theorem Chained.noChain (h : Chained Q st) {id : Uuid} (hnew : st.bookings.find? id = none) (tenantId : Uuid) :
    lockChain st tenantId id = [] := by
  refine List.eq_nil_iff_forall_not_mem.2 fun s hs => ?_
  obtain ⟨hrow, -, hbook⟩ := mem_lockChain.1 hs
  obtain ⟨b, hb, -⟩ := h.owned s hrow
  rw [hbook, hnew] at hb
  cases hb

theorem Chained.insert {row : Booking} {bookings : Table Booking} (h : Chained Q st)
    (hins : st.bookings.insert? row = some bookings) (hnil : Q row []) : Chained Q { st with bookings } := by
  obtain ⟨hnew, hrows⟩ := Table.insert?_eq_some_iff.1 hins
  constructor
  · intro s hs
    obtain ⟨b, hb, hten⟩ := h.owned s hs
    refine ⟨b, ?_, hten⟩
    have hne : key row ≠ s.bookingId := by
      rintro hk
      rw [hk, hb] at hnew
      cases hnew
    rw [Table.find?_insert? hins, if_neg hne, hb]
  · intro b hb
    rw [show ({ st with bookings } : Store).bookings.rows = _ from hrows, List.mem_append, List.mem_singleton] at hb
    rcases hb with hb | rfl
    · exact h.holds b hb
    · have hnone : lockChain st b.tenantId b.id = [] := h.noChain hnew b.tenantId
      rw [show lockChain { st with bookings } b.tenantId b.id = lockChain st b.tenantId b.id from rfl, hnone]
      exact hnil

theorem Chained.written {env : Env} {now : Instant} {newId : ℕ → Uuid} {row : Booking} {res : Resource}
    {rule : ApprovalRule} (h : Chained Q st) (hrow : row ∈ st.bookings.rows)
    (hnone : lockChain st row.tenantId row.id = []) (hbook : st'.bookings = st.bookings)
    (hrows : st'.steps.rows = st.steps.rows ++ chainRows env now newId row res rule)
    (hQ : Q row (chainRows env now newId row res rule)) : Chained Q st' := by
  constructor
  · intro s hs
    rw [hrows, List.mem_append] at hs
    rw [hbook]
    rcases hs with hs | hs
    · exact h.owned s hs
    · obtain ⟨hten, hb, -⟩ := mem_chainRows hs
      exact ⟨row, by rw [hb]; exact Table.find?_of_mem hrow, hten.symm⟩
  · intro b hb
    rw [hbook] at hb
    by_cases hbr : row.id = b.id
    · obtain rfl := Table.eq_of_key hrow hb hbr
      rw [lockChain_written hrows hnone]
      exact hQ
    · rw [lockChain_unwritten hrows fun hk => hbr hk.2]
      exact h.holds b hb

end Writes

/-! ### Two operations -/

theorem create_inserts {env : Env} {now : Instant} {fresh : Fresh} {tenantId userId : Uuid} {dto : CreateBookingDto}
    {st st' : Store} {row : Booking} (h : create env now fresh tenantId userId dto st = .ok (st', row)) :
    ∃ slot, Admitted env tenantId userId dto fresh.booking slot row ∧ st.bookings.insert? row = some st'.bookings := by
  obtain ⟨slot, bookings, hadm, hins, hst⟩ := create_ok h
  refine ⟨slot, hadm, ?_⟩
  rcases hst with rfl | ⟨-, n, hm⟩
  · exact hins
  · rcases materialize_ok hm with ⟨rfl, -⟩ | ⟨_, _, -, -, -, -, hb, -⟩
    · exact hins
    · rw [hb]
      exact hins

section Operations

variable {Q : Booking → List ApprovalStep → Prop} {env : Env} {now : Instant} {st st' : Store}

theorem Chained.create {fresh : Fresh} {tenantId userId : Uuid} {dto : CreateBookingDto} {row : Booking}
    (h : Chained Q st) (hc : create env now fresh tenantId userId dto st = .ok (st', row)) (hnil : Q row [])
    (hnew : ∀ res rule, row.status = .pendingApproval → env.resource row.tenantId row.resourceId = some res →
      matchRule env row.tenantId res = some rule → rule.levels ≠ [] →
      Q row (chainRows env now fresh.step row res rule)) : Chained Q st' := by
  obtain ⟨slot, bookings, -, hins, hst⟩ := create_ok hc
  have hinserted := h.insert hins hnil
  rcases hst with rfl | ⟨hp, n, hm⟩
  · exact hinserted
  · rcases materialize_ok hm with ⟨rfl, -⟩ | ⟨res, rule, hres, hrule, hlev, -, hb, -, hrows⟩
    · exact hinserted
    · obtain ⟨hfree, hall⟩ := Table.insert?_eq_some_iff.1 hins
      have hrow : row ∈ bookings.rows := by
        rw [hall]
        simp
      exact hinserted.written hrow (h.noChain hfree row.tenantId) hb hrows (hnew res rule hp hres hrule hlev)

theorem map_of_notMem {chain : List ApprovalStep} {step v : ApprovalStep} (h : step ∉ chain) :
    (chain.map fun s => if s = step then v else s) = chain := by
  conv_rhs => rw [← List.map_id chain]
  refine List.map_congr_left fun s hs => if_neg ?_
  rintro rfl
  exact h hs

/-- A decision: on a booking without a chain, or on the first step of the chain the user may act on. -/
theorem Chained.decide {user : AuthUser} {bookingId : Uuid} {input : DecideInput} {r : DecideResult}
    (h : Chained Q st) (hd : ApprovalsService.decide env now user bookingId input st = .ok (st', r))
    (hlegacy : ∀ b, Q b [] → Q (legacyDecided input b) [])
    (hchain : ∀ i step b, ChainDecision env user bookingId input st i step →
      Q b (lockChain st user.tenantId bookingId) →
      Q (decidedBooking (lockChain st user.tenantId bookingId) step input b)
        ((lockChain st user.tenantId bookingId).map fun s =>
          if s = step then decidedStep now input (some user.id) step else s)) : Chained Q st' := by
  rcases decide_ok hd with ⟨b, hleg, hsteps, hst⟩ | ⟨i, step, hstep, rfl⟩
  · rcases hst with hbk | ⟨hbk, -⟩
    · refine h.save hsteps hbk hleg.found ?_ ?_ fun hb => ?_
      · unfold legacyDecided
        cases input.status <;> rfl
      · unfold legacyDecided
        cases input.status <;> rfl
      · rw [hleg.chain] at hb ⊢
        exact hlegacy b hb
    · exact h.same hsteps hbk
  · obtain ⟨hrow, hten, hbook⟩ := hstep.mem
    refine h.rewrite (f := fun s => if s = step then decidedStep now input (some user.id) step else s)
      (g := fun b => if b.id = bookingId ∧ b.tenantId = user.tenantId then
        decidedBooking (lockChain st user.tenantId bookingId) step input b else b) ?_ ?_ ?_ ?_ ?_ ?_ ?_
    · show (commitStepDecision ..).1.steps.rows = _
      rw [commitStepDecision_steps]
      exact Table.rows_save_of_mem hrow rfl
    · exact Table.replace_same (f := ApprovalStep.tenantId) rfl
    · exact Table.replace_same (f := ApprovalStep.bookingId) rfl
    · exact Table.replace_same (f := ApprovalStep.stepIndex) rfl
    · intro id
      exact commitStepDecision_find? ..
    · intro b _
      obtain ⟨hid, hten, -⟩ := decidedBooking_same (lockChain st user.tenantId bookingId) step input b
      split
      · exact ⟨hid, hten⟩
      · exact ⟨rfl, rfl⟩
    · intro b hb hf
      split
      · rename_i hk
        rw [hk.1, hk.2] at hf ⊢
        exact hchain i step b hstep hf
      · rename_i hk
        rw [map_of_notMem]
        · exact hf
        · intro hmem
          obtain ⟨-, hten', hbook'⟩ := mem_lockChain.1 hmem
          exact hk ⟨hbook'.symm.trans hbook, hten'.symm.trans hten⟩

end Operations

end BookingSystem.Effects
