import BookingSystem.Effects.Bookings
import Mathlib.Order.Interval.Set.Disjoint
import Mathlib.Order.CompletePartialOrder
import Mathlib.Order.ConditionallyCompleteLattice.Basic
import Mathlib.Data.Int.ConditionallyCompleteOrder

/-!
# No double booking

What it means that no room is booked twice, and that one booking written after the conflict check keeps it so.
Rooms exclude each other when they are one exclusive room, or a split room and one of its parts; a pod takes as
many bookings at a time as its capacity says.
-/

namespace BookingSystem.Concurrency

open Base Model Model.BookingsService Effects

/-- `b` is a booking of `r`. -/
def Books (b : Booking) (r : Resource) : Prop := b.resourceId = r.id ∧ b.tenantId = r.tenantId

/-- `r` is a part of the split room `p`. -/
def ChildOf (r p : Resource) : Prop := r.parentResourceId = some p.id ∧ r.tenantId = p.tenantId

instance (r p : Resource) : Decidable (ChildOf r p) := inferInstanceAs (Decidable (_ ∧ _))

/-- Parts are marked as parts and point at split rooms; pods are neither. -/
structure WellFormed (resources : Table Resource) : Prop where
  composite : ∀ r ∈ resources.rows, ∀ p ∈ resources.rows, ChildOf r p →
    r.compositeMode = .child ∧ p.compositeMode = .parent
  pod : ∀ r ∈ resources.rows, r.bookingMode = .shared → r.compositeMode = .standalone

/-- At most one of the two rooms can be in use at a time. -/
def Excludes (r r' : Resource) : Prop :=
  (r.id = r'.id ∧ r.bookingMode = .exclusive) ∨ ChildOf r r' ∨ ChildOf r' r

def window (b : Booking) : Set Instant := Set.Ico b.startTime b.endTime

def occupies (p : Resource) (t : Instant) (b : Booking) : Bool :=
  !b.status.released && b.resourceId == p.id && b.tenantId == p.tenantId &&
    decide (b.startTime ≤ t) && decide (t < b.endTime)

/-- **No double booking.** Standing bookings of rooms that exclude each other have disjoint windows, and a pod
never holds more bookings at a time than its capacity. -/
structure NoDoubleBooking (resources : Table Resource) (bookings : Table Booking) : Prop where
  apart : ∀ b ∈ bookings.rows, ∀ b' ∈ bookings.rows, b.id ≠ b'.id →
    b.status.released = false → b'.status.released = false →
    ∀ r ∈ resources.rows, ∀ r' ∈ resources.rows, Books b r → Books b' r' → Excludes r r' →
    Disjoint (window b) (window b')
  pods : ∀ p ∈ resources.rows, p.bookingMode = .shared →
    ∀ t, (bookings.rows.countP (occupies p t) : ℤ) ≤ capacity p

/-! ### Rooms that exclude each other -/

theorem Excludes.tenant {resources : Table Resource} {r r' : Resource} (hr : r ∈ resources.rows)
    (hr' : r' ∈ resources.rows) (h : Excludes r r') : r.tenantId = r'.tenantId := by
  rcases h with ⟨he, -⟩ | h | h
  · rw [Table.eq_of_key hr hr' he]
  · exact h.2
  · exact h.2.symm

theorem Excludes.symm {resources : Table Resource} {r r' : Resource} (hr : r ∈ resources.rows)
    (hr' : r' ∈ resources.rows) (h : Excludes r r') : Excludes r' r := by
  rcases h with ⟨he, hx⟩ | h | h
  · rw [Table.eq_of_key hr hr' he] at hx ⊢
    exact .inl ⟨rfl, hx⟩
  · exact .inr (.inr h)
  · exact .inr (.inl h)

theorem Excludes.not_pod {resources : Table Resource} (hwf : WellFormed resources) {r r' : Resource}
    (hr : r ∈ resources.rows) (hr' : r' ∈ resources.rows) (h : Excludes r r') : isPod r = false := by
  rcases h with ⟨-, hx⟩ | h | h
  · simp [isPod, hx]
  · simp [isPod, (hwf.composite r hr r' hr' h).1]
  · simp [isPod, (hwf.composite r' hr' r hr h).2]

theorem self_mem_related (env : Env) (tenantId : Uuid) (r : Resource) :
    r.id ∈ relatedResourceIds env tenantId r := by
  simp [relatedResourceIds, List.mem_eraseDups]

theorem Excludes.mem_related {env : Env} (hwf : WellFormed env.resources) {r r' : Resource}
    (hr : r ∈ env.resources.rows) (hr' : r' ∈ env.resources.rows) (h : Excludes r r') :
    r'.id ∈ relatedResourceIds env r.tenantId r := by
  rcases h with ⟨he, -⟩ | h | h
  · rw [← he]
    exact self_mem_related env _ r
  · have hc := (hwf.composite r hr r' hr' h).1
    simp [relatedResourceIds, List.mem_eraseDups, hc, h.1]
  · have hp := (hwf.composite r' hr' r hr h).2
    simp only [relatedResourceIds, List.mem_eraseDups, hp]
    refine List.mem_cons_of_mem _ (List.mem_append_right _ ?_)
    rw [if_pos (by simp), List.mem_map]
    exact ⟨r', List.mem_filter.2 ⟨hr', by simp [h.1, h.2]⟩, rfl⟩

theorem mem_lockResources {env : Env} {tenantId x : Uuid} {ids : List Uuid} :
    x ∈ lockResources env tenantId ids ↔ ∃ r ∈ env.resources.rows, r.tenantId = tenantId ∧ r.id ∈ ids ∧ r.id = x := by
  rw [lockResources, (List.perm_insertionSort _ _).mem_iff]
  simp [and_assoc]

/-! ### The conflict check -/

def clashes (tenantId : Uuid) (ids : List Uuid) (start finish : Instant) (excludeBookingId : Option Uuid)
    (b : Booking) : Bool :=
  b.tenantId == tenantId && ids.contains b.resourceId && !b.status.released &&
    rangesOverlap b.startTime b.endTime start finish && excludeBookingId != some b.id

theorem length_conflicting (bookings : Table Booking) (tenantId : Uuid) (ids : List Uuid) (start finish : Instant)
    (ex : Option Uuid) : (conflicting bookings tenantId ids start finish ex).length =
      bookings.rows.countP (clashes tenantId ids start finish ex) :=
  List.countP_eq_length_filter.symm

theorem assertNoConflict_ok {bookings : Table Booking} {tenantId : Uuid} {ids : List Uuid}
    {start finish : Instant} {ex : Option Uuid} {r : Resource} :
    assertNoConflict bookings tenantId ids start finish ex r = .ok () ↔
      (bookings.rows.countP (clashes tenantId ids start finish ex) : ℤ) < if isPod r then capacity r else 1 := by
  rw [← length_conflicting]
  unfold assertNoConflict
  cases isPod r with
  | true => simp
  | false =>
    simp only [Bool.false_eq_true, if_false, require_eq_ok, List.isEmpty_iff, ← List.length_eq_zero_iff]
    omega

theorem assertNoConflict_mono {bookings bookings' : Table Booking} {tenantId : Uuid} {ids : List Uuid}
    {start finish : Instant} {ex : Option Uuid} {r : Resource}
    (hle : bookings'.rows.countP (clashes tenantId ids start finish ex) ≤
      bookings.rows.countP (clashes tenantId ids start finish ex))
    (h : assertNoConflict bookings tenantId ids start finish ex r = .ok ()) :
    assertNoConflict bookings' tenantId ids start finish ex r = .ok () := by
  rw [assertNoConflict_ok] at h ⊢
  omega

theorem rangesOverlap_iff {a b s e : Instant} :
    rangesOverlap a b s e = true ↔ ¬ Disjoint (Set.Ico a b) (Set.Ico s e) := by
  rw [Set.Ico_disjoint_Ico, not_le, max_lt_iff, lt_min_iff, lt_min_iff]
  simp only [rangesOverlap, Bool.and_eq_true, decide_eq_true_eq]
  tauto

theorem rangesOverlap_of_mem {a b s e t : Instant} (h₁ : a ≤ t) (h₂ : t < b) (h₃ : s ≤ t) (h₄ : t < e) :
    rangesOverlap a b s e = true := by
  simp only [rangesOverlap, Bool.and_eq_true, decide_eq_true_eq]
  exact ⟨⟨⟨h₁.trans_lt h₂, h₃.trans_lt h₄⟩, h₁.trans_lt h₄⟩, h₃.trans_lt h₂⟩

/-! ### One more booking -/

/-- `t'` is the table `t` after the row `v` was written: the other rows are rows of `t`, and a count goes up by
the row `v` at most. -/
structure Put (t : Table Booking) (v : Booking) (t' : Table Booking) : Prop where
  mem : ∀ b ∈ t'.rows, b = v ∨ (b ∈ t.rows ∧ b.id ≠ v.id)
  count : ∀ q, t'.rows.countP q ≤ t.rows.countP (fun b => q b && decide (b.id ≠ v.id)) + 1
  count_of_not : ∀ q, q v = false → t'.rows.countP q ≤ t.rows.countP q

theorem put_save (t : Table Booking) (v : Booking) : Put t v (t.save v) where
  mem b hb := by
    rcases Table.mem_save.1 hb with ⟨rfl, -⟩ | h
    · exact .inl rfl
    · exact .inr h
  count q := Table.countP_save_le_succ t v q
  count_of_not q hq := Table.countP_save_le fun _ _ _ h => by simp [hq] at h

theorem put_insert {t t' : Table Booking} {v : Booking} (h : t.insert? v = some t') : Put t v t' := by
  obtain ⟨hnew, hrows⟩ := Table.insert?_eq_some_iff.1 h
  have hne := Table.find?_eq_none_iff.1 hnew
  constructor
  · intro b hb
    rw [hrows, List.mem_append, List.mem_singleton] at hb
    rcases hb with hb | rfl
    · exact .inr ⟨hb, hne b hb⟩
    · exact .inl rfl
  · intro q
    have hq : t.rows.countP q = t.rows.countP fun b => q b && decide (b.id ≠ v.id) :=
      List.countP_congr fun b hb => by simpa using fun _ => hne b hb
    rw [hrows, List.countP_append, hq]
    have : List.countP q [v] ≤ 1 := List.countP_le_length
    omega
  · intro q hq
    rw [hrows, List.countP_append]
    simp [hq]

section Write

variable {env : Env} {bookings bookings' : Table Booking} {v : Booking} {r : Resource} {ex : Option Uuid}

/-- A standing booking of a room that the checked room excludes lies apart from the checked window. -/
theorem disjoint_of_noConflict (hwf : WellFormed env.resources) (hr : r ∈ env.resources.rows) (hv : Books v r)
    (hex : ex = none ∨ ex = some v.id)
    (hok : assertNoConflict bookings v.tenantId (relatedResourceIds env v.tenantId r) v.startTime v.endTime ex r
      = .ok ()) {b : Booking} (hb : b ∈ bookings.rows) (hne : b.id ≠ v.id) (hst : b.status.released = false)
    {r' : Resource} (hr' : r' ∈ env.resources.rows) (hb' : Books b r') (hx : Excludes r r') :
    Disjoint (window b) (window v) := by
  rw [assertNoConflict_ok, hx.not_pod hwf hr hr'] at hok
  by_contra hov
  have hclash : clashes v.tenantId (relatedResourceIds env v.tenantId r) v.startTime v.endTime ex b = true := by
    have hten : b.tenantId = v.tenantId := by rw [hb'.2, hv.2, hx.tenant hr hr']
    have hin : b.resourceId ∈ relatedResourceIds env v.tenantId r := by
      rw [hb'.1, hv.2]
      exact hx.mem_related hwf hr hr'
    have hov' := rangesOverlap_iff.2 hov
    rcases hex with rfl | rfl
    · simp [clashes, hten, hin, hst, hov']
    · simp [clashes, hten, hin, hst, hov', Ne.symm hne]
  have : 0 < bookings.rows.countP (clashes v.tenantId (relatedResourceIds env v.tenantId r) v.startTime v.endTime ex) :=
    List.countP_pos_iff.2 ⟨b, hb, hclash⟩
  simp only [Bool.false_eq_true, if_false] at hok
  omega

theorem occupancy_of_noConflict (hr : Books v r) (hpod : isPod r = true) (hex : ex = none ∨ ex = some v.id)
    (hok : assertNoConflict bookings v.tenantId (relatedResourceIds env v.tenantId r) v.startTime v.endTime ex r
      = .ok ()) {t : Instant} (h₁ : v.startTime ≤ t) (h₂ : t < v.endTime) :
    (bookings.rows.countP (fun b => occupies r t b && decide (b.id ≠ v.id)) : ℤ) < capacity r := by
  rw [assertNoConflict_ok, hpod, if_pos rfl] at hok
  refine lt_of_le_of_lt (Int.ofNat_le.2 (List.countP_mono_left fun b _ hq => ?_)) hok
  simp only [occupies, Bool.and_eq_true, Bool.not_eq_true', beq_iff_eq, decide_eq_true_eq] at hq
  obtain ⟨⟨⟨⟨⟨hst, hres⟩, hten⟩, hs⟩, he⟩, hne⟩ := hq
  have hov := rangesOverlap_of_mem hs he h₁ h₂
  have hin : b.resourceId ∈ relatedResourceIds env v.tenantId r := hres ▸ self_mem_related env _ r
  have hten' : b.tenantId = v.tenantId := hten.trans hr.2.symm
  rcases hex with rfl | rfl
  · simp [clashes, hten', hin, hst, hov]
  · simp [clashes, hten', hin, hst, hov, Ne.symm hne]

/-- **One write.** A booking written after the conflict check keeps the rooms free of double bookings. -/
theorem NoDoubleBooking.put (hwf : WellFormed env.resources) (h : NoDoubleBooking env.resources bookings)
    (hr : r ∈ env.resources.rows) (hv : Books v r) (hex : ex = none ∨ ex = some v.id)
    (hok : assertNoConflict bookings v.tenantId (relatedResourceIds env v.tenantId r) v.startTime v.endTime ex r
      = .ok ()) (hput : Put bookings v bookings') : NoDoubleBooking env.resources bookings' where
  apart b hb b' hb' hne hst hst' r₁ hr₁ r₂ hr₂ hbook hbook' hx := by
    rcases hput.mem b hb with rfl | ⟨hb, hbv⟩ <;> rcases hput.mem b' hb' with rfl | ⟨hb', hbv'⟩
    · exact absurd rfl hne
    · have : r₁ = r := Table.eq_of_key hr₁ hr (hbook.1.symm.trans hv.1)
      subst this
      exact (disjoint_of_noConflict hwf hr hv hex hok hb' hbv' hst' hr₂ hbook' hx).symm
    · have : r₂ = r := Table.eq_of_key hr₂ hr (hbook'.1.symm.trans hv.1)
      subst this
      exact disjoint_of_noConflict hwf hr hv hex hok hb hbv hst hr₁ hbook (hx.symm hr₁ hr)
    · exact h.apart b hb b' hb' hne hst hst' r₁ hr₁ r₂ hr₂ hbook hbook' hx
  pods p hp hshared t := by
    cases hq : occupies p t v with
    | false =>
      have h₁ := hput.count_of_not (occupies p t) hq
      have h₂ := h.pods p hp hshared t
      omega
    | true =>
      have hq' := hq
      simp only [occupies, Bool.and_eq_true, beq_iff_eq, decide_eq_true_eq] at hq'
      have : p = r := Table.eq_of_key hp hr (hq'.1.1.1.2.symm.trans hv.1)
      subst this
      have hpod : isPod p = true := by simp [isPod, hshared, hwf.pod p hp hshared]
      have h₁ := hput.count (occupies p t)
      have h₂ := occupancy_of_noConflict hv hpod hex hok hq'.1.2 hq'.2
      omega

end Write

/-- An edit of the form fields changes nothing the rooms see. -/
theorem NoDoubleBooking.edit {resources : Table Resource} {bookings : Table Booking} {b v : Booking}
    (h : NoDoubleBooking resources bookings) (hb : b ∈ bookings.rows) (he : Edits b v) :
    NoDoubleBooking resources (bookings.save v) := by
  obtain ⟨title, url, services, attendees, cfv, version, hv⟩ := he
  have back : ∀ c ∈ (bookings.save v).rows, ∃ c₀ ∈ bookings.rows, c₀.id = c.id ∧ c₀.status = c.status ∧
      c₀.resourceId = c.resourceId ∧ c₀.tenantId = c.tenantId ∧ window c₀ = window c := by
    intro c hc
    rcases Table.mem_save.1 hc with ⟨rfl, -⟩ | ⟨hc, -⟩
    · subst hv
      exact ⟨b, hb, rfl, rfl, rfl, rfl, rfl⟩
    · exact ⟨c, hc, rfl, rfl, rfl, rfl, rfl⟩
  constructor
  · intro c hc c' hc' hne hst hst' r hr r' hr' hbook hbook' hx
    obtain ⟨c₀, hc₀, hid, hs, hres, hten, hw⟩ := back c hc
    obtain ⟨c₁, hc₁, hid', hs', hres', hten', hw'⟩ := back c' hc'
    rw [← hw, ← hw']
    refine h.apart c₀ hc₀ c₁ hc₁ (by rw [hid, hid']; exact hne) (by rw [hs]; exact hst) (by rw [hs']; exact hst')
      r hr r' hr' ?_ ?_ hx
    · exact ⟨hres.trans hbook.1, hten.trans hbook.2⟩
    · exact ⟨hres'.trans hbook'.1, hten'.trans hbook'.2⟩
  · intro p hp hshared t
    refine le_trans (Int.ofNat_le.2 (Table.countP_save_le fun c hc hk hq => ?_)) (h.pods p hp hshared t)
    subst hv
    rw [Table.eq_of_key hc hb hk]
    exact hq

end BookingSystem.Concurrency
