import BookingSystem.Base.Reservations
import BookingSystem.Concurrency.RoomTransactions

/-!
# Composite and shared rooms under concurrent requests

A room and its parts are never to be booked for one time, and a shared room never beyond its capacity. The check for
relatives is a query without a lock, is not made for shared rooms and not for updates, and the lock of a shared room is
taken by those only that find it. So transactions keep the rooms apart as long as each of them makes its check while no
other one is between its own check and its commit with a window that meets on a relative, or on the same shared room
unless both lock it, and as long as the windows that are not asked about are free (`rooms_kept`).
-/

namespace BookingSystem.Concurrency.CompositeRooms

open Base Service Base.Reservations
open Model (Uuid Instant BookingStatus)

variable (resources : Table Resource)

/-- **No room is booked twice**: two bookings of a room and one of its parts have no time in common, and at no time a
shared room has more bookings than it has places. -/
structure NeverDoubleBooked (t : Table Booking) : Prop where
  relatives : ∀ r ∈ resources.rows, ∀ p, r.parentResourceId = some p → ∀ a ∈ t.rows, ∀ b ∈ t.rows, a.id ≠ b.id →
    a.active = true → b.active = true → a.resourceId = r.id → b.resourceId = p →
    Disjoint (Set.Ico a.startTime a.endTime) (Set.Ico b.startTime b.endTime)
  capacity : ∀ r ∈ resources.rows, r.isShared = true → ∀ time : Instant,
    ((t.rows.countP fun b => decide (b.resourceId = r.id) && b.active && decide (b.startTime ≤ time) &&
      decide (time < b.endTime) : ℕ) : ℤ) ≤ r.cap

/-! ### Bookings as slots -/

def slot (b : Booking) : Slot Uuid Uuid Instant := ⟨b.id, b.resourceId, b.startTime, b.endTime, b.active⟩

/-- One of the two resources is a part of the other. -/
def Related (x y : Uuid) : Prop :=
  ∃ r ∈ resources.rows, r.id = x ∧ r.parentResourceId = some y ∨ r.id = y ∧ r.parentResourceId = some x

def capacityOf (x : Uuid) : Option ℤ := ((resources.find? x).filter Resource.isShared).map Resource.cap

variable {resources}

theorem related_symm (x y : Uuid) (h : Related resources x y) : Related resources y x := by
  obtain ⟨r, hr, h⟩ := h
  exact ⟨r, hr, h.symm⟩

theorem cap_pos (r : Resource) : 0 < r.cap := by
  unfold Resource.cap
  split
  · assumption
  · split
    · assumption
    · exact Int.one_pos

theorem capacityOf_eq_some {x : Uuid} {n : ℤ} :
    capacityOf resources x = some n ↔ ∃ r ∈ resources.rows, r.id = x ∧ r.isShared = true ∧ r.cap = n := by
  simp only [capacityOf, Option.map_eq_some_iff, Option.filter_eq_some_iff, Table.find?_eq_some_iff]
  constructor
  · rintro ⟨r, ⟨⟨hr, hid⟩, hshared⟩, hcap⟩
    exact ⟨r, hr, hid, hshared, hcap⟩
  · rintro ⟨r, hr, hid, hshared, hcap⟩
    exact ⟨r, ⟨⟨hr, hid⟩, hshared⟩, hcap⟩

theorem capacity_pos {x : Uuid} {n : ℤ} (h : capacityOf resources x = some n) : 0 < n := by
  obtain ⟨r, -, -, -, rfl⟩ := capacityOf_eq_some.1 h
  exact cap_pos r

/-- The property in terms of slots. -/
theorem neverDoubleBooked_iff {t : Table Booking} :
    NeverDoubleBooked resources t ↔ Sound (Related resources) (capacityOf resources) (t.rows.map slot) := by
  have hholds : ∀ (r : Uuid) (time : Instant), ((t.rows.map slot).countP fun y => y.holds r time) =
      t.rows.countP fun b => decide (b.resourceId = r) && b.active && decide (b.startTime ≤ time) &&
        decide (time < b.endTime) := fun r time => by
    rw [List.countP_map]
    rfl
  constructor
  · rintro ⟨hrelatives, hcapacity⟩
    constructor
    · simp only [List.forall_mem_map]
      rintro a ha b hb hne hlive hlive' ⟨r, hr, ⟨hid, hparent⟩ | ⟨hid, hparent⟩⟩
      · exact hrelatives r hr _ hparent a ha b hb hne hlive hlive' hid.symm rfl
      · exact (hrelatives r hr _ hparent b hb a ha hne.symm hlive' hlive hid.symm rfl).symm
    · intro p n hn time
      obtain ⟨r, hr, rfl, hshared, rfl⟩ := capacityOf_eq_some.1 hn
      rw [hholds]
      exact hcapacity r hr hshared time
  · rintro ⟨hapart, hfits⟩
    constructor
    · intro r hr p hparent a ha b hb hne hlive hlive' hplace hplace'
      exact hapart _ (List.mem_map_of_mem ha) _ (List.mem_map_of_mem hb) hne hlive hlive'
        ⟨r, hr, .inl ⟨hplace.symm, hparent.trans (congrArg some hplace'.symm)⟩⟩
    · intro r hr hshared time
      rw [← hholds]
      exact hfits r.id r.cap (capacityOf_eq_some.2 ⟨r, hr, rfl, hshared, rfl⟩) time

theorem map_slot_put (t : Table Booking) (w : Booking) :
    (t.put w).rows.map slot = Reservations.put (t.rows.map slot) (slot w) := by
  simp only [Table.put, Reservations.put, List.map_append, List.filter_map]
  rfl

theorem clashes_slot {a b : Booking} : (slot a).clashes (slot b) = true ↔
    a.active = true ∧ b.active = true ∧ a.id ≠ b.id ∧ a.startTime < b.endTime ∧ b.startTime < a.endTime := by
  simp only [Slot.clashes, Slot.meets, Bool.and_eq_true, decide_eq_true_eq, and_assoc]
  exact Iff.rfl

theorem rivals_slot {a b : Booking} :
    (slot a).rivals (slot b) = true ↔ b.resourceId = a.resourceId ∧ (slot a).clashes (slot b) = true := by
  rw [Slot.rivals, Bool.and_eq_true, decide_eq_true_eq]
  exact Iff.rfl

/-! ### What the checks show -/

theorem mem_targets {x y : Uuid} (h : Related resources x y) : y ∈ targets resources x := by
  obtain ⟨r, hr, ⟨rfl, hparent⟩ | ⟨rfl, hparent⟩⟩ := h
  · refine List.mem_append_right _ ?_
    have hfind : resources.find? r.id = some r := Table.find?_of_mem hr
    rw [Option.mem_toList, hfind]
    exact hparent
  · refine List.mem_append_left _ (List.mem_cons_of_mem _ (List.mem_map_of_mem (List.mem_filter.2 ⟨hr, ?_⟩)))
    rw [hparent]
    exact beq_self_eq_true _

section checks

variable {t : Table Booking} {b : Booking}

theorem clear_of_noConflict (h : hasConflict resources t b.resourceId b.startTime b.endTime = false) {y : Booking}
    (hy : y ∈ t.rows) (hplace : Related resources b.resourceId y.resourceId ∨ y.resourceId = b.resourceId) :
    (slot b).clashes (slot y) = false := by
  by_contra hclash
  rw [Bool.not_eq_false, clashes_slot] at hclash
  obtain ⟨-, hactive, -, hfinish, hstart⟩ := hclash
  have htarget : y.resourceId ∈ targets resources b.resourceId := by
    obtain hrelated | heq := hplace
    · exact mem_targets hrelated
    · rw [heq]
      exact List.mem_append_left _ List.mem_cons_self
  have hfound : hasConflict resources t b.resourceId b.startTime b.endTime = true := by
    refine List.any_eq_true.2 ⟨y, hy, ?_⟩
    simp only [Booking.meets, Bool.and_eq_true, decide_eq_true_eq]
    exact ⟨⟨htarget, hactive⟩, hstart, hfinish⟩
  rw [h] at hfound
  cases hfound

theorem countP_rivals_eq_zero (h : ∀ y ∈ t.rows, y.resourceId = b.resourceId → (slot b).clashes (slot y) = false) :
    (t.rows.map slot).countP (slot b).rivals = 0 := by
  refine List.countP_eq_zero.2 fun x hx hrival => ?_
  obtain ⟨y, hy, rfl⟩ := List.mem_map.1 hx
  rw [rivals_slot] at hrival
  rw [h y hy hrival.1] at hrival
  cases hrival.2

theorem countP_rivals_le {exclude : Uuid} (hexclude : exclude = "" ∨ exclude = b.id) :
    (t.rows.map slot).countP (slot b).rivals ≤ countConcurrent t b.resourceId b.startTime b.endTime exclude := by
  rw [List.countP_map]
  refine List.countP_mono_left fun y _ hrival => ?_
  obtain ⟨hplace, hclash⟩ := rivals_slot.1 hrival
  obtain ⟨-, hactive, hne, hfinish, hstart⟩ := clashes_slot.1 hclash
  simp only [Booking.meets, Bool.and_eq_true, Bool.or_eq_true, decide_eq_true_eq, bne_iff_ne, beq_iff_eq]
  refine ⟨⟨⟨hplace, hactive⟩, hstart, hfinish⟩, ?_⟩
  obtain rfl | rfl := hexclude
  · exact .inl rfl
  · exact .inr (Ne.symm hne)

/-- The third rule, when the resource was found and is shared: there is room. -/
theorem room_of_validate {p : Policy} {input : ValidationInput} {vres : ValidationResult} {r : Uuid}
    (h : validate p resources t input = .ok vres) (hlock : lockOf resources p input.resourceId = some r) :
    r = input.resourceId ∧ ∀ n, capacityOf resources r = some n →
      ((countConcurrent t input.resourceId input.start input.finish input.excludeBookingId : ℕ) : ℤ) < n := by
  unfold lockOf at hlock
  split at hlock
  · rename_i hshared
    obtain rfl := Option.some.inj hlock
    refine ⟨rfl, fun n hn => ?_⟩
    simp only [validate, bind_eq_ok] at h
    obtain ⟨_, -, _, -, _, hslot, -⟩ := h
    cases hresource : p.resource resources input.resourceId with
    | none => simp [hresource] at hshared
    | some res =>
      rw [hresource, Option.any_some] at hshared
      have hfind : resources.find? input.resourceId = some res := by
        unfold Policy.resource at hresource
        split at hresource
        · exact hresource
        · cases hresource
      rw [capacityOf, hfind, Option.filter_some_pos hshared, Option.map_some] at hn
      obtain rfl := Option.some.inj hn
      rw [hresource, checkSlot, Option.filter_some_pos hshared] at hslot
      simpa using hslot
  · cases hlock

theorem noConflict_of_validate {p : Policy} {input : ValidationInput} {vres : ValidationResult}
    (h : validate p resources t input = .ok vres) (hlock : lockOf resources p input.resourceId = none)
    (hnew : input.excludeBookingId = "") :
    hasConflict resources t input.resourceId input.start input.finish = false := by
  simp only [validate, bind_eq_ok] at h
  obtain ⟨_, -, _, -, _, hslot, -⟩ := h
  have hfilter : (p.resource resources input.resourceId).filter Resource.isShared = none := by
    unfold lockOf at hlock
    split at hlock
    · cases hlock
    · rename_i hshared
      cases hresource : p.resource resources input.resourceId with
      | none => rfl
      | some r => simpa [hresource, Option.filter] using hshared
  rw [checkSlot, hfilter] at hslot
  simpa [hnew] using hslot

end checks

/-! ### Claims -/

def Phase.job : Phase → Option Job
  | .asked job | .saving job _ | .closing job => some job
  | .idle | .over => none

def Phase.guard (resources : Table Resource) : Phase → Option Uuid
  | .saving job _ | .closing job => job.lock resources
  | .idle | .asked _ | .over => none

def Phase.next : Phase → List Booking
  | .saving _ b => [b]
  | .idle | .asked _ | .closing _ | .over => []

def Phase.claimed (ph : Phase) (own : List Booking) : List (Slot Uuid Uuid Instant) :=
  if ph.job.any Job.claims then (own ++ ph.next).map slot else []

variable {ι : Type} [DecidableEq ι] {s : State ι} {i : ι}

def State.claims (s : State ι) (i : ι) : List (Slot Uuid Uuid Instant) := (s.phase i).claimed (s.own i)

variable (resources)

/-- The job asks `HasConflict`. -/
def Job.asksRelatives : Job → Bool
  | .create c req _ => (lockOf resources c.policy req.resourceId).isNone
  | .move .. => false
  | .series .. => true

/-- **A check that stays valid**: no other transaction has claimed what clashes on a relative of the room, or on the
room itself if it is shared and not both have locked it; the relatives are free when they are not asked about; and an
update that does not find its shared room finds a place in it. -/
structure StaysValid (s : State ι) (i : ι) (job : Job) (b : Booking) : Prop where
  alone : ∀ j, j ≠ i → ∀ w ∈ s.claims j, Related resources b.resourceId w.place → (slot b).clashes w = false
  shared : ∀ j, j ≠ i → ∀ w ∈ s.claims j, capacityOf resources b.resourceId ≠ none → (slot b).rivals w = true →
    (job.lock resources).isSome ∧ ((s.phase j).guard resources).isSome
  free : job.asksRelatives resources = false → ∀ y ∈ s.table.rows, Related resources b.resourceId y.resourceId →
    (slot b).clashes (slot y) = false
  place : job.lock resources = none → job.asksRelatives resources = false → ∀ n,
    capacityOf resources b.resourceId = some n → (((s.table.rows.map slot).countP (slot b).rivals : ℕ) : ℤ) < n

/-- Every check that claims a window stays valid. -/
def Fair (s : State ι) : Event ι → Prop
  | .check i => ∀ job b, s.phase i = .asked job → s.ready resources i job = true →
      job.plan resources (s.view i) = .ok b → job.claims = true → StaysValid resources s i job b
  | .occurrence i id occ => ∀ c req seriesId, s.phase i = .asked (.series c req seriesId) →
      hasConflict resources (s.view i) req.resourceId occ.start occ.finish = false →
      StaysValid resources s i (.series c req seriesId) (occurrenceBooking c seriesId req id occ)
  | .create .. | .read .. | .expand .. | .lock .. | .save .. | .commit .. | .rollback .. => True

/-! ### The invariant -/

/-- The booking as it was read is still the stored one if the version is. -/
def Current (t : Table Booking) (b : Booking) : Prop :=
  ∃ r ∈ t.rows, r.id = b.id ∧ r.resourceId = b.resourceId ∧ b.version ≤ r.version ∧ (r.version = b.version → r = b)

/-- A row that an update is about to save, beside the booking that it has read. -/
structure Planned (req : UpdateRequest) (b b' : Booking) : Prop where
  id : b'.id = b.id
  resource : b'.resourceId = b.resourceId
  version : b'.version = b.version
  window : (req.newWindow b).isSome = false → slot b' = slot b

/-- What holds of the locks, the rows that are written, and the bookings that were read. -/
structure Kept (s : State ι) : Prop where
  quiet : ∀ i, s.own i ≠ [] → (∃ job, s.phase i = .closing job) ∨ ∃ c req k, (s.phase i).job = some (.series c req k)
  locked : ∀ i r, (s.phase i).guard resources = some r → s.locks r = some i
  placed : ∀ i r, (s.phase i).guard resources = some r → ∀ w ∈ s.claims i, w.place = r
  distinct : (s.pending.map fun p => p.2.id).Nodup
  newer : ∀ p ∈ s.pending, ∀ r ∈ s.table.rows, r.id = p.2.id →
    r.resourceId = p.2.resourceId ∧ r.version < p.2.version
  fresh : ∀ p ∈ s.pending, (s.phase p.1).job.any Job.inserts = true → ∀ r ∈ s.table.rows, r.id ≠ p.2.id
  echo : ∀ p ∈ s.pending, (s.phase p.1).job.any Job.claims = false → ∃ r ∈ s.table.rows, slot r = slot p.2
  reads : ∀ i p req b, (s.phase i).job = some (.move p req b) → (∀ job, s.phase i ≠ .closing job) → Current s.table b
  planned : ∀ i p req b b', s.phase i = .saving (.move p req b) b' → Planned req b b'

/-- **The invariant.** -/
structure Inv (s : State ι) : Prop where
  kept : Kept resources s
  safe : Safe (Related resources) (capacityOf resources) (s.table.rows.map slot) s.claims

variable {resources}

/-! ### What a transaction sees -/

section views

variable {t : Table Booking} {ws : List Booking}

theorem mem_of_mem_overlay {x : Booking} (h : x ∈ (ws.foldl Table.put t).rows) : x ∈ t.rows ∨ x ∈ ws := by
  induction ws generalizing t with
  | nil => exact .inl h
  | cons w ws ih =>
    obtain h | h := ih h
    · obtain ⟨h, -⟩ | rfl := Table.mem_put.1 h
      · exact .inl h
      · exact .inr List.mem_cons_self
    · exact .inr (List.mem_cons_of_mem w h)

theorem mem_overlay {x : Booking} (hx : x ∈ t.rows) (hne : ∀ w ∈ ws, w.id ≠ x.id) :
    x ∈ (ws.foldl Table.put t).rows := by
  induction ws generalizing t with
  | nil => exact hx
  | cons w ws ih =>
    exact ih (Table.mem_put.2 (.inl ⟨hx, (hne w List.mem_cons_self).symm⟩)) fun w' hw' =>
      hne w' (List.mem_cons_of_mem w hw')

theorem mem_overlay_of_mem {w : Booking} (hw : w ∈ ws) (hnodup : (ws.map Booking.id).Nodup) :
    w ∈ (ws.foldl Table.put t).rows := by
  induction ws generalizing t with
  | nil => cases hw
  | cons v ws ih =>
    rw [List.map_cons, List.nodup_cons] at hnodup
    obtain rfl | hw := List.mem_cons.1 hw
    · have hput : w ∈ (t.put w).rows := Table.mem_put.2 (.inr rfl)
      change w ∈ (ws.foldl Table.put (t.put w)).rows
      exact mem_overlay hput fun x hx heq => hnodup.1 (heq ▸ List.mem_map_of_mem hx)
    · exact ih hw hnodup.2

theorem exists_overlay (ws : List Booking) {x : Booking} (hx : x ∈ t.rows) :
    ∃ y ∈ (ws.foldl Table.put t).rows, y.id = x.id ∧ (y = x ∨ y ∈ ws) := by
  induction ws generalizing t x with
  | nil => exact ⟨x, hx, rfl, .inl rfl⟩
  | cons w ws ih =>
    obtain ⟨z, hz, hid, hwhich⟩ := Table.exists_put hx (a := w)
    obtain ⟨y, hy, hid', hwhich'⟩ := ih hz
    refine ⟨y, hy, hid'.trans hid, ?_⟩
    obtain rfl | hy' := hwhich'
    · obtain rfl | rfl := hwhich
      · exact .inl rfl
      · exact .inr List.mem_cons_self
    · exact .inr (List.mem_cons_of_mem w hy')

end views

theorem mem_own {w : Booking} : w ∈ s.own i ↔ (i, w) ∈ s.pending := by
  simp only [State.own, List.mem_map, List.mem_filter, decide_eq_true_eq]
  constructor
  · rintro ⟨⟨j, b⟩, ⟨hp, rfl⟩, rfl⟩
    exact hp
  · exact fun hp => ⟨(i, w), ⟨hp, rfl⟩, rfl⟩

theorem mem_own_of_mem {p : ι × Booking} (hp : p ∈ s.pending) : p.2 ∈ s.own p.1 := mem_own.2 hp

theorem Kept.owners (h : Kept resources s) {p q : ι × Booking} (hp : p ∈ s.pending) (hq : q ∈ s.pending)
    (hid : p.2.id = q.2.id) : p.1 = q.1 :=
  congrArg Prod.fst (List.inj_on_of_nodup_map h.distinct hp hq hid)

theorem Kept.nodup_own (h : Kept resources s) (i : ι) : ((s.own i).map Booking.id).Nodup := by
  rw [State.own, List.map_map]
  exact h.distinct.sublist (List.filter_sublist.map _)

/-! ### Changes of phase -/

variable {t : Table Booking} {job : Job} {b : Booking} {ph : Phase}

@[simp] theorem own_goto (ph : Phase) (j : ι) : (s.goto i ph).own j = s.own j := rfl

@[simp] theorem phase_goto_self (ph : Phase) : (s.goto i ph).phase i = ph := Function.update_self ..

theorem phase_goto_of_ne (ph : Phase) {j : ι} (h : j ≠ i) : (s.goto i ph).phase j = s.phase j :=
  Function.update_of_ne h ..

theorem claims_goto_of_ne (ph : Phase) {j : ι} (h : j ≠ i) : (s.goto i ph).claims j = s.claims j := by
  rw [State.claims, phase_goto_of_ne ph h]
  rfl

theorem claims_goto_self (ph : Phase) : (s.goto i ph).claims i = ph.claimed (s.own i) := by
  rw [State.claims, phase_goto_self]
  rfl

/-- A transaction that goes on with its job, or has written nothing yet. -/
theorem Kept.goto (h : Kept resources s) (hjob : s.own i = [] ∨ ph.job = (s.phase i).job)
    (hquiet : s.own i ≠ [] → (∃ job, ph = .closing job) ∨ ∃ c req k, ph.job = some (.series c req k))
    (hlocked : ∀ r, ph.guard resources = some r → s.locks r = some i ∧ ∀ w ∈ ph.claimed (s.own i), w.place = r)
    (hreads : ∀ p req b, ph.job = some (.move p req b) → (∀ job, ph ≠ .closing job) → Current s.table b)
    (hplanned : ∀ p req b b', ph = .saving (.move p req b) b' → Planned req b b') : Kept resources (s.goto i ph) := by
  have hsame : ∀ p ∈ s.pending, ((s.goto i ph).phase p.1).job = (s.phase p.1).job := fun p hp => by
    by_cases hi : p.1 = i
    · rw [hi, phase_goto_self]
      obtain hown | hsame := hjob
      · have hmem := mem_own_of_mem hp
        rw [hi, hown] at hmem
        cases hmem
      · exact hsame
    · rw [phase_goto_of_ne ph hi]
  refine ⟨fun j hj => ?_, fun j r hr => ?_, fun j r hr w hw => ?_, h.distinct, h.newer, fun p hp hinserts => ?_,
    fun p hp hclaims => ?_, fun j p req b hj => ?_, fun j p req b b' hj => ?_⟩
  · by_cases hi : j = i
    · subst hi
      rw [phase_goto_self]
      exact hquiet hj
    · rw [phase_goto_of_ne ph hi]
      exact h.quiet j hj
  · by_cases hi : j = i
    · subst hi
      rw [phase_goto_self] at hr
      exact (hlocked r hr).1
    · rw [phase_goto_of_ne ph hi] at hr
      exact h.locked j r hr
  · by_cases hi : j = i
    · subst hi
      rw [phase_goto_self] at hr
      rw [claims_goto_self] at hw
      exact (hlocked r hr).2 w hw
    · rw [phase_goto_of_ne ph hi] at hr
      rw [claims_goto_of_ne ph hi] at hw
      exact h.placed j r hr w hw
  · rw [hsame p hp] at hinserts
    exact h.fresh p hp hinserts
  · rw [hsame p hp] at hclaims
    exact h.echo p hp hclaims
  · by_cases hi : j = i
    · subst hi
      rw [phase_goto_self] at hj ⊢
      exact hreads p req b hj
    · rw [phase_goto_of_ne ph hi] at hj ⊢
      exact h.reads j p req b hj
  · by_cases hi : j = i
    · subst hi
      rw [phase_goto_self] at hj
      exact hplanned p req b b' hj
    · rw [phase_goto_of_ne ph hi] at hj
      exact h.planned j p req b b' hj

theorem Inv.goto (h : Inv resources s) (hkept : Kept resources (s.goto i ph))
    (hclaims : ph.claimed (s.own i) ⊆ s.claims i) : Inv resources (s.goto i ph) := by
  refine ⟨hkept, h.safe.mono fun j => ?_⟩
  by_cases hi : j = i
  · subst hi
    rw [claims_goto_self]
    exact hclaims
  · rw [claims_goto_of_ne ph hi]
    exact List.Subset.refl _

theorem Inv.asked (h : Inv resources s) (hidle : s.phase i = .idle)
    (hreads : ∀ p req b, job = .move p req b → Current s.table b) : Inv resources (s.goto i (.asked job)) := by
  have hown : s.own i = [] := by
    by_contra hne
    obtain ⟨job', hph⟩ | ⟨c, req, k, hph⟩ := h.kept.quiet i hne
    · rw [hidle] at hph
      cases hph
    · rw [hidle] at hph
      cases hph
  refine h.goto (h.kept.goto (.inl hown) (fun hne => absurd hown hne) (fun r hr => by cases hr) ?_ ?_) ?_
  · intro p req b hjob _
    exact hreads p req b (Option.some.inj hjob)
  · intro p req b b' hph
    cases hph
  · rw [hown, Phase.claimed]
    split
    · exact List.nil_subset _
    · exact List.nil_subset _

/-! ### Checks -/

theorem Kept.own_eq_nil (h : Kept resources s) (hjob : (s.phase i).job = some job)
    (hphase : ∀ job', s.phase i ≠ .closing job') (hseries : ∀ c req k, job ≠ .series c req k) : s.own i = [] := by
  by_contra hne
  obtain ⟨job', hph⟩ | ⟨c, req, k, hph⟩ := h.quiet i hne
  · exact hphase job' hph
  · exact hseries c req k (Option.some.inj (hjob.symm.trans hph))

theorem updated_cases {check : ValidationInput → Except CallError ValidationResult} {req : UpdateRequest}
    {b' : Booking} (h : updated check req b = .ok b') : Planned req b b' ∧ ∀ window, req.newWindow b = some window →
      (∃ vres, check (moveInput b window) = .ok vres) ∧ b'.startTime = window.1 ∧ b'.endTime = window.2 := by
  simp only [updated, bind_eq_ok] at h
  obtain ⟨_, -, h⟩ := h
  cases hwindow : req.newWindow b with
  | none =>
    simp only [hwindow, pure_eq_ok] at h
    subst h
    exact ⟨⟨rfl, rfl, rfl, fun _ => rfl⟩, fun window hw => by cases hw⟩
  | some window =>
    simp only [hwindow, bind_eq_ok, pure_eq_ok] at h
    obtain ⟨_, -, vres, hcheck, rfl⟩ := h
    refine ⟨⟨rfl, rfl, rfl, fun hnone => by rw [hwindow] at hnone; cases hnone⟩, fun w hw => ?_⟩
    obtain rfl := Option.some.inj hw
    exact ⟨⟨vres, hcheck⟩, rfl, rfl⟩

theorem eq_of_lockOf {p : Policy} {k r : Uuid} (h : lockOf resources p k = some r) : k = r := by
  unfold lockOf at h
  split at h
  · exact Option.some.inj h
  · cases h

theorem resourceId_of_plan {r : Uuid} (hplan : job.plan resources t = .ok b) (hlock : job.lock resources = some r) :
    b.resourceId = r := by
  cases job with
  | create c req id =>
    simp only [Job.plan, bind_eq_ok, pure_eq_ok] at hplan
    obtain ⟨_, -, _, -, vres, -, rfl⟩ := hplan
    exact eq_of_lockOf hlock
  | move p req b₀ =>
    simp only [Job.lock] at hlock
    split at hlock
    · rw [(updated_cases hplan).1.resource]
      exact eq_of_lockOf hlock
    · cases hlock
  | series => cases hplan

theorem noConflict_of_plan (hplan : job.plan resources t = .ok b) (hasks : job.asksRelatives resources = true) :
    hasConflict resources t b.resourceId b.startTime b.endTime = false := by
  cases job with
  | create c req id =>
    simp only [Job.plan, bind_eq_ok, pure_eq_ok] at hplan
    obtain ⟨_, -, _, -, vres, hvalidate, rfl⟩ := hplan
    exact noConflict_of_validate hvalidate (Option.isNone_iff_eq_none.1 hasks) rfl
  | move p req b₀ => cases hasks
  | series => cases hplan

theorem room_of_plan {r : Uuid} (hplan : job.plan resources t = .ok b) (hlock : job.lock resources = some r) {n : ℤ}
    (hn : capacityOf resources r = some n) : (((t.rows.map slot).countP (slot b).rivals : ℕ) : ℤ) < n := by
  cases job with
  | create c req id =>
    simp only [Job.plan, bind_eq_ok, pure_eq_ok] at hplan
    obtain ⟨_, -, _, -, vres, hvalidate, rfl⟩ := hplan
    have hcount := (room_of_validate hvalidate hlock).2 n hn
    have hle := countP_rivals_le (t := t) (b := newBooking c id req vres) (.inl rfl)
    exact lt_of_le_of_lt (Int.ofNat_le.2 hle) hcount
  | move p req b₀ =>
    obtain ⟨hplanned, hwindow⟩ := updated_cases hplan
    simp only [Job.lock] at hlock
    split at hlock
    · rename_i hsome
      obtain ⟨window, hw⟩ := Option.isSome_iff_exists.1 hsome
      obtain ⟨⟨vres, hvalidate⟩, hstart, hfinish⟩ := hwindow window hw
      have hcount := (room_of_validate hvalidate hlock).2 n hn
      have hle := countP_rivals_le (t := t) (b := b) (.inr rfl)
      rw [hplanned.resource, hplanned.id, hstart, hfinish] at hle
      exact lt_of_le_of_lt (Int.ofNat_le.2 hle) hcount
    · cases hlock
  | series => cases hplan

/-- A window is claimed by a check that stays valid. -/
theorem Inv.claim (h : Inv resources s) (hphase : s.phase i = .asked job) (hclaims : job.claims = true)
    (hvalid : StaysValid resources s i job b)
    (hlock : ∀ r, job.lock resources = some r → s.locks r = some i ∧ b.resourceId = r)
    (hown : ∀ w ∈ s.own i, Related resources b.resourceId w.resourceId ∨ w.resourceId = b.resourceId → (slot b).clashes (slot w) = false)
    (hrelatives : ∀ y ∈ s.table.rows, Related resources b.resourceId y.resourceId → (slot b).clashes (slot y) = false)
    (hroom : ∀ n, capacityOf resources b.resourceId = some n → (((s.table.rows.map slot).countP (slot b).rivals : ℕ) : ℤ) < n) :
    Safe (Related resources) (capacityOf resources) (s.table.rows.map slot) (s.goto i (.saving job b)).claims := by
  have hbefore : s.claims i = (s.own i).map slot := by
    rw [State.claims, hphase, Phase.claimed, if_pos (by simpa [Phase.job] using hclaims), Phase.next, List.append_nil]
  have hafter : (s.goto i (.saving job b)).claims i = (s.own i).map slot ++ [slot b] := by
    rw [claims_goto_self, Phase.claimed, if_pos (by simpa [Phase.job] using hclaims), Phase.next, List.map_append]
    rfl
  refine h.safe.claim (w := slot b) related_symm (fun j x hx => ?_) (fun x hx hrelated => ?_)
    (fun j x hx hrelated => ?_) (fun hcap j x hx => ?_) fun _ n hn => hroom n hn
  · by_cases hi : j = i
    · subst hi
      rw [hafter, List.mem_append, List.mem_singleton] at hx
      rw [hbefore]
      exact hx
    · rw [claims_goto_of_ne _ hi] at hx
      exact .inl hx
  · obtain ⟨y, hy, rfl⟩ := List.mem_map.1 hx
    exact hrelatives y hy hrelated
  · by_cases hi : j = i
    · subst hi
      rw [hbefore] at hx
      obtain ⟨w, hw, rfl⟩ := List.mem_map.1 hx
      exact hown w hw (.inl hrelated)
    · exact hvalid.alone j hi x hx hrelated
  · by_contra hrival
    rw [Bool.not_eq_false] at hrival
    by_cases hi : j = i
    · subst hi
      rw [hbefore] at hx
      obtain ⟨w, hw, rfl⟩ := List.mem_map.1 hx
      obtain ⟨hplace, hclash⟩ := rivals_slot.1 hrival
      rw [hown w hw (.inr hplace)] at hclash
      cases hclash
    · -- both would hold the lock of the resource
      obtain ⟨hmine, htheirs⟩ := hvalid.shared j hi x hx hcap hrival
      obtain ⟨r, hr⟩ := Option.isSome_iff_exists.1 hmine
      obtain ⟨r', hr'⟩ := Option.isSome_iff_exists.1 htheirs
      rw [Slot.rivals, Bool.and_eq_true, decide_eq_true_eq] at hrival
      have hsame : r' = r := by
        rw [← h.kept.placed j r' hr' x hx, hrival.1]
        exact (hlock r hr).2
      have hheld := h.kept.locked j r' hr'
      rw [hsame, (hlock r hr).1] at hheld
      exact hi (Option.some.inj hheld).symm

theorem inv_check (h : Inv resources s) (hfair : Fair resources s (.check i)) :
    Inv resources (step resources s (.check i)) := by
  simp only [step]
  split
  · exact h
  · rename_i job hnot hphase
    have hjob : (s.phase i).job = some job := by rw [hphase]; rfl
    have hown : s.own i = [] := h.kept.own_eq_nil hjob (fun job' hph => by rw [hphase] at hph; cases hph)
      hnot
    have hview : s.view i = s.table := by rw [State.view, hown]; rfl
    split
    · rename_i hready
      have hheld : ∀ r, job.lock resources = some r → s.locks r = some i := fun r hr => by
        simpa [State.ready, hr] using hready
      cases hplan : job.plan resources (s.view i) with
      | ok b =>
        have hreads : ∀ p req b₀, job = .move p req b₀ → Current s.table b₀ := fun p req b₀ heq =>
          h.kept.reads i p req b₀ (by rw [hjob, heq]) fun job' hph => by rw [hphase] at hph; cases hph
        have hlock : ∀ r, job.lock resources = some r → s.locks r = some i ∧ b.resourceId = r := fun r hr =>
          ⟨hheld r hr, resourceId_of_plan hplan hr⟩
        have hkept : Kept resources (s.goto i (.saving job b)) := by
          refine h.kept.goto (.inl hown) (fun hne => absurd hown hne) (fun r hr => ⟨(hlock r hr).1, fun w hw => ?_⟩)
            (fun p req b₀ heq _ => hreads p req b₀ (Option.some.inj heq)) fun p req b₀ b' heq => ?_
          · rw [hown, Phase.claimed] at hw
            split at hw
            · obtain rfl := List.mem_singleton.1 hw
              exact (hlock r hr).2
            · cases hw
          · obtain ⟨rfl, rfl⟩ := Phase.saving.inj heq
            exact (updated_cases hplan).1
        rw [hview] at hplan
        by_cases hclaims : job.claims = true
        · have hvalid := hfair job b hphase hready (by rw [hview]; exact hplan) hclaims
          refine ⟨hkept, h.claim hphase hclaims hvalid hlock (fun w hw => ?_) (fun y hy hrelated => ?_) fun n hn => ?_⟩
          · rw [hown] at hw
            cases hw
          · cases hasks : job.asksRelatives resources with
            | true => exact clear_of_noConflict (noConflict_of_plan hplan hasks) hy (.inl hrelated)
            | false => exact hvalid.free hasks y hy hrelated
          · cases hr : job.lock resources with
            | some r =>
              rw [(hlock r hr).2] at hn
              exact room_of_plan hplan hr hn
            | none =>
              cases hasks : job.asksRelatives resources with
              | true =>
                rw [countP_rivals_eq_zero fun y hy hplace =>
                  clear_of_noConflict (noConflict_of_plan hplan hasks) hy (.inr hplace)]
                exact capacity_pos hn
              | false => exact hvalid.place hr hasks n hn
        · refine h.goto hkept ?_
          rw [Phase.claimed, if_neg (by simpa [Phase.job] using hclaims)]
          exact List.nil_subset _
      | error e =>
        have hnone : (Phase.closing job).claimed (s.own i) = [] := by
          rw [hown, Phase.claimed]
          exact ite_self _
        refine h.goto (h.kept.goto (.inl hown) (fun hne => absurd hown hne) (fun r hr => ⟨hheld r hr, fun w hw => ?_⟩)
          (fun p req b₀ _ hph => absurd rfl (hph job)) fun p req b₀ b' heq => by cases heq) ?_
        · rw [hnone] at hw
          cases hw
        · rw [hnone]
          exact List.nil_subset _
    · exact h
  · exact h

theorem inv_occurrence (h : Inv resources s) {id : Uuid} {occ : Occurrence}
    (hfair : Fair resources s (.occurrence i id occ)) : Inv resources (step resources s (.occurrence i id occ)) := by
  simp only [step]
  split
  · rename_i c req seriesId hphase
    split
    · exact h
    · rename_i hconflict
      have hfree : hasConflict resources (s.view i) req.resourceId occ.start occ.finish = false :=
        Bool.eq_false_of_not_eq_true hconflict
      have hvalid := hfair c req seriesId hphase hfree
      -- the rows of the series are new, so they hide no committed one
      have hvisible : ∀ y ∈ s.table.rows, y ∈ (s.view i).rows := fun y hy => mem_overlay hy fun w hw heq =>
        h.kept.fresh (i, w) (mem_own.1 hw) (by rw [hphase]; rfl) y hy heq.symm
      have hkept : Kept resources (s.goto i (.saving (.series c req seriesId)
          (occurrenceBooking c seriesId req id occ))) := by
        refine h.kept.goto (.inr (by rw [hphase]; rfl)) (fun _ => .inr ⟨c, req, seriesId, rfl⟩)
          (fun r hr => by cases hr) (fun p req' b heq => by cases heq) fun p req' b b' heq => by cases heq
      refine ⟨hkept, h.claim hphase rfl hvalid (fun r hr => by cases hr) (fun w hw hplace => ?_)
        (fun y hy hrelated => ?_) fun n hn => ?_⟩
      · exact clear_of_noConflict (b := occurrenceBooking c seriesId req id occ) hfree
          (mem_overlay_of_mem hw (h.kept.nodup_own i)) hplace
      · exact clear_of_noConflict (b := occurrenceBooking c seriesId req id occ) hfree (hvisible y hy) (.inl hrelated)
      · rw [countP_rivals_eq_zero fun y hy hplace => clear_of_noConflict
          (b := occurrenceBooking c seriesId req id occ) hfree (hvisible y hy) (.inr hplace)]
        exact capacity_pos hn
  · exact h

theorem inv_lock (h : Inv resources s) : Inv resources (step resources s (.lock i)) := by
  simp only [step]
  split
  · split
    · split
      · rename_i r _ hfree
        refine ⟨?_, h.safe⟩
        exact { h.kept with
          locked := fun j k hk => by
            have hheld := h.kept.locked j k hk
            by_cases hkr : k = r
            · rw [hkr, hfree] at hheld
              cases hheld
            · exact (Function.update_of_ne hkr ..).trans hheld }
      · exact h
    · exact h
  · exact h

/-! ### Saves -/

theorem slot_written (h : ∀ r, t.find? b.id = some r → r.resourceId = b.resourceId) : slot (written t b) = slot b := by
  unfold written
  split
  · rename_i r hr
    have hid : r.id = b.id := Table.key_of_find? hr
    simp only [slot, Booking.overwrite, hid, h r hr, Booking.active]
  · rfl

/-- What is known of a row that is about to be saved and need not wait. -/
structure Writes (s : State ι) (i : ι) (job : Job) (b w : Booking) : Prop where
  id : w.id = b.id
  slot : slot w = slot b
  newer : ∀ r ∈ s.table.rows, r.id = w.id → r.resourceId = w.resourceId ∧ r.version < w.version
  fresh : job.inserts = true → ∀ r ∈ s.table.rows, r.id ≠ w.id
  echo : job.claims = false → ∃ r ∈ s.table.rows, CompositeRooms.slot r = CompositeRooms.slot w
  others : ∀ q ∈ s.pending, q.2.id ≠ w.id

theorem Kept.writes (h : Kept resources s) (hphase : s.phase i = .saving job b) (hwaits : s.waits i job b = false)
    {admitted : Bool} (hsave : save (fun _ => admitted) (s.view i) b = .ok t) :
    Writes s i job b (written (s.view i) b) := by
  simp only [State.waits, Bool.or_eq_false_iff, Bool.and_eq_false_iff] at hwaits
  obtain ⟨hothers, hnew⟩ := hwaits
  have hforeign : ∀ q ∈ s.pending, q.1 ≠ i → q.2.id ≠ b.id := fun q hq hne heq => by
    have hany := List.any_eq_false.1 hothers q hq
    simp [hne, heq] at hany
  cases hinserts : job.inserts with
  | true =>
    -- an insert: no row that the transaction sees has the id
    have hnone : ∀ y ∈ (s.view i).rows, y.id ≠ b.id := by
      rw [hinserts] at hnew
      have hfind : (s.view i).find? b.id = none := by simpa using hnew
      exact Table.find?_eq_none_iff.1 hfind
    have hfind : (s.view i).find? b.id = none := Table.find?_eq_none_iff.2 hnone
    have hw : written (s.view i) b = b.inserted := by rw [written, hfind]
    have habsent : ∀ r ∈ s.table.rows, r.id ≠ b.id := fun r hr heq => by
      obtain ⟨y, hy, hid, -⟩ := exists_overlay (s.own i) hr
      exact hnone y hy (hid.trans heq)
    rw [hw]
    refine ⟨rfl, rfl, fun r hr heq => absurd heq (habsent r hr), fun _ => habsent, fun hclaims => ?_,
      fun q hq heq => ?_⟩
    · cases job with
      | create => cases hclaims
      | series => cases hclaims
      | move => cases hinserts
    · by_cases hi : q.1 = i
      · exact hnone q.2 (mem_overlay_of_mem (hi ▸ mem_own_of_mem hq) (h.nodup_own i)) heq
      · exact hforeign q hq hi heq
  | false =>
    cases job with
    | create => cases hinserts
    | series => cases hinserts
    | move p req b₀ =>
      have hnotclosing : ∀ job, s.phase i ≠ .closing job := fun job hph => by rw [hphase] at hph; cases hph
      have hjob : (s.phase i).job = some (.move p req b₀) := by rw [hphase]; rfl
      have hown : s.own i = [] := h.own_eq_nil hjob hnotclosing fun _ _ _ heq => by cases heq
      have hview : s.view i = s.table := by rw [State.view, hown]; rfl
      obtain ⟨r, hr, hid, hresource, hle, hsame⟩ := h.reads i p req b₀ hjob hnotclosing
      have hplanned := h.planned i p req b₀ b hphase
      have hfind : (s.view i).find? b.id = some r := by
        rw [hview, hplanned.id, ← hid]
        exact Table.find?_of_mem hr
      have hw : written (s.view i) b = r.overwrite b := by rw [written, hfind]
      have hslot : slot (written (s.view i) b) = slot b := slot_written fun r' hr' => by
        obtain rfl := Option.some.inj (hfind.symm.trans hr')
        rw [hresource, hplanned.resource]
      rw [hw] at hslot ⊢
      refine ⟨hid.trans hplanned.id.symm, hslot, fun r' hr' heq => ?_, (fun hnew => by cases hnew),
        fun hclaims => ⟨r, hr, ?_⟩, fun q hq heq => ?_⟩
      · obtain rfl : r' = r := Table.eq_of_key hr' hr heq
        exact ⟨rfl, Nat.lt_succ_self _⟩
      · -- a `Save` that goes through writes over the row that was read
        obtain ⟨-, ⟨r', hr', hversion, -⟩ | ⟨hnone, -⟩⟩ := save_cases hsave
        · obtain rfl := Option.some.inj (hfind.symm.trans hr')
          rw [hslot, hplanned.window hclaims, hsame (hversion.trans hplanned.version)]
        · rw [hfind] at hnone
          cases hnone
      · by_cases hi : q.1 = i
        · have hmem := mem_own_of_mem hq
          rw [hi, hown] at hmem
          cases hmem
        · exact hforeign q hq hi (heq.trans (hid.trans hplanned.id.symm))

@[simp] theorem job_afterSave (job : Job) : job.afterSave.job = some job := by cases job <;> rfl

theorem claimed_afterSave (job : Job) (b w : Booking) (own : List Booking) (hw : slot w = slot b) :
    job.afterSave.claimed (own ++ [w]) = (Phase.saving job b).claimed own := by
  have hnext : job.afterSave.next = [] := by cases job <;> rfl
  rw [Phase.claimed, Phase.claimed, job_afterSave, hnext, List.append_nil]
  simp only [Phase.job, Phase.next, List.map_append, List.map_singleton, hw]

/-- The state after a `Save` that went through. -/
theorem Inv.save_ok (h : Inv resources s) {w : Booking} (hphase : s.phase i = .saving job b) (hw : Writes s i job b w) :
    Inv resources { s.goto i job.afterSave with pending := s.pending ++ [(i, w)] } := by
  set s' : State ι := { s.goto i job.afterSave with pending := s.pending ++ [(i, w)] } with hs'
  have hown : s'.own i = s.own i ++ [w] := by simp [hs', State.own, List.filter_append, State.goto]
  have hown_ne : ∀ j, j ≠ i → s'.own j = s.own j := fun j hj => by
    simp [hs', State.own, List.filter_append, State.goto, Ne.symm hj]
  have hphase_self : s'.phase i = job.afterSave := phase_goto_self job.afterSave
  have hphase_ne : ∀ j, j ≠ i → s'.phase j = s.phase j := fun j hj => phase_goto_of_ne job.afterSave hj
  have hjob : ∀ j, (s'.phase j).job = (s.phase j).job := fun j => by
    by_cases hi : j = i
    · rw [hi, hphase_self, hphase, job_afterSave]
      rfl
    · rw [hphase_ne j hi]
  have hclaims : ∀ j, s'.claims j = s.claims j := fun j => by
    by_cases hi : j = i
    · rw [hi, State.claims, State.claims, hphase_self, hphase, hown]
      exact claimed_afterSave job b w _ hw.slot
    · rw [State.claims, State.claims, hphase_ne j hi, hown_ne j hi]
  have hguard : ∀ j r, (s'.phase j).guard resources = some r → (s.phase j).guard resources = some r := fun j r hr => by
    by_cases hi : j = i
    · rw [hi, hphase_self] at hr
      rw [hi, hphase]
      cases job with
      | create => exact hr
      | move => exact hr
      | series => cases hr
    · rwa [hphase_ne j hi] at hr
  have hpending : ∀ p ∈ s'.pending, p ∈ s.pending ∨ p = (i, w) := fun p hp => by
    simpa [hs'] using hp
  refine ⟨⟨fun j hj => ?_, fun j r hr => h.kept.locked j r (hguard j r hr), fun j r hr x hx => ?_, ?_, fun p hp => ?_,
    fun p hp hinserts => ?_, fun p hp hnone => ?_, fun j p req b₀ hmove hnot => ?_, fun j p req b₀ b' hsaving => ?_⟩,
    h.safe.mono fun j => by rw [hclaims]; exact List.Subset.refl _⟩
  · by_cases hi : j = i
    · rw [hi, hphase_self]
      cases job with
      | create => exact .inl ⟨_, rfl⟩
      | move => exact .inl ⟨_, rfl⟩
      | series => exact .inr ⟨_, _, _, rfl⟩
    · rw [hown_ne j hi] at hj
      rw [hphase_ne j hi]
      exact h.kept.quiet j hj
  · rw [hclaims] at hx
    exact h.kept.placed j r (hguard j r hr) x hx
  · rw [hs', List.map_append, List.nodup_append]
    refine ⟨h.kept.distinct, by simp, fun k hk k' hk' => ?_⟩
    obtain ⟨q, hq, rfl⟩ := List.mem_map.1 hk
    rw [List.map_singleton, List.mem_singleton] at hk'
    rw [hk']
    exact hw.others q hq
  · obtain hp | rfl := hpending p hp
    · exact h.kept.newer p hp
    · exact hw.newer
  · rw [hjob] at hinserts
    obtain hp | rfl := hpending p hp
    · exact h.kept.fresh p hp hinserts
    · exact hw.fresh (by simpa [hphase, Phase.job] using hinserts)
  · rw [hjob] at hnone
    obtain hp | rfl := hpending p hp
    · exact h.kept.echo p hp hnone
    · exact hw.echo (by simpa [hphase, Phase.job] using hnone)
  · rw [hjob] at hmove
    by_cases hi : j = i
    · -- an update that has been saved is about to close
      rw [hi, hphase] at hmove
      obtain rfl := Option.some.inj hmove
      exact absurd (hi ▸ hphase_self) (hnot _)
    · rw [hphase_ne j hi] at hnot
      exact h.kept.reads j p req b₀ hmove hnot
  · by_cases hi : j = i
    · rw [hi, hphase_self] at hsaving
      cases job with
      | create => cases hsaving
      | move => cases hsaving
      | series => cases hsaving
    · rw [hphase_ne j hi] at hsaving
      exact h.kept.planned j p req b₀ b' hsaving

/-! ### The end of a transaction -/

/-- The rows of a transaction are gone from the pending ones, into the table or not at all. -/
theorem Kept.ended (h : Kept resources s) (s' : State ι)
    (hpending : s'.pending = s.pending.filter fun p => decide (p.1 ≠ i)) (hself : s'.phase i = ph)
    (hne : ∀ j, j ≠ i → s'.phase j = s.phase j) (hph : ph = .over ∨ ∃ job, ph = .closing job)
    (hlocks : ∀ j r, j ≠ i → s.locks r = some j → s'.locks r = some j)
    (hguard : ∀ r, ph.guard resources = some r → s'.locks r = some i)
    (hback : ∀ r ∈ s'.table.rows, r ∈ s.table.rows ∨ r ∈ s.own i)
    (hstay : ∀ r ∈ s.table.rows, ∃ y ∈ s'.table.rows, y.id = r.id ∧ (y = r ∨ y ∈ s.own i)) :
    Kept resources s' ∧ ∀ j, s'.claims j ⊆ s.claims j := by
  have hmem : ∀ p ∈ s'.pending, p ∈ s.pending ∧ p.1 ≠ i := fun p hp => by
    rw [hpending, List.mem_filter, decide_eq_true_eq] at hp
    exact hp
  have hown : s'.own i = [] := List.eq_nil_iff_forall_not_mem.2 fun w hw => (hmem _ (mem_own.1 hw)).2 rfl
  have hown_ne : ∀ j, j ≠ i → s'.own j = s.own j := fun j hj => by
    rw [State.own, hpending, List.filter_filter]
    refine congrArg (List.map Prod.snd) (List.filter_congr fun p _ => ?_)
    by_cases hp : p.1 = j
    · simp [hp, hj]
    · simp [hp]
  have hclaims : s'.claims i = [] := by
    rw [State.claims, hself, hown, Phase.claimed]
    obtain rfl | ⟨job, rfl⟩ := hph
    · exact ite_self _
    · exact ite_self _
  have hclaims_ne : ∀ j, j ≠ i → s'.claims j = s.claims j := fun j hj => by
    rw [State.claims, State.claims, hne j hj, hown_ne j hj]
  -- what another transaction has written under the id of a row is newer than the row
  have hforeign : ∀ p ∈ s'.pending, ∀ r ∈ s'.table.rows, r.id = p.2.id → r ∈ s.table.rows := fun p hp r hr heq => by
    obtain hr | hr := hback r hr
    · exact hr
    · exact absurd (h.owners (mem_own.1 hr) (hmem p hp).1 heq).symm (hmem p hp).2
  refine ⟨⟨fun j hj => ?_, fun j r hr => ?_, fun j r hr x hx => ?_, ?_, fun p hp r hr heq => ?_,
    fun p hp hinserts r hr heq => ?_, fun p hp hnone => ?_, fun j p req b hmove hnot => ?_,
    fun j p req b b' hsaving => ?_⟩, fun j => ?_⟩
  · by_cases hi : j = i
    · rw [hi] at hj
      exact absurd hown hj
    · rw [hown_ne j hi] at hj
      rw [hne j hi]
      exact h.quiet j hj
  · by_cases hi : j = i
    · rw [hi, hself] at hr
      rw [hi]
      exact hguard r hr
    · rw [hne j hi] at hr
      exact hlocks j r hi (h.locked j r hr)
  · by_cases hi : j = i
    · rw [hi, hclaims] at hx
      cases hx
    · rw [hne j hi] at hr
      rw [hclaims_ne j hi] at hx
      exact h.placed j r hr x hx
  · rw [hpending]
    exact h.distinct.sublist (List.filter_sublist.map _)
  · exact h.newer p (hmem p hp).1 r (hforeign p hp r hr heq) heq
  · rw [hne p.1 (hmem p hp).2] at hinserts
    exact h.fresh p (hmem p hp).1 hinserts r (hforeign p hp r hr heq) heq
  · rw [hne p.1 (hmem p hp).2] at hnone
    obtain ⟨r, hr, hslot⟩ := h.echo p (hmem p hp).1 hnone
    obtain ⟨y, hy, hid, rfl | hown⟩ := hstay r hr
    · exact ⟨y, hy, hslot⟩
    · have hsame : y.id = p.2.id := hid.trans (congrArg Slot.id hslot)
      exact absurd (h.owners (mem_own.1 hown) (hmem p hp).1 hsame).symm (hmem p hp).2
  · by_cases hi : j = i
    · rw [hi, hself] at hmove hnot
      obtain rfl | ⟨job, rfl⟩ := hph
      · cases hmove
      · exact absurd rfl (hnot job)
    · rw [hne j hi] at hmove hnot
      obtain ⟨r, hr, hid, hresource, hle, hsame⟩ := h.reads j p req b hmove hnot
      obtain ⟨y, hy, hid', rfl | hown⟩ := hstay r hr
      · exact ⟨y, hy, hid, hresource, hle, hsame⟩
      · obtain ⟨hresource', hlt⟩ := h.newer (i, y) (mem_own.1 hown) r hr hid'.symm
        refine ⟨y, hy, hid'.trans hid, hresource'.symm.trans hresource, le_of_lt (lt_of_le_of_lt hle hlt),
          fun heq => ?_⟩
        rw [heq] at hlt
        exact absurd hle (not_le.2 hlt)
  · by_cases hi : j = i
    · rw [hi, hself] at hsaving
      obtain rfl | ⟨job, rfl⟩ := hph
      · cases hsaving
      · cases hsaving
    · rw [hne j hi] at hsaving
      exact h.planned j p req b b' hsaving
  · by_cases hi : j = i
    · rw [hi, hclaims]
      exact List.nil_subset _
    · rw [hclaims_ne j hi]
      exact List.Subset.refl _

omit [DecidableEq ι] in
theorem safe_overlay {claims : ι → List (Slot Uuid Uuid Instant)} {ws : List Booking}
    (h : Safe (Related resources) (capacityOf resources) (t.rows.map slot) claims)
    (hws : (∀ w ∈ ws, slot w ∈ claims i) ∨ ∀ w ∈ ws, slot w ∈ t.rows.map slot) :
    Safe (Related resources) (capacityOf resources) ((ws.foldl Table.put t).rows.map slot) claims := by
  induction ws generalizing t with
  | nil => exact h
  | cons w ws ih =>
    obtain hclaimed | hecho := hws
    · refine ih ?_ (.inl fun x hx => hclaimed x (List.mem_cons_of_mem w hx))
      rw [map_slot_put]
      exact h.put related_symm (hclaimed w List.mem_cons_self)
    · have hnodup : ((t.rows.map slot).map Slot.id).Nodup := by
        rw [List.map_map]
        exact t.nodup
      have hperm := put_perm (hecho w List.mem_cons_self) hnodup
      refine ih ?_ (.inr fun x hx => ?_)
      · rw [map_slot_put]
        exact h.perm hperm
      · rw [map_slot_put]
        exact hperm.symm.subset (hecho x (List.mem_cons_of_mem w hx))

theorem locks_finish {commits : Bool} {j : ι} {r : Uuid} (hj : j ≠ i) (hr : s.locks r = some j) :
    (s.finish i commits).locks r = some j := by
  have hne : s.locks r ≠ some i := fun heq => hj (Option.some.inj (hr.symm.trans heq))
  exact (if_neg hne).trans hr

theorem Inv.rollback (h : Inv resources s) : Inv resources (s.finish i false) := by
  obtain ⟨hkept, hclaims⟩ := h.kept.ended (s.finish i false) rfl (Function.update_self ..)
    (fun j hj => Function.update_of_ne hj ..) (.inl rfl) (fun j r => locks_finish) (fun r hr => by cases hr)
    (fun r hr => .inl hr) fun r hr => ⟨r, hr, rfl, .inl rfl⟩
  exact ⟨hkept, h.safe.mono hclaims⟩

theorem Inv.commit (h : Inv resources s) (hphase : (∃ job, s.phase i = .closing job) ∨ ∃ job, s.phase i = .asked job) :
    Inv resources (s.finish i true) := by
  obtain ⟨hkept, hclaims⟩ := h.kept.ended (s.finish i true) rfl (Function.update_self ..)
    (fun j hj => Function.update_of_ne hj ..) (.inl rfl) (fun j r => locks_finish) (fun r hr => by cases hr)
    (fun r hr => mem_of_mem_overlay hr) fun r hr => exists_overlay (s.own i) hr
  have hnext : (s.phase i).next = [] := by
    obtain ⟨job, hph⟩ | ⟨job, hph⟩ := hphase
    · rw [hph]; rfl
    · rw [hph]; rfl
  refine ⟨hkept, (safe_overlay (i := i) h.safe ?_).mono hclaims⟩
  cases hjob : (s.phase i).job.any Job.claims with
  | true =>
    refine .inl fun w hw => ?_
    rw [State.claims, Phase.claimed, if_pos hjob, hnext, List.append_nil]
    exact List.mem_map_of_mem hw
  | false =>
    refine .inr fun w hw => ?_
    obtain ⟨r, hr, hslot⟩ := h.kept.echo (i, w) (mem_own.1 hw) hjob
    exact List.mem_map.2 ⟨r, hr, hslot⟩

theorem Inv.save_error (h : Inv resources s) (hphase : s.phase i = .saving job b) :
    Inv resources { s.goto i (.closing job) with pending := s.pending.filter fun p => decide (p.1 ≠ i) } := by
  obtain ⟨hkept, hclaims⟩ := h.kept.ended
    { s.goto i (.closing job) with pending := s.pending.filter fun p => decide (p.1 ≠ i) } rfl
    (phase_goto_self (.closing job)) (fun j hj => phase_goto_of_ne (.closing job) hj) (.inr ⟨job, rfl⟩)
    (fun j r _ hr => hr) (fun r hr => h.kept.locked i r (by rw [hphase]; exact hr)) (fun r hr => .inl hr)
    fun r hr => ⟨r, hr, rfl, .inl rfl⟩
  exact ⟨hkept, h.safe.mono hclaims⟩

theorem inv_save (h : Inv resources s) {admitted : Bool} : Inv resources (step resources s (.save i admitted)) := by
  simp only [step]
  split
  · rename_i job b hphase
    split
    · exact h
    · rename_i hwaits
      rw [State.saved]
      split
      · rename_i hsave
        exact h.save_ok hphase (h.kept.writes hphase (Bool.eq_false_of_not_eq_true hwaits) hsave)
      · exact h.save_error hphase
  · exact h

/-- **One step.** -/
theorem inv_step (h : Inv resources s) (e : Event ι) (hfair : Fair resources s e) :
    Inv resources (step resources s e) := by
  cases e with
  | create i c req id =>
    simp only [step]
    split
    · rename_i hidle
      exact h.asked hidle fun _ _ _ heq => by cases heq
    · exact h
  | read i p req =>
    simp only [step]
    split
    · rename_i b hidle hfind
      refine h.asked hidle fun p' req' b' heq => ?_
      obtain ⟨-, -, rfl⟩ := Job.move.inj heq
      exact ⟨b, Table.mem_of_find? hfind, rfl, rfl, le_rfl, fun _ => rfl⟩
    · exact h
  | expand i c req seriesId =>
    simp only [step]
    split
    · rename_i hidle
      exact h.asked hidle fun _ _ _ heq => by cases heq
    · exact h
  | lock i => exact inv_lock h
  | check i => exact inv_check h hfair
  | occurrence i id occ => exact inv_occurrence h hfair
  | save i admitted => exact inv_save h
  | commit i =>
    simp only [step]
    split
    · rename_i job hphase
      exact h.commit (.inl ⟨job, hphase⟩)
    · rename_i hphase
      exact h.commit (.inr ⟨_, hphase⟩)
    · exact h
  | rollback i => exact h.rollback

theorem inv_init (h : NeverDoubleBooked resources t) : Inv resources ({ table := t } : State ι) where
  kept :=
    { quiet := fun i hi => absurd rfl hi
      locked := fun i r hr => by cases hr
      placed := fun i r hr => by cases hr
      distinct := List.nodup_nil
      newer := fun p hp => by cases hp
      fresh := fun p hp => by cases hp
      echo := fun p hp => by cases hp
      reads := fun i p req b hb => by cases hb
      planned := fun i p req b b' hb => by cases hb }
  safe := (neverDoubleBooked_iff.1 h).safe fun i => rfl

/-- **Composite rooms are never double-booked**, in every interleaving of creations, updates and series in which every
check stays valid: every committed state that is reached keeps the rooms apart, and no shared room is overbooked. -/
theorem rooms_kept {t : Table Booking} (h : NeverDoubleBooked resources t) (es : List (Event ι))
    (hfair : AllSteps (step resources) (Fair resources) { table := t } es) :
    NeverDoubleBooked resources (run (step resources) { table := t } es).table := by
  have hinv : Inv resources (run (step resources) { table := t } es) :=
    run_invariant (C := Fair resources) (fun s e hs hC => inv_step hs e hC) (inv_init h) hfair
  exact neverDoubleBooked_iff.2 hinv.safe.sound

/-! ### A hall with a part, and a pod -/

def rooms : Table Resource :=
  ⟨[{ id := "hall", tenantId := "t1" }, { id := "east", tenantId := "t1", parentResourceId := some "hall" },
    { id := "pod", tenantId := "t1", bookingMode := .shared }], by decide⟩

def calmPolicy : Policy where
  strings := { equalFold := fun a b => a == b, toUpper := fun s => s, trimSpace := fun s => s }
  user := fun _ => none
  groups := fun _ => none
  isDateHoliday := fun _ => .ok false

def office : CreateSetup where
  admits := fun _ => true
  admitsLine := fun _ => true
  admitsStep := fun _ => true
  policy := calmPolicy
  resources := rooms
  rules := fun _ => []
  now := 0

/-- The request of a room for one hour. -/
def anHour (room : Uuid) (hour : ℤ) : CreateRequest where
  tenantId := "t1"
  resourceId := room
  userId := "u1"
  start := hour * 3600000
  finish := (hour + 1) * 3600000

def sideBySide (hour hour' : ℤ) : List (Event Bool) :=
  [.create false office (anHour "hall" hour) "b1", .create true office (anHour "east" hour') "b2", .check false,
    .check true, .save false true, .save true true, .commit false, .commit true]

theorem neverDoubleBooked_empty : NeverDoubleBooked rooms .empty :=
  ⟨fun _ _ _ _ _ ha => (by cases ha), fun r _ _ _ => le_of_lt (cap_pos r)⟩

theorem staysValid_of_apart {s : State Bool} {i : Bool} (hasks : job.asksRelatives rooms = true)
    (h : ((s.claims !i).all fun w => !(slot b).clashes w) = true) : StaysValid rooms s i job b := by
  have hother : ∀ j, j ≠ i → ∀ w ∈ s.claims j, (slot b).clashes w = false := fun j hj w hw => by
    have hclash := List.all_eq_true.1 h w (Bool.eq_not_of_ne hj ▸ hw)
    simpa using hclash
  refine ⟨fun j hj w hw _ => hother j hj w hw, fun j hj w hw _ hrival => ?_, fun hnot => ?_, fun _ hnot => ?_⟩
  · rw [Slot.rivals, hother j hj w hw, Bool.and_false] at hrival
    cases hrival
  · rw [hasks] at hnot
    cases hnot
  · rw [hasks] at hnot
    cases hnot

/-- Two creations that overlap in time and ask for different hours. -/
theorem sideBySide_kept :
    NeverDoubleBooked rooms (run (step rooms) { table := .empty } (sideBySide 1 2)).table ∧
      (run (step rooms) { table := .empty } (sideBySide 1 2)).table.rows.length = 2 := by
  refine ⟨rooms_kept neverDoubleBooked_empty _ ⟨trivial, trivial, ?_, ?_, trivial, trivial, trivial, trivial, trivial⟩,
    by decide +kernel⟩
  · intro job b hphase _ hplan _
    obtain rfl := Phase.asked.inj hphase
    obtain rfl : newBooking office "b1" (anHour "hall" 1) ⟨rooms.find? "hall", false⟩ = b :=
      Except.ok.inj ((by decide +kernel : _ = _).symm.trans hplan)
    exact staysValid_of_apart (by decide +kernel) (by decide +kernel)
  · intro job b hphase _ hplan _
    obtain rfl := Phase.asked.inj hphase
    obtain rfl : newBooking office "b2" (anHour "east" 2) ⟨rooms.find? "east", false⟩ = b :=
      Except.ok.inj ((by decide +kernel : _ = _).symm.trans hplan)
    exact staysValid_of_apart (by decide +kernel) (by decide +kernel)

/-- A booking of the part that is moved to the hour of the hall, after both were booked for different hours. -/
def thenMoved : List (Event ℕ) :=
  [.create 0 office (anHour "hall" 1) "b1", .check 0, .save 0 true, .commit 0,
    .create 1 office (anHour "east" 2) "b2", .check 1, .save 1 true, .commit 1,
    .read 2 calmPolicy { bookingId := "b2", newStart := some 3600000, newEnd := some 7200000 }, .check 2, .save 2 true,
    .commit 2]

def podTwice : List (Event Bool) :=
  [.expand false office ⟨"t1", "pod", "u1", .daily, 3600000, 7200000, .fixed 0, .fixed 0, 1, [], 0, "", "", []⟩ "s1",
    .occurrence false "b1" ⟨3600000, 7200000⟩, .create true office (anHour "pod" 1) "b2", .lock true, .check true,
    .save true true, .commit true, .save false true, .commit false]

def bookedTogether (a b : Booking) : Bool :=
  decide (a.id ≠ b.id) && a.active && b.active && decide (a.resourceId = "east") && decide (b.resourceId = "hall") &&
    decide (a.startTime = b.startTime) && decide (a.startTime < a.endTime) && decide (b.startTime < b.endTime)

theorem not_kept_of_bookedTogether (h : (t.rows.any fun a => t.rows.any fun b => bookedTogether a b) = true) :
    ¬ NeverDoubleBooked rooms t := by
  intro hkept
  obtain ⟨a, ha, h⟩ := List.any_eq_true.1 h
  obtain ⟨b, hb, h⟩ := List.any_eq_true.1 h
  simp only [bookedTogether, Bool.and_eq_true, decide_eq_true_eq] at h
  obtain ⟨⟨⟨⟨⟨⟨⟨hne, hactive⟩, hactive'⟩, heast⟩, hhall⟩, hstart⟩, hwindow⟩, hwindow'⟩ := h
  have hdisjoint := hkept.relatives { id := "east", tenantId := "t1", parentResourceId := some "hall" } (by decide)
    "hall" rfl a ha b hb hne hactive hactive' heast hhall
  exact Set.disjoint_left.1 hdisjoint ⟨le_rfl, hwindow⟩ ⟨hstart.ge, hstart ▸ hwindow'⟩

/-- The hall and its part are booked for the same hour by two creations side by side, and by an update alone; and the
pod, which has one place, is booked twice. -/
theorem double_bookings :
    ¬ NeverDoubleBooked rooms (run (step rooms) { table := .empty } (sideBySide 1 1)).table ∧
      ¬ NeverDoubleBooked rooms (run (step rooms) { table := .empty } thenMoved).table ∧
      ¬ NeverDoubleBooked rooms (run (step rooms) { table := .empty } podTwice).table := by
  refine ⟨not_kept_of_bookedTogether (by decide +kernel), not_kept_of_bookedTogether (by decide +kernel), fun h => ?_⟩
  have hcapacity := h.capacity { id := "pod", tenantId := "t1", bookingMode := .shared } (by decide) rfl 3600000
  exact absurd hcapacity (by decide +kernel)

end BookingSystem.Concurrency.CompositeRooms
