import BookingSystem.Model.Search
import BookingSystem.Model.System
import BookingSystem.Concurrency.Occupancy

/-!
# Search and booking

Whether the search for a free room offers a room, and whether `create` would accept it. A room that the search offers
is free for `create` (`free_of_search`). The other way round they part in three places: a pod with room left is hidden,
a room is hidden because of a parent link that `compositeMode` does not confirm, and the search goes by the role in the
viewer's token where `create` goes by the stored one. `search_agrees_iff` says exactly when they agree.
-/

namespace BookingSystem.Contracts

open Base Model Model.BookingsService
open Model.ResourcesService Concurrency

/-- The booking takes the room as the search sees it: it is a booking of the room, of a room whose parent is the room,
or of the parent of the room. -/
def Linked (resources : Table Resource) (b : Booking) (r : Resource) : Prop :=
  b.resourceId = r.id ∨ (∃ k ∈ resources.rows, k.id = b.resourceId ∧ k.parentResourceId = some r.id) ∨
    r.parentResourceId = some b.resourceId

/-- The booking takes the room as `create` sees it: parent links count when the room is marked as a parent or a
child. -/
def Counted (resources : Table Resource) (b : Booking) (r : Resource) : Prop :=
  b.resourceId = r.id ∨
    (r.compositeMode = .parent ∧ ∃ k ∈ resources.rows, k.tenantId = r.tenantId ∧ k.id = b.resourceId ∧
      k.parentResourceId = some r.id) ∨
    (r.compositeMode = .child ∧ r.parentResourceId = some b.resourceId)

/-- No more booking fits into the window: the bookings of the pod reach its capacity, or one booking takes the
room. -/
def Full (resources : Table Resource) (bookings : Table Booking) (c : SearchCriteria) (r : Resource) : Prop :=
  if isPod r then capacity r ≤ bookings.rows.countP fun b => inWindow c b && b.resourceId == r.id
  else ∃ b ∈ bookings.rows, inWindow c b = true ∧ Counted resources b r

/-- The stored user belongs to the department of the room. -/
def Member (env : Env) (tenantId userId : Uuid) (r : Resource) : Prop :=
  ∃ user d, env.user tenantId userId = some user ∧ r.departmentId = some d ∧ d ∈ user.departments

/-- The stored user has an admin role. -/
def StoredAdmin (env : Env) (tenantId userId : Uuid) : Prop :=
  ∃ user, env.user tenantId userId = some user ∧ user.role ∈ adminRoles

def MayBook (env : Env) (tenantId userId : Uuid) (r : Resource) : Prop :=
  r.isRestricted = false ∨ Member env tenantId userId r ∨ StoredAdmin env tenantId userId

/-- When search and booking agree. A room that is hidden is full for `create` too, or closed to the viewer; and where
the admin role decides about a room that is free, the token and the stored user have the same one. -/
structure Consistent (env : Env) (bookings : Table Booking) (c : SearchCriteria) (userId : Uuid) (r : Resource) :
    Prop where
  hidden : ∀ b ∈ bookings.rows, inWindow c b = true → Linked env.resources b r → MayBook env c.tenantId userId r →
    Full env.resources bookings c r
  role : (∀ b ∈ bookings.rows, inWindow c b = true → ¬ Linked env.resources b r) → r.isRestricted = true →
    ¬ Member env c.tenantId userId r → (c.isAdmin = true ↔ StoredAdmin env c.tenantId userId)

/-! ### What the search sees -/

section Rooms

variable {env : Env} {bookings : Table Booking} {c : SearchCriteria} {userId : Uuid} {r : Resource}

theorem mem_busyIds (hr : r ∈ env.resources.rows) :
    r.id ∈ busyIds env.resources bookings c ↔
      ∃ b ∈ bookings.rows, inWindow c b = true ∧ Linked env.resources b r := by
  simp only [busyIds, List.mem_append, List.mem_flatMap, List.mem_map, List.mem_filter, List.mem_filterMap,
    beq_iff_eq]
  constructor
  · rintro ((⟨b, ⟨hb, hst⟩, hid⟩ | ⟨_, ⟨b, ⟨hb, hst⟩, rfl⟩, k, ⟨hk, hkid⟩, hpar⟩) |
      ⟨_, ⟨b, ⟨hb, hst⟩, rfl⟩, k, ⟨hk, hpar⟩, hkid⟩)
    · exact ⟨b, hb, hst, .inl hid⟩
    · exact ⟨b, hb, hst, .inr (.inl ⟨k, hk, hkid, hpar⟩)⟩
    · obtain rfl := Table.eq_of_key hk hr hkid
      exact ⟨b, hb, hst, .inr (.inr hpar)⟩
  · rintro ⟨b, hb, hst, hid | ⟨k, hk, hkid, hpar⟩ | hpar⟩
    · exact .inl (.inl ⟨b, ⟨hb, hst⟩, hid⟩)
    · exact .inl (.inr ⟨_, ⟨b, ⟨hb, hst⟩, rfl⟩, k, ⟨hk, hkid⟩, hpar⟩)
    · exact .inr ⟨_, ⟨b, ⟨hb, hst⟩, rfl⟩, r, ⟨hr, hpar⟩, rfl⟩

theorem mem_filterRestricted {rooms : List Resource} (hc : c.userId = some userId) :
    r ∈ filterRestricted env rooms c ↔
      r ∈ rooms ∧ (c.isAdmin = true ∨ r.isRestricted = false ∨ Member env c.tenantId userId r) := by
  unfold filterRestricted
  split
  · rename_i hadmin
    simp [hadmin]
  · rename_i hadmin
    split
    · rename_i hany
      -- no room on the list is restricted
      simp only [Bool.not_eq_true', List.any_eq_false, Bool.not_eq_true] at hany
      constructor
      · intro hr
        exact ⟨hr, .inr (.inl (hany r hr))⟩
      · exact And.left
    · rw [List.mem_filter, hc]
      simp only [Option.bind_some, Bool.or_eq_true, Bool.not_eq_true', hadmin, false_or, Bool.false_eq_true]
      refine and_congr_right fun _ => or_congr_right ?_
      unfold Member
      cases hu : env.user c.tenantId userId <;> cases hd : r.departmentId <;> simp

/-- **The search.** What it takes for a room to be offered. -/
theorem mem_findAvailable (hr : r ∈ env.resources.rows) (hten : r.tenantId = c.tenantId) (hact : r.isActive = true)
    (hmatch : matchesCriteria c r = true) (hc : c.userId = some userId) :
    r ∈ findAvailable env bookings c ↔
      (∀ b ∈ bookings.rows, inWindow c b = true → ¬ Linked env.resources b r) ∧
        (c.isAdmin = true ∨ r.isRestricted = false ∨ Member env c.tenantId userId r) := by
  unfold findAvailable
  rw [mem_filterRestricted hc, (List.perm_insertionSort _ _).mem_iff, List.mem_filter]
  refine and_congr_left fun _ => ?_
  have hbusy : (busyIds env.resources bookings c).contains r.id = false ↔
      ∀ b ∈ bookings.rows, inWindow c b = true → ¬ Linked env.resources b r := by
    rw [← Bool.not_eq_true, List.contains_iff_mem, mem_busyIds hr]
    push Not
    rfl
  simp [hr, hten, hact, hmatch, ← hbusy]

/-! ### What `create` sees -/

theorem mem_relatedResourceIds {b : Booking} :
    b.resourceId ∈ relatedResourceIds env r.tenantId r ↔ Counted env.resources b r := by
  unfold relatedResourceIds Counted
  rw [List.mem_eraseDups, List.mem_cons, List.mem_append]
  refine or_congr_right ?_
  cases hmode : r.compositeMode with
  | standalone => simp
  | parent => simp [and_comm, and_left_comm]
  | child => simp

theorem clashes_iff {b : Booking} (hten : r.tenantId = c.tenantId) :
    clashes c.tenantId (relatedResourceIds env c.tenantId r) c.start c.finish none b = true ↔
      inWindow c b = true ∧ Counted env.resources b r := by
  rw [← mem_relatedResourceIds, hten]
  simp only [clashes, inWindow, Bool.and_eq_true, beq_iff_eq, Bool.not_eq_true', List.contains_iff_mem]
  simp only [bne_iff_ne, ne_eq, reduceCtorEq, not_false_eq_true, and_true]
  tauto

theorem counted_of_isPod {b : Booking} (hpod : isPod r = true) : Counted env.resources b r ↔ b.resourceId = r.id := by
  simp only [isPod, Bool.and_eq_true, bne_iff_ne] at hpod
  simp [Counted, hpod.1.2, hpod.2]

theorem assertNoConflict_iff (hten : r.tenantId = c.tenantId) :
    assertNoConflict bookings c.tenantId (relatedResourceIds env c.tenantId r) c.start c.finish none r = .ok () ↔
      ¬ Full env.resources bookings c r := by
  rw [assertNoConflict_ok, Full]
  cases hpod : isPod r with
  | true =>
    have hcount : bookings.rows.countP (clashes c.tenantId (relatedResourceIds env c.tenantId r) c.start c.finish none)
        = bookings.rows.countP fun b => inWindow c b && b.resourceId == r.id := by
      refine List.countP_congr fun b _ => ?_
      rw [clashes_iff hten, counted_of_isPod hpod]
      simp
    rw [hcount, if_pos rfl, if_pos rfl, not_le]
  | false =>
    have hzero : (bookings.rows.countP
        (clashes c.tenantId (relatedResourceIds env c.tenantId r) c.start c.finish none) : ℤ) < 1 ↔
        ∀ b ∈ bookings.rows, ¬ (inWindow c b = true ∧ Counted env.resources b r) := by
      have hlt : ∀ n : ℕ, (n : ℤ) < 1 ↔ n = 0 := by
        intro n
        omega
      rw [hlt, List.countP_eq_zero]
      exact forall₂_congr fun b _ => not_congr (clashes_iff hten)
    simp only [Bool.false_eq_true, if_false, hzero]
    push Not
    rfl

theorem assertCanBook_iff {tenantId : Uuid} :
    assertCanBook env tenantId userId r = .ok () ↔ MayBook env tenantId userId r := by
  unfold assertCanBook MayBook Member StoredAdmin
  cases hres : r.isRestricted with
  | false => simp
  | true =>
    cases hu : env.user tenantId userId with
    | none => simp
    | some user =>
      by_cases hadmin : user.role ∈ adminRoles
      · simp [hadmin]
      · cases hd : r.departmentId with
        | none => simp [hadmin]
        | some d => by_cases hmem : d ∈ user.departments <;> simp [hadmin, hmem]

/-! ### Where they agree -/

theorem linked_of_counted {b : Booking} (h : Counted env.resources b r) : Linked env.resources b r := by
  rcases h with h | ⟨-, k, hk, -, hid, hpar⟩ | ⟨-, hpar⟩
  · exact .inl h
  · exact .inr (.inl ⟨k, hk, hid, hpar⟩)
  · exact .inr (.inr hpar)

theorem one_le_capacity (r : Resource) : 1 ≤ capacity r := le_max_left 1 r.sharedCapacity

theorem free_of_search (h : ∀ b ∈ bookings.rows, inWindow c b = true → ¬ Linked env.resources b r) :
    ¬ Full env.resources bookings c r := by
  unfold Full
  split
  · have hzero : bookings.rows.countP (fun b => inWindow c b && b.resourceId == r.id) = 0 := by
      rw [List.countP_eq_zero]
      intro b hb hcount
      rw [Bool.and_eq_true, beq_iff_eq] at hcount
      exact h b hb hcount.1 (.inl hcount.2)
    have := one_le_capacity r
    rw [hzero]
    omega
  · rintro ⟨b, hb, hst, hcounted⟩
    exact h b hb hst (linked_of_counted hcounted)

/-- **Search and booking.** An active room that meets the other criteria is offered to a viewer exactly if `create`'s
conflict check and access check would accept it, if and only if a room that is hidden is full for `create` or closed to
the viewer, and the token has the admin role that the stored user has where it decides. -/
theorem search_agrees_iff (hr : r ∈ env.resources.rows) (hten : r.tenantId = c.tenantId) (hact : r.isActive = true)
    (hmatch : matchesCriteria c r = true) (hc : c.userId = some userId) :
    (r ∈ findAvailable env bookings c ↔
      assertNoConflict bookings c.tenantId (relatedResourceIds env c.tenantId r) c.start c.finish none r = .ok () ∧
        assertCanBook env c.tenantId userId r = .ok ()) ↔
    Consistent env bookings c userId r := by
  rw [mem_findAvailable hr hten hact hmatch hc, assertNoConflict_iff hten, assertCanBook_iff]
  constructor
  · intro h
    constructor
    · intro b hb hst hlink hmay
      by_contra hfull
      exact (h.2 ⟨hfull, hmay⟩).1 b hb hst hlink
    · intro hfree hres hmem
      have hsee : (c.isAdmin = true ∨ r.isRestricted = false ∨ Member env c.tenantId userId r) ↔
          MayBook env c.tenantId userId r :=
        ⟨fun hs => (h.1 ⟨hfree, hs⟩).2, fun hm => (h.2 ⟨free_of_search hfree, hm⟩).2⟩
      simpa [MayBook, hres, hmem] using hsee
  · rintro ⟨hidden, role⟩
    by_cases hfree : ∀ b ∈ bookings.rows, inWindow c b = true → ¬ Linked env.resources b r
    · have hrole := role hfree
      rw [and_iff_right hfree, and_iff_right (free_of_search hfree), MayBook]
      cases hres : r.isRestricted with
      | false => simp
      | true =>
        by_cases hmem : Member env c.tenantId userId r
        · simp [hmem]
        · simpa [hmem] using hrole hres hmem
    · push Not at hfree
      obtain ⟨b, hb, hst, hlink⟩ := hfree
      constructor
      · rintro ⟨hall, -⟩
        exact absurd hlink (hall b hb hst)
      · rintro ⟨hnot, hmay⟩
        exact absurd (hidden b hb hst hlink hmay) hnot

end Rooms

/-! ### A pod with room left -/

def podForTwo : Resource := { id := "pod", tenantId := "t", bookingMode := .shared, sharedCapacity := 2 }

def podOnly : Env := office ⟨[podForTwo], by decide⟩ .empty .empty

def onePodBooking : Table Booking :=
  ⟨[{ id := "b", tenantId := "t", resourceId := "pod", userId := "u", startTime := 3600000, endTime := 7200000,
      status := .confirmed, bookingMode := .shared }], by decide⟩

def searchAt (start : Instant) : SearchCriteria :=
  { tenantId := "t", start := start, finish := start + 3600000, userId := some "v" }

/-- An hour later the pod is free for both. -/
theorem search_agrees_iff_later :
    podForTwo ∈ findAvailable podOnly onePodBooking (searchAt 7200000) ↔
      assertNoConflict onePodBooking "t" (relatedResourceIds podOnly "t" podForTwo) 7200000 10800000 none podForTwo
        = .ok () ∧ assertCanBook podOnly "t" "v" podForTwo = .ok () := by
  refine (@search_agrees_iff podOnly onePodBooking (searchAt 7200000) "v" podForTwo (by simp [podOnly, office]) rfl rfl
    (by decide) rfl).2 ⟨?_, fun _ hres => by cases hres⟩
  intro b hb hst
  have hnone : ∀ b ∈ onePodBooking.rows, inWindow (searchAt 7200000) b = false := by decide
  rw [hnone b hb] at hst
  cases hst

/-- `create` would accept a second booking of the pod, and the search does not offer the pod. -/
theorem search_hides_pod :
    ¬ ∀ (env : Env) (bookings : Table Booking) (c : SearchCriteria) (userId : Uuid) (r : Resource),
      r ∈ env.resources.rows → r.tenantId = c.tenantId → r.isActive = true → matchesCriteria c r = true →
      c.userId = some userId →
      (r ∈ findAvailable env bookings c ↔
        assertNoConflict bookings c.tenantId (relatedResourceIds env c.tenantId r) c.start c.finish none r = .ok () ∧
          assertCanBook env c.tenantId userId r = .ok ()) := by
  intro h
  have hpod := h podOnly onePodBooking (searchAt 3600000) "v" podForTwo (by simp [podOnly, office]) rfl rfl
    (by decide) rfl
  have hnone : (findAvailable podOnly onePodBooking (searchAt 3600000)).length = 0 := by decide
  have hmem := hpod.2 ⟨by decide, by decide⟩
  rw [List.length_eq_zero_iff.1 hnone] at hmem
  cases hmem

end BookingSystem.Contracts
