import Mathlib.Data.List.Dedup
import Mathlib.Tactic.Tauto
import BookingSystem.Service.Validator

/-!
# What the search of the Go service takes for busy

A booking of an exclusive resource makes its parent and its children busy for the search, whatever their mode; a booking
of a shared one makes only itself busy, when it is full. The validator counts for a shared resource its own bookings,
and for an exclusive one those of all its relatives. So the two agree on a resource as long as its relatives of the
other mode decide nothing (`busySet_agrees_iff`).
-/

namespace BookingSystem.Contracts.BusyRooms

open Base Service
open Model (Uuid Instant)

section

variable (p : Policy) (resources : Table Resource) (t : Table Booking) (r : Resource) (start finish : Instant)

/-- An active booking of the resource overlaps the window. -/
def Booked : Prop := ∃ b ∈ t.rows, b.resourceId = r.id ∧ b.active = true ∧ b.meets start finish = true

/-- The bookings that overlap use up the capacity. -/
def Full : Prop := r.sharedCapacity ≤
  (t.rows.countP (fun b => decide (b.resourceId = r.id) && b.active && b.meets start finish) : ℤ)

/-- The resource leaves no room by its own bookings. -/
def Taken : Prop := if r.isShared then Full t r start finish else Booked t r start finish

/-- A parent or a child of the resource. -/
def Relative (q : Resource) : Prop := r.parentResourceId = some q.id ∨ q.parentResourceId = some r.id

/-- A relative of the mode has a booking in the window. -/
def BookedBeside (shared : Bool) : Prop :=
  ∃ q ∈ resources.rows, q.isShared = shared ∧ Relative r q ∧ Booked t q start finish

/-- **No relative of the other mode decides**: none is booked in the window, or the resource is busy without it. -/
def Settled : Prop :=
  Taken t r start finish ∨ if r.isShared then ¬ BookedBeside resources t r start finish false
    else BookedBeside resources t r start finish false ∨ ¬ BookedBeside resources t r start finish true

/-- When search and validator agree on a resource. On a holiday the validator has rejected the day before it comes to
the slot, so there the search has to find nothing. -/
structure Agreeing : Prop where
  workday : p.isDateHoliday start = .ok false → Settled resources t r start finish
  holiday : p.isDateHoliday start ≠ .ok false →
    ¬ Taken t r start finish ∧ ¬ BookedBeside resources t r start finish false

/-- The parents that are named exist. -/
def ParentsExist : Prop := ∀ q ∈ resources.rows, ∀ p ∈ q.parentResourceId, ∃ q' ∈ resources.rows, q'.id = p

end

/-- The validator has rejected the slot: for a conflict, or for the capacity. -/
def SlotRejected (x : Except CallError ValidationResult) : Prop :=
  x = .error (.rejected "booking rejected: a scheduling conflict was detected") ∨
    ∃ count cap : String, x = .error (.rejected ("booking rejected: this slot is already at capacity (" ++ count ++
      " / " ++ cap ++ ")"))

/-! ### The search -/

section

variable {resources : Table Resource} {t : Table Booking} {r : Resource} {start finish : Instant}

theorem countConcurrent_all (rid : Uuid) : countConcurrent t rid start finish "" =
    t.rows.countP fun b => decide (b.resourceId = rid) && b.active && b.meets start finish := by
  simp [countConcurrent]

theorem countP_overlapping (rid : Uuid) : (overlapping t start finish).countP (fun b => decide (b.resourceId = rid)) =
    t.rows.countP fun b => decide (b.resourceId = rid) && b.active && b.meets start finish := by
  rw [overlapping, List.countP_filter]
  exact List.countP_congr fun b _ => by simp [and_assoc]

theorem mem_overlapCounts {rid : Uuid} {n : ℕ} : (rid, n) ∈ overlapCounts t start finish ↔
    (∃ b ∈ t.rows, b.resourceId = rid ∧ b.active = true ∧ b.meets start finish = true) ∧
      n = t.rows.countP fun b => decide (b.resourceId = rid) && b.active && b.meets start finish := by
  simp only [overlapCounts, List.mem_map, List.mem_dedup, Prod.mk.injEq, countP_overlapping]
  constructor
  · rintro ⟨_, ⟨b, hb, rfl⟩, rfl, rfl⟩
    rw [overlapping, List.mem_filter, Bool.and_eq_true] at hb
    exact ⟨⟨b, hb.1, rfl, hb.2⟩, rfl⟩
  · rintro ⟨⟨b, hb, rfl, hactive⟩, rfl⟩
    exact ⟨_, ⟨b, List.mem_filter.2 ⟨hb, (Bool.and_eq_true _ _).symm ▸ hactive⟩, rfl⟩, rfl, rfl⟩

theorem mem_busyExcl (hr : r ∈ resources.rows) :
    r.id ∈ busyExcl resources t start finish ↔ r.isShared = false ∧ Booked t r start finish := by
  have hfind : resources.find? r.id = some r := Table.find?_of_mem hr
  simp only [busyExcl, List.mem_map, List.mem_filter, Prod.exists, exists_and_right, exists_eq_right,
    mem_overlapCounts, hfind, Option.any_some, Bool.not_eq_true']
  exact and_comm

theorem booked_of_full (hcap : 1 ≤ r.sharedCapacity) (hfull : Full t r start finish) : Booked t r start finish := by
  have hpos : 0 < t.rows.countP fun b => decide (b.resourceId = r.id) && b.active && b.meets start finish := by
    have := hcap.trans hfull
    omega
  obtain ⟨b, hb, h⟩ := List.countP_pos_iff.1 hpos
  simp only [Bool.and_eq_true, decide_eq_true_eq] at h
  exact ⟨b, hb, h.1.1, h.1.2, h.2⟩

theorem mem_busyShared (hr : r ∈ resources.rows) (hcap : r.isShared = true → 1 ≤ r.sharedCapacity) :
    r.id ∈ busyShared resources t start finish ↔ r.isShared = true ∧ Full t r start finish := by
  have hfind : resources.find? r.id = some r := Table.find?_of_mem hr
  simp only [busyShared, List.mem_map, List.mem_filter, Prod.exists, exists_and_right, exists_eq_right,
    mem_overlapCounts, hfind, Option.any_some, Bool.and_eq_true, decide_eq_true_eq]
  constructor
  · rintro ⟨n, ⟨_, rfl⟩, hmode, hn⟩
    exact ⟨hmode, (max_eq_left (hcap hmode) ▸ hn :)⟩
  · rintro ⟨hmode, hfull⟩
    exact ⟨_, ⟨booked_of_full (hcap hmode) hfull, rfl⟩, hmode, (max_eq_left (hcap hmode)).symm ▸ hfull⟩

/-- **What the search takes for busy**: a resource without room, and a relative of an exclusive one that is booked. -/
theorem mem_busySet (hparents : ParentsExist resources) (hr : r ∈ resources.rows)
    (hcap : r.isShared = true → 1 ≤ r.sharedCapacity) :
    r.id ∈ busySet resources t start finish ↔
      Taken t r start finish ∨ BookedBeside resources t r start finish false := by
  have hrow : r.id ∈ busySet resources t start finish ↔ r.id ∈ busyExcl resources t start finish ∨
      (∃ p ∈ r.parentResourceId, p ∈ busyExcl resources t start finish) ∨
      (∃ q ∈ resources.rows, q.id ∈ busyExcl resources t start finish ∧ q.parentResourceId = some r.id) ∨
      r.id ∈ busyShared resources t start finish := by
    simp only [busySet, List.mem_map, List.mem_filter, Bool.or_eq_true, decide_eq_true_eq, List.any_eq_true,
      Option.any_eq_true, beq_iff_eq, or_assoc, and_assoc]
    constructor
    · rintro ⟨r', hr', h, hid⟩
      rwa [Table.eq_of_key hr' hr hid] at h
    · exact fun h => ⟨r, hr, h, rfl⟩
  rw [hrow, mem_busyExcl hr, mem_busyShared hr hcap, Taken]
  constructor
  · rintro (⟨hmode, hb⟩ | ⟨p, hp, hbusy⟩ | ⟨q, hq, hbusy, hpar⟩ | ⟨hmode, hfull⟩)
    · exact .inl (by simpa [hmode] using hb)
    · obtain ⟨q, hq, rfl⟩ := hparents r hr p hp
      exact .inr ⟨q, hq, ((mem_busyExcl hq).1 hbusy).1, .inl hp, ((mem_busyExcl hq).1 hbusy).2⟩
    · exact .inr ⟨q, hq, ((mem_busyExcl hq).1 hbusy).1, .inr hpar, ((mem_busyExcl hq).1 hbusy).2⟩
    · exact .inl (by simpa [hmode] using hfull)
  · rintro (h | ⟨q, hq, hmode, hpar | hpar, hb⟩)
    · split at h
      · exact .inr (.inr (.inr ⟨‹_›, h⟩))
      · exact .inl ⟨Bool.eq_false_iff.2 ‹_›, h⟩
    · exact .inr (.inl ⟨q.id, hpar, (mem_busyExcl hq).2 ⟨hmode, hb⟩⟩)
    · exact .inr (.inr (.inl ⟨q, hq, (mem_busyExcl hq).2 ⟨hmode, hb⟩, hpar⟩))

/-! ### The validator -/

theorem hasConflict_iff (hparents : ParentsExist resources) (hr : r ∈ resources.rows) :
    hasConflict resources t r.id start finish = true ↔
      Booked t r start finish ∨ ∃ shared, BookedBeside resources t r start finish shared := by
  have hfind : resources.find? r.id = some r := Table.find?_of_mem hr
  simp only [hasConflict, targets, hfind, List.any_eq_true, Bool.and_eq_true, decide_eq_true_eq, List.mem_append,
    List.mem_cons, List.mem_map, List.mem_filter, beq_iff_eq, Option.bind_some, Option.mem_toList, or_assoc, and_assoc]
  constructor
  · rintro ⟨b, hb, hid | ⟨q, hq, hpar, hid⟩ | hpar, hact⟩
    · exact .inl ⟨b, hb, hid, hact⟩
    · exact .inr ⟨_, q, hq, rfl, .inr hpar, b, hb, hid.symm, hact⟩
    · obtain ⟨q, hq, hid⟩ := hparents r hr _ hpar
      exact .inr ⟨_, q, hq, rfl, .inl (hid ▸ hpar), b, hb, hid.symm, hact⟩
  · rintro (⟨b, hb, hid, hact⟩ | ⟨_, q, hq, -, hpar | hpar, b, hb, hid, hact⟩)
    · exact ⟨b, hb, .inl hid, hact⟩
    · exact ⟨b, hb, .inr (.inr (hid ▸ hpar)), hact⟩
    · exact ⟨b, hb, .inr (.inl ⟨q, hq, hpar, hid.symm⟩), hact⟩

theorem not_slotRejected_ok (res : ValidationResult) : ¬ SlotRejected (.ok res) := by
  simp [SlotRejected]

theorem not_slotRejected_internal (m : String) : ¬ SlotRejected (.error (.internal m)) := by
  simp [SlotRejected]

theorem not_slotRejected_text {m : String} (hconflict : m ≠ "a scheduling conflict was detected")
    (hcapacity : ∀ n, m ≠ "this slot is already at capacity (" ++ n) :
    ¬ SlotRejected (.error (.rejected ("booking rejected: " ++ m))) := by
  rintro (h | ⟨count, cap, h⟩)
  · have h' : "booking rejected: " ++ m = "booking rejected: " ++ "a scheduling conflict was detected" := by
      simpa using h
    exact hconflict ((String.append_right_inj _).1 h')
  · have h' : "booking rejected: " ++ m =
        "booking rejected: " ++ ("this slot is already at capacity (" ++ (count ++ " / " ++ cap ++ ")")) := by
      simpa [← String.append_assoc] using h
    exact hcapacity _ ((String.append_right_inj _).1 h')

theorem reason_of_deny {p : Policy} {tenantId userId : Uuid} {location : String} :
    (evaluate p tenantId userId location).deny = true →
      ∃ rest, (evaluate p tenantId userId location).reason = "role \"" ++ rest := by
  fun_cases evaluate p tenantId userId location
  case case4 =>
    intro _
    exact ⟨_, by simp only [String.append_assoc]; rfl⟩
  all_goals simp

theorem not_slotRejected_privilege {p : Policy} {resource : Option Resource} {input : ValidationInput}
    (h : (privilegeFor p resource input).deny = true) :
    ¬ SlotRejected (.error (.rejected ("booking rejected: " ++ (privilegeFor p resource input).reason))) := by
  unfold privilegeFor at h ⊢
  split at h
  · simp at h
  · rename_i htenant
    rw [if_neg htenant]
    obtain ⟨rest, hrest⟩ := reason_of_deny h
    rw [hrest]
    refine not_slotRejected_text (fun heq => ?_) fun n heq => ?_
    · simpa using congrArg (fun m => m.toList.head?) heq
    · simpa using congrArg (fun m => m.toList.head?) heq

section

variable {p : Policy} {tenantId userId : Uuid}

theorem checkSlot_iff (hparents : ParentsExist resources) (hr : r ∈ resources.rows)
    (hcap : r.isShared = true → 1 ≤ r.sharedCapacity) :
    checkSlot resources t (some r) ⟨tenantId, userId, r.id, start, finish, ""⟩ = .ok () ↔
      ¬ (Taken t r start finish ∨ (r.isShared = false ∧ ∃ shared, BookedBeside resources t r start finish shared)) := by
  unfold checkSlot Taken
  cases hmode : r.isShared
  · simp only [Option.filter, hmode, Bool.false_eq_true, if_false, require_eq_ok, true_and, bne_self_eq_false,
      Bool.false_or, Bool.not_eq_true', ← Bool.not_eq_true, hasConflict_iff hparents hr]
  · have hroom : r.cap = r.sharedCapacity := if_pos (hcap hmode)
    simp only [Option.filter, hmode, if_true, require_eq_ok, decide_eq_true_eq, countConcurrent_all, hroom, Full,
      not_le, Bool.true_eq_false, false_and, or_false]

theorem slotRejected_of_checkSlot {resource : Option Resource} {input : ValidationInput} {e : CallError}
    (h : checkSlot resources t resource input = .error e) : SlotRejected (.error e) := by
  unfold checkSlot at h
  split at h
  · obtain ⟨-, rfl⟩ := require_eq_error.1 h
    exact .inr ⟨_, _, rfl⟩
  · obtain ⟨-, rfl⟩ := require_eq_error.1 h
    exact .inl rfl

theorem slotRejected_iff_checkSlot (hp : p.answersLookup = true) (hr : r ∈ resources.rows) (hactive : r.isActive = true)
    (hday : p.isDateHoliday start = .ok false) :
    SlotRejected (validate p resources t ⟨tenantId, userId, r.id, start, finish, ""⟩) ↔
      checkSlot resources t (some r) ⟨tenantId, userId, r.id, start, finish, ""⟩ ≠ .ok () := by
  have hlookup : p.resource resources r.id = some r := by
    rw [Policy.resource, if_pos hp]
    exact Table.find?_of_mem hr
  have hholiday : checkHoliday p start = .ok () := by
    rw [checkHoliday, hday]
    rfl
  have hopen : checkActive (some r) = .ok () := require_of (by simpa using hactive)
  simp only [validate, hholiday, hlookup, hopen, bind, Except.bind]
  cases hslot : checkSlot resources t (some r) ⟨tenantId, userId, r.id, start, finish, ""⟩ with
  | error e => simpa using slotRejected_of_checkSlot hslot
  | ok u =>
    refine iff_of_false ?_ (by simp)
    cases hdeny : (privilegeFor p (some r) ⟨tenantId, userId, r.id, start, finish, ""⟩).deny
    · exact not_slotRejected_ok _
    · exact not_slotRejected_privilege hdeny

theorem not_slotRejected_of_holiday (input : ValidationInput) (hday : p.isDateHoliday input.start ≠ .ok false) :
    ¬ SlotRejected (validate p resources t input) := by
  cases h : p.isDateHoliday input.start with
  | error e =>
    have hstop : checkHoliday p input.start = .error (.internal ("system error verifying calendar dates: " ++ e)) := by
      rw [checkHoliday, h]
    simpa only [validate, hstop, bind, Except.bind] using not_slotRejected_internal _
  | ok isHoliday =>
    obtain rfl : isHoliday = true := by
      cases isHoliday with
      | false => exact absurd h hday
      | true => rfl
    have hstop : checkHoliday p input.start =
        .error (.rejected ("booking rejected: " ++ "the selected date is a designated public holiday")) := by
      rw [checkHoliday, h]
      rfl
    rw [validate, hstop]
    exact not_slotRejected_text (by decide) fun n heq => by simpa using congrArg String.toList heq

/-! ### Both -/

/-- **The search takes an active resource for busy just when the validator rejects it for the slot, if and only if no
relative of the other mode decides**, on a day that is no holiday. -/
theorem busySet_agrees_iff (hparents : ParentsExist resources) (hr : r ∈ resources.rows)
    (hactive : r.isActive = true) (hcap : r.isShared = true → 1 ≤ r.sharedCapacity) (hp : p.answersLookup = true) :
    (r.id ∈ busySet resources t start finish ↔
        SlotRejected (validate p resources t ⟨tenantId, userId, r.id, start, finish, ""⟩)) ↔
      Agreeing p resources t r start finish := by
  rw [mem_busySet hparents hr hcap]
  by_cases hday : p.isDateHoliday start = .ok false
  · rw [slotRejected_iff_checkSlot hp hr hactive hday, Ne, checkSlot_iff hparents hr hcap]
    have hagree : Agreeing p resources t r start finish ↔ Settled resources t r start finish :=
      ⟨fun h => h.workday hday, fun h => ⟨fun _ => h, fun hne => absurd hday hne⟩⟩
    rw [hagree, Settled]
    -- one of the two modes is counted by the validator, the other by the search
    cases r.isShared
    · simp only [Bool.exists_bool, Bool.false_eq_true, if_false, true_and]
      tauto
    · simp only [if_true, Bool.true_eq_false, false_and, or_false]
      tauto
  · have hagree : Agreeing p resources t r start finish ↔
        ¬ Taken t r start finish ∧ ¬ BookedBeside resources t r start finish false :=
      ⟨fun h => h.holiday hday, fun h => ⟨fun heq => absurd heq hday, fun _ => h⟩⟩
    rw [iff_false_right (not_slotRejected_of_holiday _ hday), hagree, not_or]

end

end

def quietPolicy : Policy where
  strings := ⟨fun a b => a == b, id, id⟩
  user _ := none
  groups _ := none
  isDateHoliday _ := .ok false

def hall : Resource := { id := "hall", tenantId := "t" }

def desks : Resource where
  id := "desks"
  tenantId := "t"
  parentResourceId := some "hall"
  bookingMode := .shared
  sharedCapacity := 2

def building : Table Resource := ⟨[hall, desks], by decide⟩

def seated (resourceId : Uuid) : Table Booking :=
  ⟨[{ id := "b", tenantId := "t", resourceId, userId := "u", startTime := 9, endTime := 10, status := .confirmed }],
    by simp⟩

theorem parentsExist_building : ParentsExist building := by
  simp [ParentsExist, building, hall, desks]

/-- The hall is booked, for both of them. -/
theorem busySet_agrees_hall :
    ("hall" ∈ busySet building (seated "hall") 9 10 ↔
        SlotRejected (validate quietPolicy building (seated "hall") ⟨"t", "u", "hall", 9, 10, ""⟩)) ↔
      Agreeing quietPolicy building (seated "hall") hall 9 10 :=
  busySet_agrees_iff parentsExist_building (r := hall) (by decide) rfl (by decide) rfl

/-- One desk is taken: the search offers the hall, and the validator refuses it. The hall is taken: the search hides the
desks, and the validator accepts them. -/
theorem hall_and_desks :
    ParentsExist building ∧ (∀ r ∈ building.rows, r.isActive = true ∧ 1 ≤ r.sharedCapacity) ∧
      "hall" ∉ busySet building (seated "desks") 9 10 ∧
      validate quietPolicy building (seated "desks") ⟨"t", "u", "hall", 9, 10, ""⟩ =
        .error (.rejected "booking rejected: a scheduling conflict was detected") ∧
      "desks" ∈ busySet building (seated "hall") 9 10 ∧
      validate quietPolicy building (seated "hall") ⟨"t", "u", "desks", 9, 10, ""⟩ = .ok ⟨some desks, false⟩ :=
  ⟨parentsExist_building, by decide, by decide, by decide, by decide, by decide⟩

end BookingSystem.Contracts.BusyRooms
