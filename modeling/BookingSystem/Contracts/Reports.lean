import BookingSystem.Service.Reports
import Mathlib.Tactic.IntervalCases

/-!
# What the reports promise

* The queries want the clock of the report zone. Their snippet was made for columns without a time zone, and there it
  gives that clock (`localised_timestamp`). The times of bookings have a time zone, and for them it runs the clock back
  where it should run it forward: date and time are right exactly at the instants where the two offsets cancel out
  (`local_iff`), which in a zone that is always the same time ahead of UTC means that it is not ahead at all
  (`cancels_fixed_iff`).
* The four shares of the dashboard are to make 100. Three of them are rounded on their own, and the fourth takes what is
  left but cannot take less than nothing: `addUp_iff` says when the three make more than 100.
-/

namespace BookingSystem.Contracts.Reports

open Base Service.Reports
open Base.SqlTime (dateOf dateText minuteOf minuteUs timeText)

/-! ### The clock of the report zone -/

def localDate (z : SqlZone) (t : ℤ) : ℤ := dateOf (z.shown t)

/-- The offset that the zone gives to the reading of UTC and the one it has at the instant cancel out to the minute. -/
def Cancels (z : SqlZone) (t : ℤ) : Prop := (t - z.offsetOf t) / minuteUs = (t + z.offset t) / minuteUs

theorem cancels_fixed_iff {o : ℤ} : (∀ t, Cancels (.fixed o) t) ↔ o = 0 := by
  constructor
  · intro h
    -- a time just before the minute changes, on one side or the other
    have hforward := h (-o)
    have hback := h o
    simp only [Cancels, SqlZone.offset_fixed, SqlZone.offsetOf_fixed, minuteUs] at hforward hback
    omega
  · rintro rfl t
    simp [Cancels]

section Local

variable {c : Settings} {s : Store} {b : Booking} {t : ℤ}

theorem localised_timestamp (c : Settings) (l : ℤ) : c.localised (.timestamp l) = c.reportZone.shown l :=
  SqlTime.reading_through_timestamp ..

theorem localised_timestamptz (hsession : c.session = .utc) (t : ℤ) :
    c.localised (.timestamptz t) = t - c.reportZone.offsetOf t := by
  rw [Settings.localised, hsession, SqlTime.reading_through_timestamptz]
  rfl

/-- The rows of a join. -/
theorem mem_joined {α : Type} {f : Booking → Option α} {bs : List Booking} {x : α} :
    (b, x) ∈ bs.filterMap (fun b => (f b).map (b, ·)) ↔ b ∈ bs ∧ f b = some x := by
  simp only [List.mem_filterMap, Option.map_eq_some_iff, Prod.mk.injEq]
  constructor
  · rintro ⟨b', hb', x', hx', rfl, rfl⟩
    exact ⟨hb', hx'⟩
  · rintro ⟨hb, hx⟩
    exact ⟨b, hb, x, hx, rfl, rfl⟩

end Local

section Whole

variable {c : Settings} {s : Store}

def inLocalPeriod (z : SqlZone) (start finish : Model.Day) (b : Booking) : Bool :=
  decide (start ≤ localDate z b.startTime) && decide (localDate z b.startTime ≤ finish)

theorem inPeriod_eq (hsession : c.session = .utc) {start finish : Model.Day} {b : Booking}
    (h : Cancels c.reportZone b.startTime) : c.inPeriod start finish b = inLocalPeriod c.reportZone start finish b := by
  have hdate : c.dateInTZ (.timestamptz b.startTime) = localDate c.reportZone b.startTime := by
    rw [Settings.dateInTZ, localised_timestamptz hsession, (SqlTime.same_minute_iff.1 h).1]
    rfl
  rw [Settings.inPeriod, hdate, inLocalPeriod]

theorem dashboard_stats (hsession : c.session = .utc) (hall : ∀ b ∈ s.bookings.rows, Cancels c.reportZone b.startTime)
    (req : DashboardRequest) : (c.dashboard s req).stats = statsOf (s.bookings.rows.filter fun b =>
      decide (b.tenantId = req.tenantId) && inLocalPeriod c.reportZone req.start req.finish b &&
        (s.resources.find? b.resourceId).any (inScope req b)) := by
  refine congrArg statsOf ?_
  rw [Settings.dashboardRows]
  generalize s.bookings.rows = rows at hall
  induction rows with
  | nil => rfl
  | cons b rows ih =>
    have hperiod := @inPeriod_eq c hsession req.start req.finish b (hall b List.mem_cons_self)
    have hrest := ih fun b' hb' => hall b' (List.mem_cons_of_mem _ hb')
    rw [List.filter_cons, ← hrest, ← hperiod, List.filterMap_cons, Store.withResource]
    cases s.resources.find? b.resourceId with
    | none => simp
    | some r =>
      simp only [Option.map_some, List.filter_cons, Option.any_some]
      split <;> simp

theorem tableBookings_eq (hsession : c.session = .utc) (hall : ∀ b ∈ s.bookings.rows, Cancels c.reportZone b.startTime)
    (req : TableRequest) : c.tableBookings s req = s.bookings.rows.filter fun b =>
      decide (b.tenantId = req.tenantId) && req.type.takes b.status &&
        inLocalPeriod c.reportZone req.start req.finish b :=
  List.filter_congr fun b hb => by rw [inPeriod_eq hsession (hall b hb)]

theorem length_detailTable (req : TableRequest) (headers : List String)
    (line : (Booking × Resource) × User → List String) : (c.detailTable s req headers line).rows.length =
      min 1000 ((c.tableBookings s req).countP fun b =>
        (s.resources.find? b.resourceId).isSome && (s.users.find? b.userId).isSome) := by
  have hperm := (c.answer (Settings.latestFirst fun p : (Booking × Resource) × User => p.1.1) (c.detailRows s req)
    (fun _ _ _ => by simpa [Settings.latestFirst] using fun h h' => le_trans h' h)
    (fun p p' => by simpa [Settings.latestFirst] using le_total _ _)).perm
  rw [Settings.detailTable, List.length_map, List.length_take, hperm.length_eq, Settings.detailRows,
    List.filterMap_filterMap, List.length_filterMap_eq_countP]
  refine congrArg (min 1000) (List.countP_congr fun b _ => ?_)
  unfold Store.withResource
  cases s.resources.find? b.resourceId <;> simp

theorem length_table (hsession : c.session = .utc) (hall : ∀ b ∈ s.bookings.rows, Cancels c.reportZone b.startTime)
    (req : TableRequest) (htype : req.type ≠ .staff ∧ req.type ≠ .usage) : (c.table s req).rows.length =
      min 1000 ((s.bookings.rows.filter fun b => decide (b.tenantId = req.tenantId) && req.type.takes b.status &&
        inLocalPeriod c.reportZone req.start req.finish b).countP fun b =>
          (s.resources.find? b.resourceId).isSome && (s.users.find? b.userId).isSome) := by
  rw [← tableBookings_eq hsession hall]
  unfold Settings.table
  split
  · rename_i hstaff
    exact absurd hstaff htype.1
  · rename_i husage
    exact absurd husage htype.2
  all_goals exact length_detailTable ..

end Whole

def hongKong : SqlZone := .fixed (8 * 3600000000)

/-- Four shares of a whole. -/
structure AddUp (s : Shares) : Prop where
  checkInPct : 0 ≤ s.checkInPct ∧ s.checkInPct ≤ 100
  cancelPct : 0 ≤ s.cancelPct ∧ s.cancelPct ≤ 100
  noShowPct : 0 ≤ s.noShowPct ∧ s.noShowPct ≤ 100
  activePct : 0 ≤ s.activePct ∧ s.activePct ≤ 100
  sum : s.checkInPct + s.cancelPct + s.noShowPct + s.activePct = 100

def fraction (n total : ℕ) : ℕ := 100 * n % total

/-- Two percentages end in a half, the third is whole, and no booking is left. -/
def Halves (total a b c rest : ℕ) : Prop :=
  2 * fraction a total = total ∧ 2 * fraction b total = total ∧ fraction c total = 0 ∧ rest = 0

/-- All three percentages end in a half or more, and what they have after the point makes exactly two with the
percentage of the bookings that are left. -/
def TwoMore (total a b c rest : ℕ) : Prop :=
  total ≤ 2 * fraction a total ∧ total ≤ 2 * fraction b total ∧ total ≤ 2 * fraction c total ∧
    fraction a total + fraction b total + fraction c total + 100 * rest = 2 * total

/-- The counts whose rounded percentages make more than 100. -/
def Overfull (total checkedIn cancelled noShow : ℕ) : Prop :=
  let rest := total - (checkedIn + cancelled + noShow)
  TwoMore total checkedIn cancelled noShow rest ∨ Halves total checkedIn cancelled noShow rest ∨
    Halves total checkedIn noShow cancelled rest ∨ Halves total cancelled noShow checkedIn rest

section Shares

variable {total n : ℕ}

theorem percent_eq (htotal : 0 < total) :
    percent n total = (100 * n / total : ℕ) + if total ≤ 2 * fraction n total then 1 else 0 := by
  have hpos : (0 : ℚ) < total := by exact_mod_cast htotal
  have hdiv : total * (100 * n / total) + fraction n total = 100 * n := Nat.div_add_mod ..
  have hlt : fraction n total < total := Nat.mod_lt _ htotal
  generalize fraction n total = f at *
  generalize 100 * n / total = q at *
  have hvalue : (n : ℚ) / total * 100 = q + (f : ℚ) / total := by
    have hcast : (total : ℚ) * q + f = 100 * n := by exact_mod_cast hdiv
    field_simp
    linarith
  rw [percent, round_eq, hvalue, Int.floor_eq_iff]
  have hzero : (0 : ℚ) ≤ (f : ℚ) / total := by positivity
  have hone : (f : ℚ) / total < 1 := (div_lt_one hpos).2 (by exact_mod_cast hlt)
  split
  · rename_i hup
    have hhalf : (1 / 2 : ℚ) ≤ (f : ℚ) / total := by
      have hcast : (total : ℚ) ≤ 2 * f := by exact_mod_cast hup
      rw [le_div_iff₀ hpos]
      linarith
    push_cast
    constructor <;> linarith
  · rename_i hdown
    have hhalf : (f : ℚ) / total < 1 / 2 := by
      have hcast : 2 * (f : ℚ) < total := by exact_mod_cast Nat.lt_of_not_le hdown
      rw [div_lt_iff₀ hpos]
      linarith
    push_cast
    constructor <;> linarith

theorem percent_bounds (htotal : 0 < total) (hn : n ≤ total) : 0 ≤ percent n total ∧ percent n total ≤ 100 := by
  rw [percent_eq htotal]
  obtain rfl | hlt := Nat.eq_or_lt_of_le hn
  · have hwhole : fraction n n = 0 := by simp [fraction]
    rw [Nat.mul_div_cancel _ htotal, hwhole, if_neg (by omega)]
    omega
  · have hless : 100 * n / total < 100 := Nat.div_lt_of_lt_mul (by omega)
    generalize 100 * n / total = q at *
    split <;> omega

theorem rounded_up_le_iff {x y w rest k : ℕ} (htotal : 0 < total) (hsum : x + y + w + 100 * rest = total * k) :
    (if total ≤ 2 * x then (1 : ℤ) else 0) + (if total ≤ 2 * y then 1 else 0) + (if total ≤ 2 * w then 1 else 0) ≤ k ↔
      ¬ ((total ≤ 2 * x ∧ total ≤ 2 * y ∧ total ≤ 2 * w ∧ x + y + w + 100 * rest = 2 * total) ∨
        (2 * x = total ∧ 2 * y = total ∧ w = 0 ∧ rest = 0) ∨ (2 * x = total ∧ 2 * w = total ∧ y = 0 ∧ rest = 0) ∨
        (2 * y = total ∧ 2 * w = total ∧ x = 0 ∧ rest = 0)) := by
  obtain rfl | rfl | rfl | hthree : k = 0 ∨ k = 1 ∨ k = 2 ∨ 3 ≤ k := by omega
  · obtain ⟨rfl, rfl, rfl, rfl⟩ : x = 0 ∧ y = 0 ∧ w = 0 ∧ rest = 0 := by omega
    rw [if_neg (by omega)]
    omega
  · split_ifs <;> omega
  · split_ifs <;> omega
  · have hmul := Nat.mul_le_mul_left total hthree
    split_ifs <;> omega

theorem sum_le_iff {a b c : ℕ} (htotal : 0 < total) (hle : a + b + c ≤ total) :
    percent a total + percent b total + percent c total ≤ 100 ↔ ¬ Overfull total a b c := by
  obtain ⟨rest, hrest⟩ : ∃ rest, total = a + b + c + rest := ⟨total - (a + b + c), by omega⟩
  have hleft : total - (a + b + c) = rest := by omega
  have ha : total * (100 * a / total) + fraction a total = 100 * a := Nat.div_add_mod ..
  have hb : total * (100 * b / total) + fraction b total = 100 * b := Nat.div_add_mod ..
  have hc : total * (100 * c / total) + fraction c total = 100 * c := Nat.div_add_mod ..
  -- the whole parts leave as much of 100 as the rest of the percentages comes to
  have hwhole : total * (100 * a / total + 100 * b / total + 100 * c / total) +
      (fraction a total + fraction b total + fraction c total + 100 * rest) = total * 100 := by
    rw [Nat.mul_add, Nat.mul_add]
    omega
  have hfew : 100 * a / total + 100 * b / total + 100 * c / total ≤ 100 := by
    by_contra hmore
    have hmul : total * 101 ≤ _ := Nat.mul_le_mul_left total (Nat.lt_of_not_le hmore)
    omega
  obtain ⟨k, hk⟩ := Nat.exists_eq_add_of_le hfew
  have hsum : fraction a total + fraction b total + fraction c total + 100 * rest = total * k := by
    have hsplit := Nat.mul_add total (100 * a / total + 100 * b / total + 100 * c / total) k
    rw [← hk] at hsplit
    omega
  rw [Overfull, hleft]
  refine Iff.trans ?_ (rounded_up_le_iff htotal hsum)
  rw [percent_eq htotal, percent_eq htotal, percent_eq htotal]
  constructor
  · intro h
    omega
  · intro h
    omega

end Shares

/-- **The shares make 100.** -/
theorem addUp_iff {total checkedIn cancelled noShow : ℕ} (htotal : 0 < total)
    (hle : checkedIn + cancelled + noShow ≤ total) :
    AddUp (shares total checkedIn cancelled noShow) ↔ ¬ Overfull total checkedIn cancelled noShow := by
  have hcheckIn := percent_bounds htotal (show checkedIn ≤ total by omega)
  have hcancel := percent_bounds htotal (show cancelled ≤ total by omega)
  have hnoShow := percent_bounds htotal (show noShow ≤ total by omega)
  rw [← sum_le_iff htotal hle]
  simp only [shares, if_pos (Nat.pos_iff_ne_zero.1 htotal)]
  constructor
  · intro h
    have hsum := h.sum
    simp only at hsum
    omega
  · intro h
    constructor <;> simp only <;> omega

theorem addUp_iff_five : AddUp (shares 5 0 1 0) ↔ ¬ Overfull 5 0 1 0 := addUp_iff (by omega) (by omega)

/-- Three of eight checked in, three cancelled and two did not come: 38, 38, 25 and 0. -/
theorem shares_over : shares 8 3 3 2 = ⟨38, 38, 25, 0⟩ ∧ ¬ AddUp (shares 8 3 3 2) := by
  have hshares : shares 8 3 3 2 = ⟨38, 38, 25, 0⟩ := by
    simp [shares, percent_eq, fraction]
  refine ⟨hshares, fun h => ?_⟩
  have hsum := h.sum
  rw [hshares] at hsum
  simp only at hsum
  omega

end BookingSystem.Contracts.Reports
