import BookingSystem.Base.LocalTime
import Mathlib.Order.Monotone.Basic
import Mathlib.Algebra.Order.SuccPred
import Mathlib.Data.Int.ConditionallyCompleteOrder

/-!
# The Gregorian calendar

Months are numbered through, from January of the year `0` on: `firstDay` gives the first day of a month, and `monthOf`
the month of a day. Here they are shown to be inverse to each other. A year is taken to begin in March, so that a leap
day is its last; its days are counted within an era of 400 years.
-/

namespace BookingSystem.Base

def firstDay (n : ℤ) : ℤ := firstOfMonth 0 n

def monthOf (day : ℤ) : ℤ := 12 * (yearMonth day).1 + (yearMonth day).2

def monthLength (n : ℤ) : ℤ := firstDay (n + 1) - firstDay n

theorem firstOfMonth_eq (year month : ℤ) : firstOfMonth year month = firstDay (12 * year + month) := by
  have hmonth : (12 * year + month) % 12 = month % 12 := by omega
  have hyear : (12 * year + month) / 12 = year + month / 12 := by omega
  simp only [firstDay, firstOfMonth, hmonth, hyear, zero_add]

/-! ### Years that begin in March -/

/-- The first of March of a year, counted from that of the year `0`. -/
def marchOf (year : ℤ) : ℤ := year / 400 * 146097 + (year % 400 * 365 + year % 400 / 4 - year % 400 / 100)

/-- The days of a year before the given month of it, March being `0`. -/
def daysBefore (month : ℤ) : ℤ := (153 * month + 2) / 5

theorem firstDay_eq (n : ℤ) : firstDay n = marchOf ((n - 2) / 12) + daysBefore ((n - 2) % 12) - 719468 := by
  have hmonth : (n % 12 + 10) % 12 = (n - 2) % 12 := by omega
  have hyear : 0 + n / 12 - (if n % 12 < 2 then 1 else 0) = (n - 2) / 12 := by
    split <;> omega
  simp only [firstDay, firstOfMonth, hmonth, hyear, marchOf, daysBefore]
  omega

theorem march_step (year : ℤ) : marchOf year + 365 ≤ marchOf (year + 1) ∧ marchOf (year + 1) ≤ marchOf year + 366 := by
  unfold marchOf
  omega

theorem yearOfEra {c q r doy doe : ℤ} (hc : 0 ≤ c ∧ c ≤ 3) (hq : 0 ≤ q ∧ q ≤ 24) (hr : 0 ≤ r ∧ r ≤ 3)
    (h0 : 0 ≤ doy) (h1 : doy < 365 ∨ (doy = 365 ∧ r = 3 ∧ (q < 24 ∨ c = 3)))
    (hdoe : doe = 36524 * c + 1461 * q + 365 * r + doy) :
    (doe - doe / 1460 + doe / 36524 - doe / 146096) / 365 = 100 * c + 4 * q + r := by
  have hlast : doe / 1460 = 25 * c + q + (24 * c + q + 365 * r + doy) / 1460 := by omega
  have hrest : (24 * c + q + 365 * r + doy) / 1460 = 0 ∨ (24 * c + q + 365 * r + doy) / 1460 = 1 := by omega
  by_cases hend : doe = 146096
  · subst hend
    omega
  · have hera : doe / 146096 = 0 := by omega
    have hcent : doe / 36524 = c := by omega
    rw [hera, hcent, hlast]
    rcases hrest with h | h <;> rw [h] <;> omega

theorem exists_parts (year : ℤ) : ∃ era c q r : ℤ, (0 ≤ c ∧ c ≤ 3) ∧ (0 ≤ q ∧ q ≤ 24) ∧ (0 ≤ r ∧ r ≤ 3) ∧
    year = era * 400 + (100 * c + 4 * q + r) :=
  ⟨year / 400, year % 400 / 100, year % 100 / 4, year % 4, by omega, by omega, by omega, by omega⟩

theorem marchOf_parts {era c q r : ℤ} (hc : 0 ≤ c ∧ c ≤ 3) (hq : 0 ≤ q ∧ q ≤ 24) (hr : 0 ≤ r ∧ r ≤ 3) :
    marchOf (era * 400 + (100 * c + 4 * q + r)) = era * 146097 + (36524 * c + 1461 * q + 365 * r) := by
  have hera : (era * 400 + (100 * c + 4 * q + r)) / 400 = era := by omega
  have hyear : (era * 400 + (100 * c + 4 * q + r)) % 400 = 100 * c + 4 * q + r := by omega
  have hfours : (100 * c + 4 * q + r) / 4 = 25 * c + q := by omega
  have hcenturies : (100 * c + 4 * q + r) / 100 = c := by omega
  rw [marchOf, hera, hyear, hfours, hcenturies]
  omega

/-- A year of 366 days is the fourth of four, and not the last of a century but the fourth. -/
theorem day_of_leapYear {era c q r doy : ℤ} (hc : 0 ≤ c ∧ c ≤ 3) (hq : 0 ≤ q ∧ q ≤ 24) (hr : 0 ≤ r ∧ r ≤ 3)
    (h : marchOf (era * 400 + (100 * c + 4 * q + r)) + doy < marchOf (era * 400 + (100 * c + 4 * q + r) + 1)) :
    doy < 365 ∨ (doy = 365 ∧ r = 3 ∧ (q < 24 ∨ c = 3)) := by
  have hstep := (march_step (era * 400 + (100 * c + 4 * q + r))).2
  by_cases hleap : r = 3 ∧ (q < 24 ∨ c = 3)
  · have hle : doy ≤ 365 := by omega
    exact (lt_or_eq_of_le hle).imp id fun heq => ⟨heq, hleap⟩
  · refine .inl ?_
    clear hstep
    rw [marchOf_parts hc hq hr] at h
    rcases lt_or_eq_of_le hr.2 with hlt | rfl
    · have hyear : era * 400 + (100 * c + 4 * q + r) + 1 = era * 400 + (100 * c + 4 * q + (r + 1)) := by omega
      rw [hyear, marchOf_parts hc hq ⟨by omega, by omega⟩] at h
      omega
    · obtain ⟨rfl, hc3⟩ : q = 24 ∧ c < 3 := by omega
      have hyear : era * 400 + (100 * c + 4 * 24 + 3) + 1 = era * 400 + (100 * (c + 1) + 4 * 0 + 0) := by omega
      rw [hyear, marchOf_parts ⟨by omega, by omega⟩ ⟨le_rfl, by decide⟩ ⟨le_rfl, by decide⟩] at h
      omega

theorem era_of_day {era doe : ℤ} (h0 : 0 ≤ doe) (h1 : doe < 146097) :
    (era * 146097 + doe - 719468 + 719468) / 146097 = era ∧
      (era * 146097 + doe - 719468 + 719468) % 146097 = doe := by omega

theorem dayOfYear_parts {c q r doy : ℤ} (hq : 0 ≤ q ∧ q ≤ 24) (hr : 0 ≤ r ∧ r ≤ 3) :
    36524 * c + 1461 * q + 365 * r + doy - (365 * (100 * c + 4 * q + r) + (100 * c + 4 * q + r) / 4 -
      (100 * c + 4 * q + r) / 100) = doy := by
  have hfours : (100 * c + 4 * q + r) / 4 = 25 * c + q := by omega
  have hcenturies : (100 * c + 4 * q + r) / 100 = c := by omega
  rw [hfours, hcenturies]
  omega

theorem month_of_doy {doy : ℤ} (h0 : 0 ≤ doy) (h1 : doy ≤ 365) :
    0 ≤ (5 * doy + 2) / 153 ∧ (5 * doy + 2) / 153 ≤ 11 := by omega

theorem dayOfEra_lt {c q r doy : ℤ} (hc : 0 ≤ c ∧ c ≤ 3) (hq : 0 ≤ q ∧ q ≤ 24) (hr : 0 ≤ r ∧ r ≤ 3) (h0 : 0 ≤ doy)
    (h1 : doy < 365 ∨ (doy = 365 ∧ r = 3 ∧ (q < 24 ∨ c = 3))) :
    0 ≤ 36524 * c + 1461 * q + 365 * r + doy ∧ 36524 * c + 1461 * q + 365 * r + doy < 146097 := by omega

theorem monthOf_march {year doy : ℤ} (h0 : 0 ≤ doy) (h1 : marchOf year + doy < marchOf (year + 1)) :
    monthOf (marchOf year + doy - 719468) = 12 * year + (5 * doy + 2) / 153 + 2 := by
  obtain ⟨era, c, q, r, hc, hq, hr, rfl⟩ := exists_parts year
  have hdoy := day_of_leapYear hc hq hr h1
  have hyear := yearOfEra hc hq hr h0 hdoy rfl
  have hrange := dayOfEra_lt hc hq hr h0 hdoy
  have hera := @era_of_day era (36524 * c + 1461 * q + 365 * r + doy) hrange.1 hrange.2
  have hmonth := month_of_doy h0 (hdoy.elim le_of_lt fun h => h.1.le)
  rw [marchOf_parts hc hq hr, add_assoc (era * 146097)]
  simp only [monthOf, yearMonth, hera.1, hera.2, hyear, dayOfYear_parts hq hr]
  generalize (5 * doy + 2) / 153 = m at hmonth
  clear hera hyear hdoy hrange h1
  split <;> omega

theorem exists_day_of_era {doe : ℤ} (h0 : 0 ≤ doe) (h1 : doe < 146097) : ∃ c q r doy : ℤ, (0 ≤ c ∧ c ≤ 3) ∧
    (0 ≤ q ∧ q ≤ 24) ∧ (0 ≤ r ∧ r ≤ 3) ∧ 0 ≤ doy ∧ (doy < 365 ∨ (doy = 365 ∧ r = 3 ∧ (q < 24 ∨ c = 3))) ∧
    doe = 36524 * c + 1461 * q + 365 * r + doy := by
  obtain ⟨c, e, hc, he0, he1, rfl⟩ : ∃ c e : ℤ, (0 ≤ c ∧ c ≤ 3) ∧ 0 ≤ e ∧ (e < 36524 ∨ e = 36524 ∧ c = 3) ∧
      doe = 36524 * c + e :=
    ⟨min 3 (doe / 36524), doe - 36524 * min 3 (doe / 36524), by omega, by omega, by omega, by omega⟩
  obtain ⟨q, f, hq, hf, rfl⟩ : ∃ q f : ℤ, 0 ≤ q ∧ (0 ≤ f ∧ f < 1461) ∧ e = 1461 * q + f :=
    ⟨e / 1461, e % 1461, by omega, by omega, by omega⟩
  obtain ⟨r, doy, hr, hdoy, rfl⟩ : ∃ r doy : ℤ, (0 ≤ r ∧ r ≤ 3) ∧ (0 ≤ doy ∧ (doy < 365 ∨ doy = 365 ∧ r = 3)) ∧
      f = 365 * r + doy := ⟨min 3 (f / 365), f - 365 * min 3 (f / 365), by omega, by omega, by omega⟩
  exact ⟨c, q, r, doy, hc, ⟨hq, by omega⟩, hr, hdoy.1, by omega, by omega⟩

/-- Every day is one of a year from March on. -/
theorem exists_march (day : ℤ) : ∃ year doy, 0 ≤ doy ∧ marchOf year + doy < marchOf (year + 1) ∧
    day = marchOf year + doy - 719468 := by
  obtain ⟨c, q, r, doy, hc, hq, hr, h0, h1, hdoe⟩ :=
    @exists_day_of_era ((day + 719468) % 146097) (by omega) (by omega)
  obtain ⟨era, hera⟩ : ∃ era, day = era * 146097 + (36524 * c + 1461 * q + 365 * r) + doy - 719468 :=
    ⟨(day + 719468) / 146097, by omega⟩
  refine ⟨era * 400 + (100 * c + 4 * q + r), doy, h0, ?_, by rw [marchOf_parts hc hq hr, hera]⟩
  rcases h1 with hlt | ⟨rfl, rfl, hleap⟩
  · exact lt_of_lt_of_le (Int.add_lt_add_left hlt _) (march_step _).1
  · rw [marchOf_parts hc hq hr]
    by_cases hlast : q < 24
    · have hnext : era * 400 + (100 * c + 4 * q + 3) + 1 = era * 400 + (100 * c + 4 * (q + 1) + 0) := by omega
      rw [hnext, marchOf_parts hc ⟨by omega, by omega⟩ ⟨le_rfl, by decide⟩]
      omega
    · obtain ⟨rfl, rfl⟩ : q = 24 ∧ c = 3 := by omega
      have hnext : era * 400 + (100 * 3 + 4 * 24 + 3) + 1 = (era + 1) * 400 + (100 * 0 + 4 * 0 + 0) := by omega
      rw [hnext, marchOf_parts ⟨le_rfl, by decide⟩ ⟨le_rfl, by decide⟩ ⟨le_rfl, by decide⟩]
      omega

/-! ### Months -/

theorem monthLength_range (n : ℤ) : 28 ≤ monthLength n ∧ monthLength n ≤ 31 := by
  have hstep := march_step ((n - 2) / 12)
  rw [monthLength, firstDay_eq, firstDay_eq]
  by_cases hend : (n - 2) % 12 = 11
  · have hyear : (n + 1 - 2) / 12 = (n - 2) / 12 + 1 := by omega
    have hmonth : (n + 1 - 2) % 12 = 0 := by omega
    rw [hyear, hmonth, hend]
    have h11 : daysBefore 11 = 337 := rfl
    have h0 : daysBefore 0 = 0 := rfl
    omega
  · have hyear : (n + 1 - 2) / 12 = (n - 2) / 12 := by omega
    have hmonth : (n + 1 - 2) % 12 = (n - 2) % 12 + 1 := by omega
    rw [hyear, hmonth]
    unfold daysBefore
    omega

theorem firstDay_strictMono : StrictMono firstDay := by
  refine strictMono_int_of_lt_succ fun n => ?_
  have hlen := (monthLength_range n).1
  unfold monthLength at hlen
  omega

/-- A day belongs to its month. -/
theorem firstDay_monthOf (day : ℤ) : firstDay (monthOf day) ≤ day ∧ day < firstDay (monthOf day + 1) := by
  obtain ⟨year, doy, h0, h1, rfl⟩ := exists_march day
  have hdoy : doy < 366 := by
    have hstep := (march_step year).2
    omega
  obtain ⟨m, hm, hm0, hm11⟩ : ∃ m, (5 * doy + 2) / 153 = m ∧ 0 ≤ m ∧ m ≤ 11 := ⟨_, rfl, by omega, by omega⟩
  have hyear : (12 * year + m + 2 - 2) / 12 = year := by omega
  have hmonth : (12 * year + m + 2 - 2) % 12 = m := by omega
  rw [monthOf_march h0 h1, hm, firstDay_eq, firstDay_eq, hyear, hmonth]
  have hfirst : daysBefore m ≤ doy := by
    unfold daysBefore
    omega
  refine ⟨by omega, ?_⟩
  rcases lt_or_eq_of_le hm11 with hlt | rfl
  · have hyear' : (12 * year + m + 2 + 1 - 2) / 12 = year := by omega
    have hmonth' : (12 * year + m + 2 + 1 - 2) % 12 = m + 1 := by omega
    have hnext : doy < daysBefore (m + 1) := by
      unfold daysBefore
      omega
    rw [hyear', hmonth']
    omega
  · have hyear' : (12 * year + 11 + 2 + 1 - 2) / 12 = year + 1 := by omega
    have hmonth' : (12 * year + 11 + 2 + 1 - 2) % 12 = 0 := by omega
    have hzero : daysBefore 0 = 0 := rfl
    rw [hyear', hmonth', hzero]
    omega

theorem monthOf_mem {m n day : ℤ} (h0 : firstDay m ≤ day) (h1 : day < firstDay n) :
    m ≤ monthOf day ∧ monthOf day < n := by
  obtain ⟨hle, hlt⟩ := firstDay_monthOf day
  have hbelow := firstDay_strictMono.lt_iff_lt.1 (lt_of_le_of_lt h0 hlt)
  have habove := firstDay_strictMono.lt_iff_lt.1 (lt_of_le_of_lt hle h1)
  omega

theorem monthOf_eq {n day : ℤ} (h0 : firstDay n ≤ day) (h1 : day < firstDay (n + 1)) : monthOf day = n := by
  have hmem := monthOf_mem h0 h1
  omega

theorem dayOfMonth_eq (day : ℤ) : dayOfMonth day = day - firstDay (monthOf day) + 1 := by
  rw [dayOfMonth, firstOfMonth_eq, monthOf]

theorem dayOfMonth_of_mem {n day : ℤ} (h0 : firstDay n ≤ day) (h1 : day < firstDay (n + 1)) :
    dayOfMonth day = day - firstDay n + 1 := by
  rw [dayOfMonth_eq, monthOf_eq h0 h1]

/-- A month that is not of 31 days is followed by one that is. -/
theorem monthLength_succ {n : ℤ} (h : monthLength n ≤ 30) : monthLength (n + 1) = 31 := by
  rw [monthLength, firstDay_eq, firstDay_eq] at h ⊢
  by_cases hend : (n - 2) % 12 = 11
  · have hyear : (n + 1 - 2) / 12 = (n - 2) / 12 + 1 ∧ (n + 1 + 1 - 2) / 12 = (n - 2) / 12 + 1 := by omega
    have hmonth : (n + 1 - 2) % 12 = 0 ∧ (n + 1 + 1 - 2) % 12 = 1 := by omega
    rw [hyear.1, hyear.2, hmonth.1, hmonth.2]
    have hmarch : daysBefore 1 = daysBefore 0 + 31 := rfl
    omega
  · have hyear : (n + 1 - 2) / 12 = (n - 2) / 12 := by omega
    have hmonth : (n + 1 - 2) % 12 = (n - 2) % 12 + 1 := by omega
    rw [hyear, hmonth] at h ⊢
    unfold daysBefore at h ⊢
    have hjanuary : (n - 2) % 12 < 10 := by omega
    have hnext : (n + 1 + 1 - 2) / 12 = (n - 2) / 12 ∧ (n + 1 + 1 - 2) % 12 = (n - 2) % 12 + 2 := by omega
    rw [hnext.1, hnext.2]
    omega

/-! ### Days counted from the first of a month -/

section Counted

variable {n d : ℤ}

theorem monthOf_counted (h1 : 1 ≤ d) (hd : d ≤ monthLength n) : monthOf (firstDay n + d - 1) = n := by
  unfold monthLength at hd
  exact monthOf_eq (by omega) (by omega)

theorem dayOfMonth_counted (h1 : 1 ≤ d) (hd : d ≤ monthLength n) : dayOfMonth (firstDay n + d - 1) = d := by
  rw [dayOfMonth_eq, monthOf_counted h1 hd]
  omega

theorem monthOf_over (hd : monthLength n < d) (h31 : d ≤ 31) : monthOf (firstDay n + d - 1) = n + 1 := by
  have hnext := (monthLength_range (n + 1)).1
  have hlen := (monthLength_range n).1
  unfold monthLength at hd hnext hlen
  exact monthOf_eq (by omega) (by omega)

theorem dayOfMonth_over (hd : monthLength n < d) (h31 : d ≤ 31) :
    dayOfMonth (firstDay n + d - 1) = d - monthLength n := by
  rw [dayOfMonth_eq, monthOf_over hd h31, monthLength]
  omega

end Counted

end BookingSystem.Base
