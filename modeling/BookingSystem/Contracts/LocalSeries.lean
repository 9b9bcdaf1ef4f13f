import BookingSystem.Contracts.Recurrence
import Mathlib.Data.List.ReduceOption

/-!
# Whether a series keeps its local time

The expansion of a series works with the clocks of the server, and the meetings take place by the clocks of the tenant.
They keep their local time exactly when the tenant's clocks are ahead of the server's by the same time, up to whole
days, at all of them (`keepsLocalTime_iff`). No meeting is booked for a window with an Invalid Date.
-/

namespace BookingSystem.Contracts.Recurrence

open Base Model Model.RecurrenceService

/-! ### The local time of an occurrence -/

def localTime (tenant : Zone) (t : Instant) : ℤ := t + tenant t

/-- The tenant's clocks show the time of day of `t` at some instant of the day of `t'`. -/
def ShowsTime (tenant : Zone) (t t' : Instant) : Prop :=
  ∃ u, dayOf (localTime tenant u) = dayOf (localTime tenant t') ∧
    timeInDay (localTime tenant u) = timeInDay (localTime tenant t)

/-- On the tenant's clocks `t'` is the same time of day as `t`, if there is that time on its day. -/
def SameTime (tenant : Zone) (t t' : Instant) : Prop :=
  ShowsTime tenant t t' → timeInDay (localTime tenant t') = timeInDay (localTime tenant t)

def bydayOf (tenant : Zone) (dto : CreateRecurringDto) (firstStart : Instant) : List ℤ :=
  if dto.byday.isEmpty then [weekdayOf (localTime tenant firstStart)] else dto.byday

def validWindows (occurrences : List (Date × Date)) : List (Instant × Instant) :=
  occurrences.filterMap fun occ => occ.1.bind fun s => occ.2.map fun e => (s, e)

/-- All windows of a daily, weekly or monthly series begin and end at the same time of day as the first one, and those
of a weekly series are on the weekdays asked for. -/
def KeepsLocalTime (tenant : Zone) (server : TimeZone) (dto : CreateRecurringDto) (firstStart firstEnd : Instant)
    (exDates : List Date) : Prop :=
  Regular dto → ∀ occurrences, expand server dto firstStart exDates firstEnd = .ok occurrences →
    (∀ first ∈ (validWindows occurrences).head?, ∀ occ ∈ validWindows occurrences,
      SameTime tenant first.1 occ.1 ∧ SameTime tenant first.2 occ.2) ∧
    (dto.pattern = .weekly → ∀ occ ∈ validWindows occurrences,
      weekdayOf (localTime tenant occ.1) ∈ bydayOf tenant dto firstStart)

/-! ### The two clocks -/

section Clocks

variable (tenant : Zone) (server : TimeZone) (dto : CreateRecurringDto) (firstStart : Instant)

/-- How far the tenant's clocks are ahead, a time `d` after the server's clocks were set to `l`. -/
def lead (l d : ℤ) : ℤ := tenant (server.utc l + d) - (l - server.utc l)

def daysAhead (l : ℤ) : ℤ := dayOf (timeInDay l + lead tenant server l 0)

/-- How far the time of day of `l` is from that of `l₀`. Only a monthly series can have drifted, when the server's
clocks skip its time on the first of a month, through which `setMonth` goes. -/
def drift (l₀ l : ℤ) : ℤ := if dto.pattern = .monthly then timeInDay l - timeInDay l₀ else 0

/-- The tenant's clocks keep their distance from the server's: at the starts and the ends of the series it is what it
is at the first one, up to whole days; and in a weekly series the server's weekdays, moved by the days the tenant is
ahead, are among those asked for. -/
def InStep (firstEnd : Instant) (exDates : List Date) : Prop :=
  (∀ l₀ ∈ (scheduled server dto firstStart exDates (firstEnd - firstStart)).head?,
    ∀ l ∈ scheduled server dto firstStart exDates (firstEnd - firstStart), ∀ d ∈ [0, firstEnd - firstStart],
    ShowsTime tenant (server.utc l₀ + d) (server.utc l + d) →
      lead tenant server l d + drift dto l₀ l ≡ lead tenant server l₀ d [ZMOD dayMs]) ∧
  (dto.pattern = .weekly → ∀ l ∈ scheduled server dto firstStart exDates (firstEnd - firstStart),
    (weekdayOf l + daysAhead tenant server l) % 7 ∈ bydayOf tenant dto firstStart)

variable {tenant server dto firstStart} {exDates : List Date} {durMs : ℤ}

theorem localTime_utc (l d : ℤ) : localTime tenant (server.utc l + d) = l + d + lead tenant server l d := by
  unfold localTime lead
  omega

theorem weekday_localTime (l : ℤ) :
    weekdayOf (localTime tenant (server.utc l)) = (weekdayOf l + daysAhead tenant server l) % 7 := by
  have hlocal : localTime tenant (server.utc l) = dayOf l * dayMs + (timeInDay l + lead tenant server l 0) := by
    have hday := dayOf_add_timeInDay l
    unfold localTime lead
    rw [add_zero]
    omega
  unfold weekdayOf daysAhead
  rw [hlocal, dayOf_add_days]
  omega

theorem mem_named {l : ℤ} (h : l ∈ scheduled server dto firstStart exDates durMs) :
    some l ∈ named server dto firstStart := by
  have hkept := List.reduceOption_mem_iff.1 (List.mem_of_mem_filter h)
  unfold kept at hkept
  split at hkept
  · exact (List.takeWhile_sublist _).subset (List.mem_of_mem_take (List.mem_of_mem_filter hkept))
  · cases hkept

theorem timeInDay_named (hp : Regular dto) (hm : dto.pattern ≠ .monthly) {l l' : ℤ}
    (hl : some l ∈ named server dto firstStart) (hl' : some l' ∈ named server dto firstStart) :
    timeInDay l = timeInDay l' := by
  rcases hp with hd | hw | hm'
  · have hday : ∀ x, some x ∈ named server dto firstStart → timeInDay x = timeInDay (server.shown firstStart) := by
      intro x hx
      simp only [named, hd, List.mem_map] at hx
      obtain ⟨i, -, hx⟩ := hx
      obtain ⟨n, -, rfl⟩ := Option.map_eq_some_iff.1 hx
      rw [add_comm, timeInDay_add_days]
    rw [hday l hl, hday l' hl']
  · have hweek : ∀ x, some x ∈ named server dto firstStart → timeInDay x =
        timeInDay (server.getHours firstStart * 3600000 + server.getMinutes firstStart * 60000) := by
      intro x hx
      rw [named_weekly hw] at hx
      obtain ⟨k, -, wd, -, hx⟩ := mem_rounds.1 hx
      simp only [weeklyTime, Option.ite_none_left_eq_some, Option.some.injEq] at hx
      obtain ⟨t, -, rfl⟩ := Option.map_eq_some_iff.1 hx.2
      rw [TimeZone.timeInDay_withHours]
    rw [hweek l hl, hweek l' hl']
  · exact absurd hm' hm

theorem drift_modEq (hp : Regular dto) {l₀ l : ℤ} (hl₀ : some l₀ ∈ named server dto firstStart)
    (hl : some l ∈ named server dto firstStart) : drift dto l₀ l ≡ l - l₀ [ZMOD dayMs] := by
  have hmod : ∀ x, timeInDay x ≡ x [ZMOD dayMs] := fun x => Int.mod_modEq x dayMs
  have hdiff : timeInDay l - timeInDay l₀ ≡ l - l₀ [ZMOD dayMs] := (hmod l).sub (hmod l₀)
  unfold drift
  split
  · exact hdiff
  · rename_i hm
    rwa [timeInDay_named hp hm hl hl₀, sub_self] at hdiff

theorem timeInDay_iff (hp : Regular dto) {l₀ l : ℤ} (hl₀ : some l₀ ∈ named server dto firstStart)
    (hl : some l ∈ named server dto firstStart) (d : ℤ) :
    timeInDay (localTime tenant (server.utc l + d)) = timeInDay (localTime tenant (server.utc l₀ + d)) ↔
      lead tenant server l d + drift dto l₀ l ≡ lead tenant server l₀ d [ZMOD dayMs] := by
  have hdrift := drift_modEq hp hl₀ hl
  rw [timeInDay_eq_iff, localTime_utc, localTime_utc]
  constructor
  · intro h
    calc lead tenant server l d + drift dto l₀ l
        ≡ lead tenant server l d + (l - l₀) [ZMOD dayMs] := hdrift.add_left _
      _ = (l + d + lead tenant server l d) - (l₀ + d) := by omega
      _ ≡ (l₀ + d + lead tenant server l₀ d) - (l₀ + d) [ZMOD dayMs] := h.sub_right _
      _ = lead tenant server l₀ d := by omega
  · intro h
    calc l + d + lead tenant server l d
        = lead tenant server l d + (l - l₀) + (l₀ + d) := by omega
      _ ≡ lead tenant server l d + drift dto l₀ l + (l₀ + d) [ZMOD dayMs] := (hdrift.symm.add_left _).add_right _
      _ ≡ lead tenant server l₀ d + (l₀ + d) [ZMOD dayMs] := h.add_right _
      _ = l₀ + d + lead tenant server l₀ d := by omega

theorem scheduled_eq_nil (h : ¬ Regular dto ∨ ¬ resolves server dto firstStart = true) :
    scheduled server dto firstStart exDates durMs = [] := by
  have hkept : kept server dto firstStart exDates = [] := by
    refine if_neg ?_
    rcases h with hp | hres
    · have hnamed : named server dto firstStart = [] := by
        unfold named
        split
        · rename_i hd
          exact absurd (.inl hd) hp
        · rename_i hw
          exact absurd (.inr (.inl hw)) hp
        · rename_i hm
          exact absurd (.inr (.inr hm)) hp
        · rfl
      have hpos := (countOf_pos dto).ne'
      simpa [resolves, dates, hnamed] using hpos
    · exact hres
  rw [scheduled, hkept]
  rfl

theorem validWindows_kept (durMs : ℤ) : validWindows ((kept server dto firstStart exDates).map fun l =>
      window durMs (dateOf server l)) =
    (scheduled server dto firstStart exDates durMs).map fun l => (server.utc l, server.utc l + durMs) := by
  unfold validWindows scheduled
  induction kept server dto firstStart exDates with
  | nil => rfl
  | cons l ls ih =>
    cases l with
    | none =>
      rw [List.map_cons, List.filterMap_cons_none rfl, ih, List.reduceOption_cons_of_none]
    | some l =>
      rw [List.map_cons, List.reduceOption_cons_of_some]
      by_cases hs : IsDate (server.utc l)
      · have hdate : dateOf server (some l) = some (server.utc l) := if_pos hs
        by_cases he : IsDate (server.utc l + durMs)
        · rw [List.filterMap_cons_some (b := (server.utc l, server.utc l + durMs)), ih,
            List.filter_cons, if_pos (decide_eq_true ⟨hs, he⟩), List.map_cons]
          simp only [hdate, window, Option.bind_some, timeClip, if_pos he, Option.map_some]
        · rw [List.filterMap_cons_none, ih, List.filter_cons_of_neg (by simp [he])]
          simp only [hdate, window, Option.bind_some, timeClip, if_neg he, Option.map_none]
      · have hdate : dateOf server (some l) = none := if_neg hs
        rw [List.filterMap_cons_none, ih, List.filter_cons_of_neg (by simp [hs])]
        simp only [hdate, window, Option.bind_none]

theorem keepsLocalTime_iff_scheduled {firstEnd : Instant} :
    KeepsLocalTime tenant server dto firstStart firstEnd exDates ↔
      (∀ l₀ ∈ (scheduled server dto firstStart exDates (firstEnd - firstStart)).head?,
        ∀ l ∈ scheduled server dto firstStart exDates (firstEnd - firstStart),
        ∀ d ∈ [0, firstEnd - firstStart], SameTime tenant (server.utc l₀ + d) (server.utc l + d)) ∧
      (dto.pattern = .weekly → ∀ l ∈ scheduled server dto firstStart exDates (firstEnd - firstStart),
        weekdayOf (localTime tenant (server.utc l)) ∈ bydayOf tenant dto firstStart) := by
  by_cases hp : Regular dto
  · by_cases hres : resolves server dto firstStart = true
    · have hok : expand server dto firstStart exDates firstEnd = .ok ((kept server dto firstStart exDates).map
          fun l => window (firstEnd - firstStart) (dateOf server l)) := by
        rw [expand_eq_planned hp, planned, if_pos hres]
      have hvalid := @validWindows_kept server dto firstStart exDates (firstEnd - firstStart)
      constructor
      · intro h
        obtain ⟨htime, hday⟩ := h hp _ hok
        rw [hvalid] at htime hday
        refine ⟨fun l₀ hl₀ l hl d hd => ?_, fun hw l hl => hday hw _ (List.mem_map_of_mem hl)⟩
        have hfirst : (server.utc l₀, server.utc l₀ + (firstEnd - firstStart)) ∈
            ((scheduled server dto firstStart exDates (firstEnd - firstStart)).map
              fun l => (server.utc l, server.utc l + (firstEnd - firstStart))).head? := by
          rw [List.head?_map]
          exact Option.mem_map_of_mem _ hl₀
        obtain ⟨hstart, hend⟩ := htime _ hfirst _ (List.mem_map_of_mem hl)
        rcases List.mem_cons.1 hd with rfl | hd
        · simpa using hstart
        · obtain rfl := List.mem_singleton.1 hd
          exact hend
      · rintro ⟨htime, hday⟩ - occurrences hocc
        obtain rfl := Except.ok.inj (hok.symm.trans hocc)
        rw [hvalid]
        refine ⟨fun first hfirst occ hmem => ?_, fun hw occ hmem => ?_⟩
        · rw [List.head?_map] at hfirst
          obtain ⟨l₀, hl₀, rfl⟩ := Option.mem_map.1 hfirst
          obtain ⟨l, hl, rfl⟩ := List.mem_map.1 hmem
          refine ⟨?_, htime l₀ hl₀ l hl _ (by simp)⟩
          simpa using htime l₀ hl₀ l hl 0 (by simp)
        · obtain ⟨l, hl, rfl⟩ := List.mem_map.1 hmem
          exact hday hw l hl
    · rw [scheduled_eq_nil (.inr hres)]
      refine ⟨fun _ => ⟨by simp, by simp⟩, fun _ _ occurrences hocc => ?_⟩
      rw [expand_eq_planned hp, planned, if_neg hres] at hocc
      cases hocc
  · rw [scheduled_eq_nil (.inl hp)]
    exact ⟨fun _ => ⟨by simp, by simp⟩, fun _ hp' => absurd hp' hp⟩

end Clocks

/-- **A series keeps its local time** iff the tenant's clocks keep their distance from the server's: for every zone of
the tenant, every zone of the server and every request. -/
theorem keepsLocalTime_iff (tenant : Zone) (server : TimeZone) (dto : CreateRecurringDto)
    (firstStart firstEnd : Instant) (exDates : List Date) :
    KeepsLocalTime tenant server dto firstStart firstEnd exDates ↔
      InStep tenant server dto firstStart firstEnd exDates := by
  rw [keepsLocalTime_iff_scheduled, InStep]
  refine and_congr ?_ ?_
  · refine forall₂_congr fun l₀ hl₀ => forall₂_congr fun l hl => forall₂_congr fun d _ => forall_congr' fun _ => ?_
    by_cases hp : Regular dto
    · exact timeInDay_iff hp (mem_named (List.mem_of_mem_head? hl₀)) (mem_named hl) d
    · rw [scheduled_eq_nil (.inl hp)] at hl
      cases hl
  · refine forall_congr' fun _ => forall₂_congr fun l _ => ?_
    rw [weekday_localTime]

/-! ### Two series on a server in UTC -/

def newYork : Zone := fun t => if t < 1772953200000 then -18000000 else -14400000

def hongKong : Zone := fun _ => 28800000

/-- A meeting at two in the afternoon, on the day before the clocks change in New York and the day after. -/
def twoDays : CreateRecurringDto where
  firstStart := some 1772910000000
  firstEnd := some 1772913600000
  pattern := .daily
  count := some 2
  booking := { resourceId := "r", startTime := 1772910000000, endTime := 1772913600000 }

/-- A meeting at seven in the morning in Hong Kong, on Mondays. -/
def mondays : CreateRecurringDto where
  firstStart := some 1780268400000
  firstEnd := some 1780272000000
  pattern := .weekly
  count := some 1
  byday := [1]
  booking := { resourceId := "r", startTime := 1780268400000, endTime := 1780272000000 }

/-- The second meeting in New York is at three, and the meeting in Hong Kong is on a Tuesday. -/
theorem not_keepsLocalTime : ¬ KeepsLocalTime newYork (.fixed 0) twoDays 1772910000000 1772913600000 [] ∧
    ¬ KeepsLocalTime hongKong (.fixed 0) mondays 1780268400000 1780272000000 [] := by
  constructor
  · intro h
    have hexpand : expand (.fixed 0) twoDays 1772910000000 [] 1772913600000 =
        .ok [(some 1772910000000, some 1772913600000), (some 1772996400000, some 1773000000000)] := by
      decide +kernel
    have hsame := ((h (.inl rfl) _ hexpand).1 _ rfl (1772996400000, 1773000000000) (by simp [validWindows])).1
    have hshows : ShowsTime newYork 1772910000000 1772996400000 := ⟨1772992800000, by decide, by decide⟩
    exact absurd (hsame hshows) (by decide)
  · intro h
    have hexpand : expand (.fixed 0) mondays 1780268400000 [] 1780272000000 =
        .ok [(some 1780354800000, some 1780358400000)] := by
      decide +kernel
    exact absurd ((h (.inr (.inl rfl)) _ hexpand).2 rfl _ List.mem_cons_self) (by decide)

end BookingSystem.Contracts.Recurrence
