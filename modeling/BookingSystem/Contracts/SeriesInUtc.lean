import BookingSystem.Base.FirstOf
import BookingSystem.Contracts.Recurrence
import Mathlib.Data.List.ProdSigma
import Mathlib.Tactic.Ring

/-!
# Series on a server in UTC

A series is a set of instants, of which a request asks for the first ones up to an end date, less those it excludes
(`Expands`). On a server whose clocks show UTC, `expand` keeps of the starts that its loop comes to those up to the end
date and the count; if they come in order, no instant of the series is missing, and none is an Invalid Date, these are
the ones asked for.
-/

namespace BookingSystem.Contracts.SeriesInUtc

open Base Model Model.RecurrenceService Contracts.Recurrence

/-! ### The helpers -/

def utcServer : TimeZone := .fixed 0

@[simp] theorem shown_utcServer (t : ℤ) : utcServer.shown t = t := add_zero t

@[simp] theorem utc_utcServer (l : ℤ) : utcServer.utc l = l := sub_zero l

theorem timeClip_eq_some {t u : ℤ} : timeClip t = some u ↔ IsDate t ∧ t = u := by
  unfold timeClip
  split
  · rename_i h
    rw [Option.some.injEq, and_iff_right h]
  · rename_i h
    exact iff_of_false nofun fun hd => h hd.1

theorem addDays_utcServer (d : Date) (n : Option ℤ) :
    addDays utcServer d n = d.bind fun t => n.bind fun n => timeClip (t + n * dayMs) := by
  simp only [addDays, TimeZone.setDate, TimeZone.withDate_getDate, utc_utcServer, shown_utcServer]

theorem iterate_addDays {n : Option ℤ} {m : ℤ} (hn : ∀ x, n = some x → x = m) {k : ℕ} {d : Date} {t u : ℤ}
    (hd : ∀ x, d = some x → x = t) (h : (fun w => addDays utcServer w n)^[k] d = some u) : u = t + k * m * dayMs := by
  induction k generalizing d t with
  | zero => rw [hd u h, Nat.cast_zero, zero_mul, zero_mul, add_zero]
  | succ k ih =>
    rw [Function.iterate_succ_apply] at h
    have hnext : ∀ x, addDays utcServer d n = some x → x = t + m * dayMs := by
      intro x hx
      rw [addDays_utcServer] at hx
      obtain ⟨t', hd', hx⟩ := Option.bind_eq_some_iff.1 hx
      obtain ⟨n', hn', hx⟩ := Option.bind_eq_some_iff.1 hx
      rw [← (timeClip_eq_some.1 hx).2, hd t' hd', hn n' hn']
    rw [ih hnext h]
    push_cast
    ring

theorem iterate_of_isDate {n : Option ℤ} {m : ℤ} (hm : 0 ≤ m) {k : ℕ} (hn : k = 0 ∨ n = some m) {t : ℤ} (ht : IsDate t)
    (hend : IsDate (t + k * m * dayMs)) :
    (fun w => addDays utcServer w n)^[k] (some t) = some (t + k * m * dayMs) := by
  induction k generalizing t with
  | zero => rw [Function.iterate_zero, id, Nat.cast_zero, zero_mul, zero_mul, add_zero]
  | succ k ih =>
    have hsum : t + ((k + 1 : ℕ) : ℤ) * m * dayMs = t + m * dayMs + k * m * dayMs := by
      push_cast
      ring
    have hstep : 0 ≤ m * dayMs := mul_nonneg hm (by decide)
    have hrest : 0 ≤ k * m * dayMs := mul_nonneg (mul_nonneg (Int.natCast_nonneg k) hm) (by decide)
    have hnext : IsDate (t + m * dayMs) := ⟨by omega, by omega⟩
    have hday : addDays utcServer (some t) n = some (t + m * dayMs) := by
      rw [addDays_utcServer, hn.resolve_left (Nat.succ_ne_zero k)]
      exact if_pos hnext
    rw [hsum, Function.iterate_succ_apply, hday, ih (.inr (hn.resolve_left (Nat.succ_ne_zero k))) hnext (hsum ▸ hend)]

theorem iterate_addDays_none {n : Option ℤ} (k : ℕ) : (fun w => addDays utcServer w n)^[k] none = none := by
  induction k with
  | zero => rfl
  | succ k ih =>
    rw [Function.iterate_succ_apply]
    exact ih

theorem startOfWeek_utcServer (t : ℤ) : startOfWeek utcServer t =
    (timeClip (t - weekdayOf t * dayMs)).bind fun _ => timeClip ((dayOf t - weekdayOf t) * dayMs) := by
  have hday : utcServer.getDay t = weekdayOf t := by rw [TimeZone.getDay, shown_utcServer]
  have hback : utcServer.setDate t (utcServer.getDate t - utcServer.getDay t) = t - weekdayOf t * dayMs := by
    rw [hday, sub_eq_add_neg, TimeZone.setDate, TimeZone.withDate_getDate, utc_utcServer, shown_utcServer]
    ring
  rw [startOfWeek, hback]
  unfold timeClip
  split
  · have hsum : t - weekdayOf t * dayMs = -weekdayOf t * dayMs + t := by ring
    simp only [Option.bind_some, TimeZone.setHours, TimeZone.withHours, utc_utcServer, shown_utcServer, hsum,
      dayOf_add_days]
    have hmidnight : (-weekdayOf t + dayOf t) * dayMs + (0 * 3600000 + 0 * 60000) =
        (dayOf t - weekdayOf t) * dayMs := by ring
    rw [hmidnight]
  · rfl

theorem intervalOf_pos (dto : CreateRecurringDto) : 0 < intervalOf dto := by
  unfold intervalOf
  cases dto.interval with
  | none => exact Int.one_pos
  | some n =>
    dsimp only
    split_ifs with h
    · exact h
    · exact Int.one_pos

theorem times_eq_some {k : ℕ} {interval n : ℤ} (h : times k interval = some n) : n = k * interval := by
  unfold times at h
  split at h
  · exact (Option.some.inj h).symm
  · cases h

theorem iterate_next (k b : ℕ) : (· + 1)^[k] b = b + k := by
  induction k with
  | zero => rfl
  | succ k ih => rw [Function.iterate_succ_apply', ih, Nat.add_assoc]

theorem filterMap_product {α β γ : Type} (f : α × β → Option γ) (l : List α) (l' : List β) :
    (l ×ˢ l').filterMap f = l.flatMap fun a => l'.filterMap fun b => f (a, b) := by
  change List.filterMap _ (l.flatMap fun a => l'.map (Prod.mk a)) = _
  rw [List.filterMap_flatMap]
  refine congrArg (fun f => List.flatMap f _) (funext fun a => ?_)
  rw [List.filterMap_map]
  rfl

theorem rounds_eq_filterMap {α β : Type} (date : β → ℤ → Option α) (next : β → β) (days : List ℤ) (n : ℕ) (b : β) :
    rounds date next days n b = (List.range n ×ˢ days).filterMap fun x => date (next^[x.1] b) x.2 := by
  rw [rounds_eq_flatMap, filterMap_product]

/-! ### What is asked for and what is found -/

section Expansion

variable (dto : CreateRecurringDto) (firstStart : ℤ)

/-- The expansion of the request is the series `P`: the first instants of it up to the end date, as many as are wanted,
less those excluded. -/
def Expands (P : ℤ → Prop) (exDates : List Date) (firstEnd : Instant) : Prop :=
  ∃ starts : List ℤ, FirstOf (fun t => P t ∧ (!afterUntil dto (some t)) = true) (countOf dto) starts ∧
    expand utcServer dto firstStart exDates firstEnd =
      .ok (windows (firstEnd - firstStart) exDates (starts.map some))

/-- The loop of the request goes through `xs`. What it comes to is skipped, the start that it is in a calendar without
an end, or an Invalid Date; and it is the start at least for those that are `good`, if the loop begins well. -/
structure Comes {ι : Type} (xs : List ι) (date : ι → Option Date) (start : ι → Option ℤ) (good : ℤ → Prop)
    (begins : Prop) : Prop where
  dates_eq : dates utcServer dto firstStart = xs.filterMap date
  skipped : ∀ x ∈ xs, date x = none → start x = none
  valid : ∀ x ∈ xs, ∀ t, date x = some (some t) → start x = some t ∧ good t
  before : begins → ∀ x ∈ xs, start x = none → date x = none
  reached : begins → ∀ x ∈ xs, ∀ t, start x = some t → good t → date x = some (some t)

variable {dto firstStart} {P : ℤ → Prop} {exDates : List Date} {firstEnd : Instant}

theorem expand_utcServer (hp : Regular dto) : expand utcServer dto firstStart exDates firstEnd =
    if resolves utcServer dto firstStart then .ok (windows (firstEnd - firstStart) exDates
        ((inTime dto (dates utcServer dto firstStart)).take (countOf dto)))
    else .error (.badRequest "Recurrence rule is too restrictive or never resolves to a valid date.") := by
  rw [expand_eq_planned hp, planned]
  split
  · rename_i h
    rw [windows_dates h]
  · rfl

theorem resolves_of_length (h : countOf dto ≤ (dates utcServer dto firstStart).length) :
    resolves utcServer dto firstStart = true := by
  rw [resolves, decide_eq_true h, Bool.or_true]

theorem afterUntil_down (dto : CreateRecurringDto) (s t : ℤ) (hle : s ≤ t) (h : (!afterUntil dto (some t)) = true) :
    (!afterUntil dto (some s)) = true := by
  unfold afterUntil at h ⊢
  cases hu : dto.untilDate with
  | none => rfl
  | some d =>
    cases d with
    | none => rfl
    | some u =>
      simp only [hu, isBefore, Option.any_some, Bool.not_eq_true', decide_eq_false_iff_not, not_lt] at h ⊢
      exact hle.trans h

/-- Without an end date and without excluded dates, the loop has to come to the first instants of the series first. -/
theorem firstOf_of_expands (hp : Regular dto) (hno : dto.untilDate = none)
    (h : Expands dto firstStart P [] firstEnd) :
    ∃ starts : List ℤ, FirstOf P (countOf dto) starts ∧
      (dates utcServer dto firstStart).take (countOf dto) = starts.map some := by
  obtain ⟨starts, hfirst, hexp⟩ := h
  have hnone : ∀ s, (!afterUntil dto s) = true := fun s => by cases s <;> simp [afterUntil, hno]
  have hwindows : ∀ l : List Date, windows (firstEnd - firstStart) [] l = l.map (window (firstEnd - firstStart)) := by
    simp [windows]
  rw [expand_utcServer hp] at hexp
  split_ifs at hexp
  have heq := Except.ok.inj hexp
  rw [hwindows, hwindows, inTime, List.takeWhile_eq_self_iff.2 fun s _ => hnone s] at heq
  have hand : (fun t => P t ∧ (!afterUntil dto (some t)) = true) = P :=
    funext fun t => by rw [hnone, eq_self, and_true]
  exact ⟨starts, hand ▸ hfirst, List.map_injective_iff.2 (fun a b hab => (Prod.mk.inj hab).1) heq⟩

section Loop

variable {ι : Type} {xs : List ι} {date : ι → Option Date} {start : ι → Option ℤ} {good : ℤ → Prop} {begins : Prop}

theorem take_start (hskipped : ∀ x ∈ xs, date x = none → start x = none)
    (hvalid : ∀ x ∈ xs, ∀ t, date x = some (some t) → start x = some t ∧ good t) {n : ℕ} {starts : List ℤ}
    (h : (xs.filterMap date).take n = starts.map some) :
    (xs.filterMap start).take n = starts ∧ ∀ t ∈ starts, good t := by
  induction xs generalizing n starts with
  | nil =>
    rw [List.filterMap_nil, List.take_nil, eq_comm, List.map_eq_nil_iff] at h
    subst h
    exact ⟨by rw [List.filterMap_nil, List.take_nil], fun _ ht => nomatch ht⟩
  | cons x xs ih =>
    have hrest := @ih (fun y hy => hskipped y (List.mem_cons_of_mem _ hy))
      fun y hy => hvalid y (List.mem_cons_of_mem _ hy)
    cases hd : date x with
    | none =>
      rw [List.filterMap_cons_none hd] at h
      rw [List.filterMap_cons_none (hskipped x List.mem_cons_self hd)]
      exact hrest h
    | some s =>
      rw [List.filterMap_cons_some hd] at h
      cases n with
      | zero =>
        rw [List.take_zero, eq_comm, List.map_eq_nil_iff] at h
        subst h
        exact ⟨List.take_zero, fun _ ht => nomatch ht⟩
      | succ n =>
        rw [List.take_succ_cons] at h
        cases starts with
        | nil => cases h
        | cons t starts =>
          obtain ⟨rfl, htail⟩ := List.cons.inj h
          obtain ⟨hs, hgood⟩ := hvalid x List.mem_cons_self t hd
          obtain ⟨htake, hall⟩ := hrest htail
          rw [List.filterMap_cons_some hs, List.take_succ_cons, htake]
          exact ⟨rfl, List.forall_mem_cons.2 ⟨hgood, hall⟩⟩

/-- As long as the starts are good, the loop comes to them. -/
theorem take_dates {p : Date → Bool} (hbefore : ∀ x ∈ xs, start x = none → date x = none)
    (hreached : ∀ x ∈ xs, ∀ t, start x = some t → good t → date x = some (some t)) {n : ℕ}
    (hgood : ∀ starts t, starts ++ [t] <+: xs.filterMap start → starts.length < n → (∀ s ∈ starts, p (some s) = true) →
      good t) :
    ((xs.filterMap date).takeWhile p).take n =
      (((xs.filterMap start).takeWhile fun t => p (some t)).take n).map some := by
  induction xs generalizing n with
  | nil => simp
  | cons x xs ih =>
    have hrest := @ih (fun y hy => hbefore y (List.mem_cons_of_mem _ hy))
      fun y hy => hreached y (List.mem_cons_of_mem _ hy)
    cases hs : start x with
    | none =>
      rw [List.filterMap_cons_none hs] at hgood ⊢
      rw [List.filterMap_cons_none (hbefore x List.mem_cons_self hs)]
      exact hrest hgood
    | some t =>
      cases n with
      | zero => rfl
      | succ n =>
        rw [List.filterMap_cons_some hs] at hgood ⊢
        have hnow := hgood [] t (List.prefix_iff_eq_take.2 rfl) (Nat.succ_pos n) fun _ hs => nomatch hs
        rw [List.filterMap_cons_some (hreached x List.mem_cons_self t hs hnow)]
        by_cases ht : p (some t) = true
        · rw [List.takeWhile_cons_of_pos ht, List.takeWhile_cons_of_pos (p := fun t => p (some t)) ht,
            List.take_succ_cons, List.take_succ_cons, List.map_cons, hrest]
          intro starts u hpre hlen hall
          exact hgood (t :: starts) u (List.cons_prefix_cons.2 ⟨rfl, hpre⟩) (Nat.succ_lt_succ hlen)
            (List.forall_mem_cons.2 ⟨ht, hall⟩)
        · rw [List.takeWhile_cons_of_neg ht, List.takeWhile_cons_of_neg (p := fun t => p (some t)) ht]
          rfl

variable (h : Comes dto firstStart xs date start good begins)

include h in
theorem Comes.length_le : (xs.filterMap start).length ≤ (dates utcServer dto firstStart).length := by
  rw [h.dates_eq]
  have hskipped := h.skipped
  clear h
  induction xs with
  | nil => exact le_rfl
  | cons x xs ih =>
    have hrest := ih fun y hy => hskipped y (List.mem_cons_of_mem _ hy)
    cases hd : date x with
    | none => rwa [List.filterMap_cons_none hd, List.filterMap_cons_none (hskipped x List.mem_cons_self hd)]
    | some s =>
      rw [List.filterMap_cons_some hd, List.length_cons, List.filterMap_cons]
      split
      · omega
      · rw [List.length_cons]
        omega

include h in
/-- The expansion is the series if the loop comes to its first instants first, and to no Invalid Date before the end
date. -/
theorem Comes.expands (hp : Regular dto) (hbegins : begins) {n : ℕ} (hcount : countOf dto ≤ n)
    (hlong : n ≤ (xs.filterMap start).length) (hfirst : FirstOf P n ((xs.filterMap start).take n))
    (hgood : ∀ starts t, starts ++ [t] <+: xs.filterMap start → starts.length < countOf dto →
      (∀ s ∈ starts, (!afterUntil dto (some s)) = true) → good t) : Expands dto firstStart P exDates firstEnd := by
  have hdates := take_dates (p := fun s => !afterUntil dto s) (h.before hbegins) (h.reached hbegins) hgood
  have hlen : countOf dto ≤ ((xs.filterMap start).take n).length := by
    rw [List.length_take_of_le hlong]
    exact hcount
  refine ⟨_, hfirst.enumerates.firstOf (afterUntil_down _) (.inl hlen), ?_⟩
  rw [expand_utcServer hp, if_pos (resolves_of_length (hcount.trans (hlong.trans h.length_le))), inTime, h.dates_eq,
    hdates, takeWhile_take_take hcount]

theorem dates_with (hp : dto.pattern = .weekly ∨ dto.pattern = .monthly) (count : Option ℤ) (untilDate : Option Date) :
    dates utcServer { dto with count, untilDate } firstStart = dates utcServer dto firstStart := by
  refine congrArg (List.map _) ?_
  rcases hp with hw | hm
  · rw [named_weekly hw]
    exact named_weekly hw
  · rw [named_monthly hm]
    exact named_monthly hm

theorem Comes.with (hp : dto.pattern = .weekly ∨ dto.pattern = .monthly)
    (h : Comes dto firstStart xs date start good begins) (count : Option ℤ) (untilDate : Option Date) :
    Comes { dto with count, untilDate } firstStart xs date start good begins :=
  ⟨(dates_with hp count untilDate).trans h.dates_eq, h.skipped, h.valid, h.before, h.reached⟩

include h in
/-- The expansion is the series for every count, end date, excluded dates and length, iff the loop comes to the first
hundred instants of the series first, and they are good. -/
theorem Comes.expands_all_iff (hp : dto.pattern = .weekly ∨ dto.pattern = .monthly)
    (hlong : maxOccurrences ≤ (xs.filterMap start).length)
    (hbegins : ∀ starts : List ℤ, (dates utcServer dto firstStart).take maxOccurrences = starts.map some → begins) :
    (∀ (count : Option ℤ) (untilDate : Option Date) (exDates : List Date) (firstEnd : Instant),
      Expands { dto with count, untilDate } firstStart P exDates firstEnd) ↔
      FirstOf P maxOccurrences ((xs.filterMap start).take maxOccurrences) ∧ begins ∧
        ∀ t ∈ (xs.filterMap start).take maxOccurrences, good t := by
  constructor
  · intro hall
    have hp' : Regular { dto with count := some 100, untilDate := none } := .inr hp
    obtain ⟨starts, hfirst, htake⟩ := firstOf_of_expands hp' rfl (hall (some 100) none [] firstStart)
    rw [dates_with hp] at htake
    have hb := hbegins starts htake
    rw [h.dates_eq] at htake
    obtain ⟨rfl, hgood⟩ := take_start h.skipped h.valid htake
    exact ⟨hfirst, hb, hgood⟩
  · rintro ⟨hfirst, hb, hgood⟩ count untilDate exDates firstEnd
    have hcount := countOf_le { dto with count, untilDate }
    refine (h.with hp count untilDate).expands (.inr hp) hb hcount hlong hfirst fun starts t hpre hlen _ => hgood t ?_
    rw [List.prefix_iff_eq_take, List.length_append, List.length_singleton] at hpre
    have hmem : t ∈ (xs.filterMap start).take (starts.length + 1) :=
      hpre ▸ List.mem_append_right _ (List.mem_singleton_self t)
    exact (List.take_subset_take_left _ (by omega)) hmem

end Loop

end Expansion

end BookingSystem.Contracts.SeriesInUtc
