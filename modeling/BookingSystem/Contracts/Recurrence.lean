import BookingSystem.Model.Recurrence

/-!
# The windows of a recurring series

The loops of `expand` collect, of the starts that they come to, those up to the end date and the count that are not
excluded (`expand_eq_planned`).
-/

namespace BookingSystem.Contracts.Recurrence

open Base Model Model.RecurrenceService

/-! ### What a loop collects -/

section Loops

variable {dto : CreateRecurringDto} {durMs : ℤ} {exDates : List Date}

theorem countOf_pos (dto : CreateRecurringDto) : 0 < countOf dto := by
  have hdefault : 0 < if dto.untilDate.isSome = true then maxOccurrences else 1 := by
    split <;> decide
  unfold countOf
  cases dto.count with
  | none => exact hdefault
  | some n =>
    dsimp only
    split
    · exact hdefault
    · omega

theorem countOf_le (dto : CreateRecurringDto) : countOf dto ≤ maxOccurrences := by
  have hdefault : (if dto.untilDate.isSome = true then maxOccurrences else 1) ≤ maxOccurrences := by
    split <;> decide
  have hmax : (maxOccurrences : ℤ) = 100 := rfl
  unfold countOf
  cases dto.count with
  | none => exact hdefault
  | some n =>
    dsimp only
    split
    · exact hdefault
    · omega

def inTime (dto : CreateRecurringDto) (starts : List Date) : List Date :=
  starts.takeWhile fun s => !afterUntil dto s

def windows (durMs : ℤ) (exDates starts : List Date) : List (Date × Date) :=
  (starts.filter fun s => !exDates.contains s).map (window durMs)

theorem push_of_inTime {out : List (Date × Date)} {s : Date} (h : afterUntil dto s = false) :
    push dto durMs exDates out s = out ++ windows durMs exDates [s] := by
  unfold push windows
  by_cases hs : s ∈ exDates
  · simp [hs]
  · simp [hs, h]

theorem windows_cons (s : Date) (starts : List Date) :
    windows durMs exDates (s :: starts) = windows durMs exDates [s] ++ windows durMs exDates starts := by
  unfold windows
  rw [← List.map_append, ← List.filter_append]
  rfl

theorem dailyLoop_eq {server : TimeZone} {firstStart : Instant} (is : List ℕ) (out : List (Date × Date)) :
    dailyLoop server dto firstStart durMs exDates is out =
      out ++ windows durMs exDates
        (inTime dto (is.map fun i => addDays server firstStart (times i (intervalOf dto)))) := by
  induction is generalizing out with
  | nil => simp [dailyLoop, inTime, windows]
  | cons i is ih =>
    simp only [dailyLoop, List.map_cons, inTime, List.takeWhile_cons]
    cases hs : afterUntil dto (addDays server firstStart (times i (intervalOf dto))) with
    | true => simp [push, hs, windows]
    | false =>
      simp only [Bool.false_eq_true, if_false, Bool.not_false, if_true]
      rw [ih, push_of_inTime hs, List.append_assoc, ← windows_cons]
      rfl

/-- The loop over days as one over the starts that are not skipped. -/
def emit (dto : CreateRecurringDto) (durMs : ℤ) (exDates : List Date) : List Date → Expansion → Expansion
  | [], st => st
  | s :: starts, st =>
    if afterUntil dto s then { st with emitted := countOf dto }
    else
      let st' : Expansion := ⟨push dto durMs exDates st.out s, st.emitted + 1⟩
      if countOf dto ≤ st'.emitted then st' else emit dto durMs exDates starts st'

theorem emitDays_eq (date : ℤ → Option Date) (days : List ℤ) (st : Expansion) :
    emitDays dto durMs exDates date days st = emit dto durMs exDates (days.filterMap date) st := by
  induction days generalizing st with
  | nil => rfl
  | cons d days ih =>
    cases hd : date d with
    | none => simp only [emitDays, hd, List.filterMap_cons, ih]
    | some s => simp only [emitDays, hd, List.filterMap_cons, emit, ih]

/-- What the loop has collected. -/
theorem emit_out {starts : List Date} {st : Expansion} (h : st.emitted < countOf dto) :
    (emit dto durMs exDates starts st).out =
      st.out ++ windows durMs exDates ((inTime dto starts).take (countOf dto - st.emitted)) := by
  induction starts generalizing st with
  | nil => simp [emit, inTime, windows]
  | cons s starts ih =>
    obtain ⟨n, hn⟩ : ∃ n, countOf dto - st.emitted = n + 1 := ⟨countOf dto - st.emitted - 1, by omega⟩
    simp only [emit, inTime, List.takeWhile_cons, hn]
    cases hs : afterUntil dto s with
    | true => simp [windows]
    | false =>
      simp only [Bool.false_eq_true, if_false, Bool.not_false, if_true, List.take_succ_cons]
      rw [windows_cons, ← List.append_assoc, ← push_of_inTime hs]
      split
      · obtain rfl : n = 0 := by omega
        simp [windows]
      · rename_i hlt
        rw [ih (by simpa using hlt)]
        have hrest : countOf dto - (st.emitted + 1) = n := by omega
        rw [hrest]
        rfl

theorem emit_goes_on {starts : List Date} {st : Expansion} (h : st.emitted < countOf dto) :
    (emit dto durMs exDates starts st).emitted < countOf dto ↔
      (∀ s ∈ starts, afterUntil dto s = false) ∧ st.emitted + starts.length < countOf dto := by
  induction starts generalizing st with
  | nil => simp [emit, h]
  | cons s starts ih =>
    simp only [emit, List.forall_mem_cons, List.length_cons]
    cases hs : afterUntil dto s with
    | true => simp
    | false =>
      simp only [Bool.false_eq_true, if_false, true_and]
      split
      · simp only
        omega
      · rename_i hlt
        rw [ih (by simpa using hlt)]
        refine and_congr_right fun _ => ?_
        simp only
        omega

theorem emit_append {starts starts' : List Date} {st : Expansion} (h : st.emitted < countOf dto) :
    emit dto durMs exDates (starts ++ starts') st =
      if (emit dto durMs exDates starts st).emitted < countOf dto then
        emit dto durMs exDates starts' (emit dto durMs exDates starts st)
      else emit dto durMs exDates starts st := by
  induction starts generalizing st with
  | nil => simp [emit, h]
  | cons s starts ih =>
    simp only [List.cons_append, emit]
    cases hs : afterUntil dto s with
    | true => simp
    | false =>
      simp only [Bool.false_eq_true, if_false]
      split
      · rename_i hle
        rw [if_neg (by simpa using hle)]
      · rename_i hlt
        exact ih (by simpa using hlt)

/-- The loop collects no more than it counts, and counts no further than it wants. -/
theorem emit_le {starts : List Date} {st : Expansion} (hout : st.out.length ≤ st.emitted)
    (h : st.emitted < countOf dto) :
    (emit dto durMs exDates starts st).out.length ≤ (emit dto durMs exDates starts st).emitted ∧
      (emit dto durMs exDates starts st).emitted ≤ countOf dto := by
  induction starts generalizing st with
  | nil => exact ⟨hout, h.le⟩
  | cons s starts ih =>
    have hpush : (push dto durMs exDates st.out s).length ≤ st.emitted + 1 := by
      unfold push
      split_ifs
      · omega
      · omega
      · simpa using hout
    simp only [emit]
    split
    · exact ⟨hout.trans h.le, le_rfl⟩
    · split
      · exact ⟨hpush, h⟩
      · rename_i hlt
        exact ih hpush (by simpa using hlt)

def rounds {α β : Type} (date : β → ℤ → Option α) (next : β → β) (days : List ℤ) : ℕ → β → List α
  | 0, _ => []
  | n + 1, b => days.filterMap (date b) ++ rounds date next days n (next b)

theorem rounds_eq_flatMap {α β : Type} (date : β → ℤ → Option α) (next : β → β) (days : List ℤ) (n : ℕ) (b : β) :
    rounds date next days n b = (List.range n).flatMap fun k => days.filterMap (date (next^[k] b)) := by
  induction n generalizing b with
  | zero => rfl
  | succ n ih =>
    rw [rounds, ih, List.range_succ_eq_map, List.flatMap_cons, List.flatMap_map]
    rfl

theorem mem_rounds {α β : Type} {date : β → ℤ → Option α} {next : β → β} {days : List ℤ} {n : ℕ} {b : β} {a : α} :
    a ∈ rounds date next days n b ↔ ∃ k < n, ∃ d ∈ days, date (next^[k] b) d = some a := by
  simp only [rounds_eq_flatMap, List.mem_flatMap, List.mem_range, List.mem_filterMap]

theorem pairwise_rounds {α β : Type} {R : α → α → Prop} {date : β → ℤ → Option α} {next : β → β} {days : List ℤ}
    (hin : ∀ b, (days.filterMap (date b)).Pairwise R)
    (hout : ∀ b k, ∀ d ∈ days, ∀ a, date b d = some a → ∀ d' ∈ days, ∀ a', date (next^[k + 1] b) d' = some a' → R a a')
    (n : ℕ) (b : β) : (rounds date next days n b).Pairwise R := by
  induction n generalizing b with
  | zero => exact .nil
  | succ n ih =>
    rw [rounds, List.pairwise_append]
    refine ⟨hin b, ih (next b), fun a ha a' ha' => ?_⟩
    obtain ⟨d, hd, ha⟩ := List.mem_filterMap.1 ha
    obtain ⟨k, -, d', hd', ha'⟩ := mem_rounds.1 ha'
    exact hout b k d hd a ha d' hd' a' ha'

theorem le_length_rounds {α β : Type} {date : β → ℤ → Option α} {next : β → β} {days : List ℤ} {n : ℕ} {b : β}
    (h : ∀ k, days.filterMap (date (next^[k] b)) ≠ []) : n ≤ (rounds date next days n b).length := by
  induction n generalizing b with
  | zero => exact Nat.zero_le _
  | succ n ih =>
    have hpos := List.length_pos_of_ne_nil (h 0)
    have hrest := ih (b := next b) fun k => h (k + 1)
    rw [rounds, List.length_append]
    simp only [Function.iterate_zero, id] at hpos
    omega

/-- The loop over the rounds as one over their starts; the bound on the windows is never reached. -/
theorem emitRounds_eq {β : Type} {date : β → ℤ → Option Date} {next : β → β} {days : List ℤ} (fuel : ℕ) (b : β)
    {st : Expansion} (hout : st.out.length ≤ st.emitted) (h : st.emitted < countOf dto) :
    emitRounds dto durMs exDates date next days fuel b st =
      if (emit dto durMs exDates (rounds date next days fuel b) st).emitted < countOf dto then
        .error (.badRequest "Recurrence rule is too restrictive or never resolves to a valid date.")
      else .ok (emit dto durMs exDates (rounds date next days fuel b) st).out := by
  induction fuel generalizing b st with
  | zero => rfl
  | succ fuel ih =>
    have hle : (emit dto durMs exDates (days.filterMap (date b)) st).out.length ≤
        (emit dto durMs exDates (days.filterMap (date b)) st).emitted ∧
        (emit dto durMs exDates (days.filterMap (date b)) st).emitted ≤ countOf dto := emit_le hout h
    have hmax : ¬ maxOccurrences < (emit dto durMs exDates (days.filterMap (date b)) st).out.length := by
      have := countOf_le dto
      omega
    simp only [emitRounds, if_pos h, emitDays_eq, if_neg hmax, rounds, emit_append h]
    split
    · rename_i hgo
      rw [ih _ hle.1 hgo]
    · rename_i hstop
      cases fuel with
      | zero => simp only [emitRounds, if_neg hstop]
      | succ fuel => simp only [emitRounds, if_neg hstop]

end Loops

/-! ### The schedule -/

section Schedule

variable (server : TimeZone) (dto : CreateRecurringDto) (firstStart : Instant) (exDates : List Date) (durMs : ℤ)

/-- The local time that a weekly series asks the clocks for on a weekday of a week; an Invalid Date has none. -/
def weeklyTime (weekStart : Date) (wd : ℤ) : Option (Option ℤ) :=
  let candidate := addDays server weekStart (some wd)
  if isBefore candidate firstStart then none
  else some (candidate.map fun t =>
    server.withHours t (server.getHours firstStart) (server.getMinutes firstStart))

/-- The local time that a monthly series asks the server's clocks for on a day of a month. -/
def monthlyTime (monthOffset : ℕ) (dom : ℤ) : Option (Option ℤ) :=
  let l := (monthStart server dto firstStart monthOffset).bind fun t =>
    (maxDom server t).map fun last => server.withDate t (min dom last)
  if isBefore (l.bind fun l => timeClip (server.utc l)) firstStart then none else some l

def dateOf (l : Option ℤ) : Date := l.bind fun l => timeClip (server.utc l)

/-- The local times that the pattern of a request names, in the server's zone. -/
def named : List (Option ℤ) :=
  match dto.pattern with
  | .daily => (List.range (countOf dto)).map fun i =>
    (times i (intervalOf dto)).map fun n => server.shown firstStart + n * dayMs
  | .weekly =>
    rounds (weeklyTime server firstStart) (fun w => addDays server w (times 7 (intervalOf dto)))
      (weeklyDays server dto firstStart) (maxExpansionIterations + 1) (startOfWeek server firstStart)
  | .monthly =>
    rounds (monthlyTime server dto firstStart) (· + 1) (monthlyDays server dto firstStart)
      (maxExpansionIterations + 1) 0
  | _ => []

def dates : List Date := (named server dto firstStart).map (dateOf server)

def resolves : Bool :=
  (dates server dto firstStart).any (afterUntil dto) || countOf dto ≤ (dates server dto firstStart).length

/-- The local times of a series: the first of the named ones, up to the end date, less those excluded. -/
def kept : List (Option ℤ) :=
  if resolves server dto firstStart then
    (((named server dto firstStart).takeWhile fun l => !afterUntil dto (dateOf server l)).take (countOf dto)).filter
      fun l => !exDates.contains (dateOf server l)
  else []

def scheduled : List ℤ :=
  (kept server dto firstStart exDates).reduceOption.filter fun l =>
    IsDate (server.utc l) ∧ IsDate (server.utc l + durMs)

/-- The windows that begin when the server's clocks show the local times of the series. -/
def planned : Except HttpError (List (Date × Date)) :=
  if resolves server dto firstStart then
    .ok ((kept server dto firstStart exDates).map fun l => window durMs (dateOf server l))
  else .error (.badRequest "Recurrence rule is too restrictive or never resolves to a valid date.")

variable {server dto firstStart exDates durMs}

theorem named_weekly (hw : dto.pattern = .weekly) : named server dto firstStart =
    rounds (weeklyTime server firstStart) (fun w => addDays server w (times 7 (intervalOf dto)))
      (weeklyDays server dto firstStart) (maxExpansionIterations + 1) (startOfWeek server firstStart) := by
  simp only [named, hw]

theorem named_monthly (hm : dto.pattern = .monthly) : named server dto firstStart =
    rounds (monthlyTime server dto firstStart) (· + 1) (monthlyDays server dto firstStart)
      (maxExpansionIterations + 1) 0 := by
  simp only [named, hm]

theorem weeklyDate_eq (weekStart : Date) (wd : ℤ) :
    weeklyDate server firstStart weekStart wd = (weeklyTime server firstStart weekStart wd).map (dateOf server) := by
  unfold weeklyDate weeklyTime
  dsimp only
  split
  · rfl
  · rw [Option.map_some, dateOf, Option.bind_map]
    rfl

theorem monthlyDate_eq (monthOffset : ℕ) (dom : ℤ) :
    monthlyDate server dto firstStart monthOffset dom =
      (monthlyTime server dto firstStart monthOffset dom).map (dateOf server) := by
  have hdate : ((monthStart server dto firstStart monthOffset).bind fun t =>
      (maxDom server t).bind fun last => timeClip (server.setDate t (min dom last))) =
      dateOf server ((monthStart server dto firstStart monthOffset).bind fun t =>
        (maxDom server t).map fun last => server.withDate t (min dom last)) := by
    rw [dateOf, Option.bind_assoc]
    refine congrArg _ (funext fun t => ?_)
    rw [Option.bind_map]
    rfl
  unfold monthlyDate monthlyTime
  dsimp only
  rw [hdate, dateOf]
  split <;> rfl

theorem rounds_map {α β γ : Type} {date : β → ℤ → Option α} {time : β → ℤ → Option γ} {f : γ → α}
    (h : ∀ b d, date b d = (time b d).map f) (next : β → β) (days : List ℤ) (n : ℕ) (b : β) :
    rounds date next days n b = (rounds time next days n b).map f := by
  induction n generalizing b with
  | zero => rfl
  | succ n ih =>
    have hb : date b = fun d => (time b d).map f := funext (h b)
    simp only [rounds, ih, List.map_append, List.map_filterMap, hb]

theorem windows_map_dateOf (n : ℕ) (ls : List (Option ℤ)) :
    windows durMs exDates ((inTime dto (ls.map (dateOf server))).take n) =
      (((ls.takeWhile fun l => !afterUntil dto (dateOf server l)).take n).filter
        fun l => !exDates.contains (dateOf server l)).map fun l => window durMs (dateOf server l) := by
  unfold windows inTime
  rw [List.takeWhile_map, ← List.map_take, List.filter_map, List.map_map]
  rfl

theorem windows_dates (hres : resolves server dto firstStart = true) :
    windows durMs exDates ((inTime dto (dates server dto firstStart)).take (countOf dto)) =
      (kept server dto firstStart exDates).map fun l => window durMs (dateOf server l) := by
  rw [dates, windows_map_dateOf, kept, if_pos hres]

/-- The loop over the rounds collects the schedule. -/
theorem emitRounds_eq_planned {β : Type} {date : β → ℤ → Option Date} {time : β → ℤ → Option (Option ℤ)}
    (h : ∀ b d, date b d = (time b d).map (dateOf server)) {next : β → β} {days : List ℤ} {n : ℕ} {b : β}
    (hnamed : named server dto firstStart = rounds time next days n b) :
    emitRounds dto durMs exDates date next days n b ⟨[], 0⟩ = planned server dto firstStart exDates durMs := by
  have hpos : (⟨[], 0⟩ : Expansion).emitted < countOf dto := countOf_pos dto
  have hstarts : rounds date next days n b = dates server dto firstStart := by
    rw [dates, hnamed, rounds_map h]
  have hgo : (emit dto durMs exDates (dates server dto firstStart) ⟨[], 0⟩).emitted < countOf dto ↔ _ :=
    emit_goes_on hpos
  rw [emitRounds_eq n b (by simp) hpos, hstarts, planned]
  by_cases hres : resolves server dto firstStart = true
  · have hstop : ¬ (emit dto durMs exDates (dates server dto firstStart) ⟨[], 0⟩).emitted < countOf dto := by
      rw [hgo]
      simp only [resolves, Bool.or_eq_true, List.any_eq_true, decide_eq_true_eq] at hres
      rintro ⟨hall, hlt⟩
      rcases hres with ⟨s, hs, hafter⟩ | hle
      · rw [hall s hs] at hafter
        cases hafter
      · exact absurd hlt (by simpa using hle)
    rw [if_neg hstop, if_pos hres, emit_out hpos, ← windows_dates hres]
    rfl
  · rw [if_pos, if_neg hres]
    rw [hgo]
    simp only [resolves, Bool.or_eq_true, List.any_eq_true, decide_eq_true_eq, not_or, not_exists, not_and] at hres
    exact ⟨fun s hs => by simpa using hres.1 s hs, by simpa using hres.2⟩

theorem length_kept_le : (kept server dto firstStart exDates).length ≤ maxOccurrences := by
  unfold kept
  split
  · have hcount := countOf_le dto
    have htake := List.length_take_le (countOf dto)
      ((named server dto firstStart).takeWhile fun l => !afterUntil dto (dateOf server l))
    exact (List.length_filter_le _ _).trans (htake.trans hcount)
  · exact Nat.zero_le _

theorem take_planned :
    (do let out ← planned server dto firstStart exDates durMs; pure (out.take maxOccurrences)) =
      planned server dto firstStart exDates durMs := by
  unfold planned
  split
  · refine congrArg Except.ok (List.take_of_length_le ?_)
    rw [List.length_map]
    exact length_kept_le
  · rfl

theorem dates_daily (hd : dto.pattern = .daily) : dates server dto firstStart =
    (List.range (countOf dto)).map fun i => addDays server firstStart (times i (intervalOf dto)) := by
  simp only [dates, named, hd, List.map_map]
  refine List.map_congr_left fun i _ => ?_
  simp only [Function.comp_apply, dateOf, addDays, Option.bind_some, Option.bind_map]
  refine congrArg _ (funext fun n => ?_)
  rw [TimeZone.setDate, TimeZone.withDate_getDate]

theorem dailyLoop_eq_planned (hd : dto.pattern = .daily) :
    pure (dailyLoop server dto firstStart durMs exDates (List.range (countOf dto)) []) =
      planned server dto firstStart exDates durMs := by
  have hlen : (dates server dto firstStart).length = countOf dto := by
    rw [dates_daily hd, List.length_map, List.length_range]
  have hres : resolves server dto firstStart = true := by simp [resolves, hlen]
  have hle : (inTime dto (dates server dto firstStart)).length ≤ countOf dto :=
    hlen ▸ (List.takeWhile_sublist _).length_le
  rw [dailyLoop_eq, ← dates_daily hd, List.nil_append, ← List.take_of_length_le hle, windows_dates hres, planned,
    if_pos hres]
  rfl

/-- A request with a daily, weekly or monthly pattern. -/
def Regular (dto : CreateRecurringDto) : Prop :=
  dto.pattern = .daily ∨ dto.pattern = .weekly ∨ dto.pattern = .monthly

/-- **What `expand` computes.** -/
theorem expand_eq_planned (hp : Regular dto) (firstEnd : Instant) :
    expand server dto firstStart exDates firstEnd = planned server dto firstStart exDates (firstEnd - firstStart) := by
  rw [← take_planned]
  rcases hp with hd | hw | hm
  · rw [← dailyLoop_eq_planned hd]
    simp only [expand, hd]
  · rw [← emitRounds_eq_planned weeklyDate_eq (named_weekly hw)]
    simp only [expand, hw]
  · rw [← emitRounds_eq_planned monthlyDate_eq (named_monthly hm)]
    simp only [expand, hm]

end Schedule

end BookingSystem.Contracts.Recurrence
