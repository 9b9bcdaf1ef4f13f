import BookingSystem.Contracts.SeriesInUtc
import BookingSystem.Model.Recurrence

/-!
# The reading of a recurrence rule

`rruleDto` takes a text apart on its own terms. Of a text that is a recurrence rule, it reads the frequency, the
interval, the count, the end and the weekdays as they are meant, and it leaves out the other parts (`reads_rule`).
-/

namespace BookingSystem.Contracts.RuleText

open Base Model Model.RecurrenceService Contracts.Recurrence
open Contracts.SeriesInUtc

/-! ### Characters and numbers -/

theorem upperCaseChar_eq {c : Char} (h : c.toUpper.toNat < 128) : upperCaseChar c = [c.toUpper] := by
  unfold upperCaseChar
  split
  case h_11 => rfl
  -- none of the listed characters is in ASCII when it is upper-cased on its own
  all_goals exact absurd h (by decide)

def isAscii (cs : List Char) : Bool := cs.all fun c => decide (c.toNat < 128)

theorem toUpperCase_eq {cs : List Char} (h : isAscii (Recur.upper cs) = true) :
    toUpperCase cs = Recur.upper cs := by
  induction cs with
  | nil => rfl
  | cons c cs ih =>
    rw [Recur.upper, List.map_cons, isAscii, List.all_cons, Bool.and_eq_true, decide_eq_true_eq] at h
    rw [toUpperCase, List.flatMap_cons, upperCaseChar_eq h.1, ← toUpperCase, ih h.2]
    rfl

theorem toUpperCase_of_mem {names : List (List Char)} (hascii : ∀ n ∈ names, isAscii n = true) {cs : List Char}
    (h : Recur.upper cs ∈ names) : toUpperCase cs = Recur.upper cs :=
  toUpperCase_eq (hascii _ h)

theorem isSpace_of_isDigit {c : Char} (h : c.isDigit = true) : isSpace c = false ∧ c ≠ '-' ∧ c ≠ '+' := by
  have hrange : 48 ≤ c.toNat ∧ c.toNat ≤ 57 := by
    simp only [Char.isDigit, Bool.and_eq_true, decide_eq_true_eq] at h
    exact ⟨h.1, h.2⟩
  refine ⟨?_, ?_, ?_⟩
  · unfold isSpace
    simp only [List.contains_eq_mem, List.mem_cons, List.not_mem_nil, or_false, Bool.or_eq_false_iff,
      decide_eq_false_iff_not, Bool.and_eq_false_iff]
    omega
  · rintro rfl
    exact absurd hrange (by decide)
  · rintro rfl
    exact absurd hrange (by decide)

theorem number_eq_some {cs : List Char} {n : ℕ} :
    Recur.number cs = some n ↔ cs ≠ [] ∧ cs.all Char.isDigit = true ∧ Recur.digitsValue cs = n := by
  unfold Recur.number
  split
  · rename_i h
    simp [h.1, h.2]
  · rename_i h
    simp only [reduceCtorEq, false_iff]
    exact fun hall => h ⟨hall.1, hall.2.1⟩

theorem parseInt_of_number {cs : List Char} {n : ℕ} (h : Recur.number cs = some n) : parseInt cs = some (n : ℤ) := by
  obtain ⟨hne, hall, hvalue⟩ := number_eq_some.1 h
  obtain ⟨c, cs, rfl⟩ := List.exists_cons_of_ne_nil hne
  have hc := isSpace_of_isDigit (List.all_eq_true.1 hall c List.mem_cons_self)
  have htake : (c :: cs).takeWhile Char.isDigit = c :: cs :=
    List.takeWhile_eq_self_iff.2 fun d hd => List.all_eq_true.1 hall d hd
  unfold parseInt
  rw [List.dropWhile_cons_of_neg (by simp [hc.1])]
  split
  · rename_i heq
    exact absurd (List.cons.inj heq).1 hc.2.1
  · rename_i heq
    exact absurd (List.cons.inj heq).1 hc.2.2
  · simp [htake, hvalue]

/-! ### Parts -/

theorem filterMap_of_mapM {α β γ : Type} {f : α → Option β} {g : α → Option γ} {h : β → Option γ} {l : List α}
    {l' : List β} (hl : l.mapM f = some l') (hg : ∀ a b, f a = some b → b ∈ l' → g a = h b) :
    l.filterMap g = l'.filterMap h := by
  induction l generalizing l' with
  | nil =>
    cases Option.some.inj hl
    rfl
  | cons a l ih =>
    simp only [List.mapM_cons, Option.pure_def, Option.bind_eq_bind, Option.bind_eq_some_iff, Option.some.injEq] at hl
    obtain ⟨b, hb, l'', hl'', rfl⟩ := hl
    rw [List.filterMap_cons, List.filterMap_cons, hg a b hb List.mem_cons_self,
      ih hl'' fun a' b' hb' hmem => hg a' b' hb' (List.mem_cons_of_mem _ hmem)]

theorem partNames_ascii : ∀ n ∈ Recur.partNames, isAscii n = true := by decide

section Parts

variable {text : List Char} {ps : List (List Char × List Char)} (hps : Recur.parts text = some ps)
  (hnodup : (ps.map (·.1)).Nodup) (hnames : ∀ p ∈ ps, p.1 ∈ Recur.partNames)

include hps hnames in
theorem rruleParts_eq : rruleParts text = ps.filterMap fun p => if p.2 = [] then none else some p := by
  refine filterMap_of_mapM hps fun p q hq hmem => ?_
  split at hq
  · rename_i name value hsplit
    obtain rfl := Option.some.inj hq
    have hname := hnames _ hmem
    have hne : name ≠ [] := by
      rintro rfl
      have hnone : ([] : List Char) ∉ Recur.partNames := by decide
      exact hnone hname
    simp only [hsplit, toUpperCase_of_mem partNames_ascii hname, hne, false_or]
  · cases hq

include hps hnodup hnames in
theorem rrulePart_of_part {name : String} {v : List Char} (h : Recur.part ps name = some v) (hne : v ≠ []) :
    rrulePart (rruleParts text) name = some v := by
  obtain ⟨p, hp, rfl⟩ := Option.map_eq_some_iff.1 h
  have hmem := List.mem_of_find?_eq_some hp
  have hset : p ∈ (rruleParts text).reverse := by
    rw [List.mem_reverse, rruleParts_eq hps hnames]
    exact List.mem_filterMap.2 ⟨p, hmem, if_neg hne⟩
  have hname : (p.1 == name.toList) = true := by simpa using List.find?_some hp
  rw [rrulePart]
  cases hq : (rruleParts text).reverse.find? fun p => p.1 == name.toList with
  | none => exact absurd hname (by simpa using List.find?_eq_none.1 hq p hset)
  | some q =>
    have hq' := List.mem_of_find?_eq_some hq
    rw [List.mem_reverse, rruleParts_eq hps hnames] at hq'
    obtain ⟨q', hmem', heq⟩ := List.mem_filterMap.1 hq'
    split at heq
    · cases heq
    · obtain rfl := Option.some.inj heq
      have hsame : q'.1 = p.1 := by
        have hqn := List.find?_some hq
        simp only [beq_iff_eq] at hqn hname
        rw [hqn, hname]
      rw [List.inj_on_of_nodup_map hnodup hmem' hmem hsame]
      rfl

include hps hnames in
theorem rrulePart_of_none {name : String} (h : Recur.part ps name = none) :
    rrulePart (rruleParts text) name = none := by
  rw [Recur.part, Option.map_eq_none_iff, List.find?_eq_none] at h
  rw [rrulePart, Option.map_eq_none_iff, List.find?_eq_none]
  intro q hq
  rw [List.mem_reverse, rruleParts_eq hps hnames] at hq
  obtain ⟨p, hp, heq⟩ := List.mem_filterMap.1 hq
  split at heq
  · cases heq
  · obtain rfl := Option.some.inj heq
    exact h p hp

end Parts

/-! ### What is read -/

theorem weekdayCode_of_weekday {cs : List Char} {wd : ℤ} (h : Recur.weekday cs = some wd) :
    weekdayCode cs = some wd := by
  obtain ⟨i, hi, -⟩ := Option.map_eq_some_iff.1 h
  have hmem : Recur.upper cs ∈ Recur.weekdayNames := List.isSome_idxOf?.1 (by rw [hi]; rfl)
  have hascii : ∀ n ∈ Recur.weekdayNames, isAscii n = true := by decide
  rw [weekdayCode, toUpperCase_of_mem hascii hmem]
  exact h

/-- A weekday without a number is read. -/
theorem weekdayCode_of_weekdayNum {cs : List Char} {d : WeekdayNum} (h : Recur.weekdayNum cs = some d)
    (hd : d.nth = none) : weekdayCode cs = some d.weekday := by
  simp only [Recur.weekdayNum, Option.bind_eq_bind, Option.bind_eq_some_iff] at h
  obtain ⟨wd, hwd, h⟩ := h
  split at h
  · rename_i hnil
    obtain rfl := Option.some.inj h
    have hdrop : cs.drop (cs.length - 2) = cs := by
      rcases List.take_eq_nil_iff.1 hnil with hlen | rfl
      · rw [hlen, List.drop_zero]
      · rfl
    rw [hdrop] at hwd
    exact weekdayCode_of_weekday hwd
  · obtain ⟨n, -, h⟩ := Option.bind_eq_some_iff.1 h
    obtain rfl := Option.some.inj h
    cases hd

theorem byday_of_listOf {v : List Char} {ds : List WeekdayNum} (h : Recur.listOf Recur.weekdayNum v = some ds)
    (hd : ∀ d ∈ ds, d.nth = none) : (v.splitOn ',').filterMap weekdayCode = ds.map (·.weekday) := by
  rw [filterMap_of_mapM h fun cs d hcs hmem => weekdayCode_of_weekdayNum hcs (hd d hmem), List.filterMap_eq_map']

theorem instantOf_le {year month day hour minute second : ℕ} (hyear : year ≤ 99) (hmonth : 1 ≤ month ∧ month ≤ 12)
    (hday : (day : ℤ) ≤ monthLength (12 * year + (month - 1))) (hhour : hour ≤ 23) (hminute : minute ≤ 59)
    (hsecond : second ≤ 60) : Recur.instantOf year month day hour minute second ≤ firstDay 1200 * dayMs := by
  have hmono := firstDay_strictMono.monotone (show (12 * year + (month - 1) + 1 : ℤ) ≤ 1200 by omega)
  unfold monthLength at hday
  unfold Recur.instantOf dayMs
  omega

/-- An end in capitals, after the first century, is read. -/
theorem parseUntil_of_dateTime {newDate : List Char → Option Instant} {cs : List Char} {u : ℤ}
    (h : Recur.dateTime cs = some u) (hcapitals : Recur.upper cs = cs) (hlate : firstDay 1200 * dayMs < u) :
    parseUntil newDate cs = some u := by
  rw [Recur.dateTime, hcapitals] at h
  split at h
  · rename_i y₁ y₂ y₃ y₄ m₁ m₂ d₁ d₂ h₁ h₂ i₁ i₂ s₁ s₂
    simp only [Option.bind_eq_bind, Option.bind_eq_some_iff] at h
    obtain ⟨year, hy, month, hm, day, hd, hour, hh, minute, hi, second, hs, h⟩ := h
    split at h
    · rename_i hvalid
      obtain rfl := Option.some.inj h
      obtain ⟨-, hdy, hy⟩ := number_eq_some.1 hy
      obtain ⟨-, hdm, hm⟩ := number_eq_some.1 hm
      obtain ⟨-, hdd, hd⟩ := number_eq_some.1 hd
      obtain ⟨-, hdh, hh⟩ := number_eq_some.1 hh
      obtain ⟨-, hdi, hi⟩ := number_eq_some.1 hi
      obtain ⟨-, hds, hs⟩ := number_eq_some.1 hs
      have hyear : ¬ (year : ℤ) ≤ 99 := fun hle => absurd hlate (not_lt.2
        (instantOf_le (by omega) ⟨hvalid.1, hvalid.2.1⟩ hvalid.2.2.2.1 hvalid.2.2.2.2.1 hvalid.2.2.2.2.2.1
          hvalid.2.2.2.2.2.2))
      have hdigits : [y₁, y₂, y₃, y₄, m₁, m₂, d₁, d₂].all Char.isDigit = true ∧
          [h₁, h₂, i₁, i₂, s₁, s₂].all Char.isDigit = true := by
        simp only [List.all_cons, List.all_nil, Bool.and_true, Bool.and_eq_true] at *
        tauto
      rw [parseUntil, if_neg (by simp), if_pos ⟨rfl, hdigits.1, rfl, hdigits.2, rfl⟩]
      simp only [List.take_succ_cons, List.take_zero, List.drop_succ_cons, List.drop_zero, hy, hm, hd, hh, hi, hs,
        dateUtc, hyear, and_false, if_false, firstOfMonth_eq]
      rfl
    · cases h
  · cases h

def patternOf : Freq → RecurrencePattern
  | .weekly => .weekly
  | .monthly => .monthly
  | _ => .daily

theorem pattern_of_freqOf {v : List Char} {f : Freq} (h : Recur.freqOf v = some f) : v ≠ [] ∧
    (if toUpperCase v = "WEEKLY".toList then RecurrencePattern.weekly
      else if toUpperCase v = "MONTHLY".toList then .monthly else .daily) = patternOf f := by
  have hupper : ∀ s : String, String.ofList (Recur.upper v) = s → isAscii s.toList = true →
      toUpperCase v = s.toList := fun s hs hascii => by
    have heq : Recur.upper v = s.toList := by rw [← hs, String.toList_ofList]
    rw [toUpperCase_eq (heq ▸ hascii), heq]
  have hne : ∀ s : String, toUpperCase v = s.toList → s.toList ≠ [] → v ≠ [] := by
    rintro s hs hs' rfl
    exact hs' hs.symm
  unfold Recur.freqOf at h
  split at h
  all_goals first
    | rename_i heq
      obtain rfl := Option.some.inj h
      have hv := hupper _ heq (by decide)
      refine ⟨hne _ hv (by decide), ?_⟩
      rw [hv]
      decide
    | cases h

theorem readPart_eq_some {α : Type} {ps : List (List Char × List Char)} {name : String} {default a : α}
    {f : List Char → Option α} (h : Recur.readPart ps name default f = some a) :
    (Recur.part ps name = none ∧ default = a) ∨ ∃ v, Recur.part ps name = some v ∧ f v = some a := by
  unfold Recur.readPart at h
  split at h
  · rename_i hnone
    exact .inl ⟨hnone, Option.some.inj h⟩
  · rename_i v hv
    exact .inr ⟨v, hv, h⟩

theorem positive_eq_some {v : List Char} {n : ℕ} (h : Recur.positive v = some n) : Recur.number v = some n ∧ 0 < n := by
  obtain ⟨hn, hpos⟩ := Option.filter_eq_some_iff.1 h
  exact ⟨hn, of_decide_eq_true hpos⟩

def wanted (rule : Recur) : ℕ := min (rule.count.getD maxOccurrences) maxOccurrences

/-- The request says what the rule does, as far as it looks at it. -/
structure Reads (rule : Recur) (dto : CreateRecurringDto) : Prop where
  pattern : dto.pattern = patternOf rule.freq
  interval : intervalOf dto = rule.interval
  count : countOf dto = wanted rule
  untilDate : dto.untilDate = rule.untilTime.map some
  byday : (∀ d ∈ rule.byDay, d.nth = none) → dto.byday = rule.byDay.map (·.weekday)
  bymonth : dto.bymonth = []

/-- The end of the rule, if it has one, is in capitals and after the first century. -/
structure PlainEnd (text : List Char) (rule : Recur) : Prop where
  capitals : ∀ ps v, Recur.parts text = some ps → Recur.part ps "UNTIL" = some v → Recur.upper v = v
  late : ∀ u, rule.untilTime = some u → firstDay 1200 * dayMs < u

section Reading

variable {text : List Char} {rule : Recur} {newDate : List Char → Option Instant} {firstStart firstEnd : ℤ}

theorem ofText_eq_some (h : Recur.ofText text = some rule) : ∃ ps, Recur.parts text = some ps ∧
    (ps.map (·.1)).Nodup ∧ (∀ p ∈ ps, p.1 ∈ Recur.partNames) ∧ Recur.ofParts ps = some rule := by
  simp only [Recur.ofText, Option.bind_eq_bind, Option.bind_eq_some_iff] at h
  obtain ⟨ps, hps, h⟩ := h
  split at h
  · rename_i hvalid
    exact ⟨ps, hps, hvalid.1, hvalid.2, h⟩
  · cases h

theorem interval_pos (h : Recur.ofText text = some rule) : 0 < rule.interval := by
  obtain ⟨ps, -, -, -, h⟩ := ofText_eq_some h
  rcases readPart_eq_some (Recur.ofParts_eq_some h).2.1 with ⟨-, hone⟩ | ⟨v, -, hpos⟩
  · rw [← hone]
    exact Nat.one_pos
  · exact (positive_eq_some hpos).2

theorem wkst_range (h : Recur.ofText text = some rule) : 0 ≤ rule.wkst ∧ rule.wkst < 7 := by
  obtain ⟨ps, -, -, -, h⟩ := ofText_eq_some h
  rcases readPart_eq_some (Recur.ofParts_eq_some h).2.2.2.2.2.1 with ⟨-, hmonday⟩ | ⟨v, -, hv⟩
  · rw [← hmonday]
    decide
  · obtain ⟨i, hi, hwkst⟩ := Option.map_eq_some_iff.1 hv
    have hlt := (List.idxOf?_eq_some_iff.1 hi).1
    have hlen : Recur.weekdayNames.length = 7 := rfl
    omega

theorem nth_none (h : Recur.ofText text = some rule) (hfreq : rule.freq = .weekly) :
    ∀ d ∈ rule.byDay, d.nth = none := by
  obtain ⟨ps, -, -, -, h⟩ := ofText_eq_some h
  rcases (Recur.ofParts_eq_some h).2.2.2.2.2.2.ordinals with hnone | hmonthly | ⟨hyearly, -⟩
  · exact hnone
  · rw [hfreq] at hmonthly
    cases hmonthly
  · rw [hfreq] at hyearly
    cases hyearly

/-- A rule is read as it is meant, as far as it is looked at. -/
theorem reads_rule (h : Recur.ofText text = some rule) (hend : PlainEnd text rule) :
    Reads rule (rruleDto newDate text firstStart firstEnd) := by
  obtain ⟨ps, hps, hnodup, hnames, h⟩ := ofText_eq_some h
  have hread : ∀ {name : String} {v : List Char}, Recur.part ps name = some v → v ≠ [] →
      rrulePart (rruleParts text) name = some v := fun hv hne => rrulePart_of_part hps hnodup hnames hv hne
  have hnone : ∀ {name : String}, Recur.part ps name = none → rrulePart (rruleParts text) name = none :=
    fun hv => rrulePart_of_none hps hnames hv
  obtain ⟨hfreq, hinterval, hcount, huntil, hbyDay, -, -⟩ := Recur.ofParts_eq_some h
  refine ⟨?_, ?_, ?_, ?_, fun hplain => ?_, rfl⟩
  · obtain ⟨v, hv, hfreq⟩ := Option.bind_eq_some_iff.1 hfreq
    obtain ⟨hne, hpattern⟩ := pattern_of_freqOf hfreq
    simp only [rruleDto, hread hv hne, Option.getD_some]
    exact hpattern
  · rcases readPart_eq_some hinterval with ⟨hv, hone⟩ | ⟨v, hv, hpos⟩
    · have hdefault : parseInt ['1'] = some 1 := by decide
      simp only [intervalOf, rruleDto, hnone hv, Option.getD_none, hdefault, Option.map_some, ← hone]
      rfl
    · obtain ⟨hnumber, hpos⟩ := positive_eq_some hpos
      have hmax : max 1 (rule.interval : ℤ) = rule.interval := by omega
      simp only [intervalOf, rruleDto, hread hv (number_eq_some.1 hnumber).1, Option.getD_some,
        parseInt_of_number hnumber, Option.map_some, hmax, Int.natCast_pos, hpos, if_true]
  · rcases readPart_eq_some hcount with ⟨hv, hall⟩ | ⟨v, hv, hpos⟩
    · have hdefault : parseInt ['0'] = some 0 := by decide
      simp only [countOf, rruleDto, hnone hv, Option.getD_none, hdefault, wanted, ← hall]
      rfl
    · obtain ⟨n, hpos, hn⟩ := Option.map_eq_some_iff.1 hpos
      obtain ⟨hnumber, hpos⟩ := positive_eq_some hpos
      have hne : (n : ℤ) ≠ 0 := by omega
      simp only [countOf, rruleDto, hread hv (number_eq_some.1 hnumber).1, Option.getD_some,
        parseInt_of_number hnumber, wanted, ← hn, hne, if_false, maxOccurrences]
      split
      · omega
      · omega
  · rcases readPart_eq_some huntil with ⟨hv, hforever⟩ | ⟨v, hv, hdate⟩
    · simp only [rruleDto, hnone hv, Option.map_none, ← hforever]
    · obtain ⟨u, hdate, hu⟩ := Option.map_eq_some_iff.1 hdate
      have hne : v ≠ [] := by
        rintro rfl
        cases hdate
      simp only [rruleDto, hread hv hne, Option.map_some, ← hu,
        parseUntil_of_dateTime hdate (hend.capitals ps v hps hv) (hend.late u hu.symm)]
  · rcases readPart_eq_some hbyDay with ⟨hv, hempty⟩ | ⟨v, hv, hlist⟩
    · simp only [rruleDto, hnone hv, Option.map_none, Option.getD_none, ← hempty, List.map_nil]
    · have hne : v ≠ [] := by
        rintro rfl
        have hnil : Recur.listOf Recur.weekdayNum [] = none := by decide
        rw [hnil] at hlist
        cases hlist
      simp only [rruleDto, hread hv hne, Option.map_some, Option.getD_some]
      exact byday_of_listOf hlist hplain

/-- The weekdays that are read are weekdays. -/
theorem byday_range {d : ℤ} (h : d ∈ (rruleDto newDate text firstStart firstEnd).byday) : 0 ≤ d ∧ d < 7 := by
  unfold rruleDto at h
  dsimp only at h
  cases hv : rrulePart (rruleParts text) "BYDAY" with
  | none =>
    rw [hv] at h
    cases h
  | some v =>
    rw [hv, Option.map_some, Option.getD_some, List.mem_filterMap] at h
    obtain ⟨cs, -, hcs⟩ := h
    obtain ⟨i, hi, rfl⟩ := Option.map_eq_some_iff.1 hcs
    have hlt := (List.idxOf?_eq_some_iff.1 hi).1
    simp only [List.length_map, List.length_cons, List.length_nil] at hlt
    omega

end Reading

end BookingSystem.Contracts.RuleText
