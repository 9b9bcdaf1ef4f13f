import BookingSystem.Base.Calendar
import Mathlib.Data.Set.Card

/-!
# Recurrence rules of RFC 5545

A `Recur` is what the text of a recurrence rule stands for (`Recur.ofText`), and `Recur.Occurs` says of an instant
whether it belongs to the recurrence that the rule describes from a start on. Times are milliseconds in UTC. What a rule
leaves open is taken from the start: the time of day, and the day within the period if no part of the rule names it.
-/

namespace BookingSystem.Base

inductive Freq
  | secondly | minutely | hourly | daily | weekly | monthly | yearly
  deriving DecidableEq, Repr

/-- A weekday, `0` for Sunday, with its number in the month or the year; every one of them when it has none. -/
structure WeekdayNum where
  nth : Option ℤ
  weekday : ℤ
  deriving DecidableEq, Repr

/-- A recurrence rule; a list without entries stands for a part that the rule does not have. -/
structure Recur where
  freq : Freq
  interval : ℕ
  count : Option ℕ
  untilTime : Option ℤ
  bySecond : List ℤ
  byMinute : List ℤ
  byHour : List ℤ
  byDay : List WeekdayNum
  byMonthDay : List ℤ
  byYearDay : List ℤ
  byWeekNo : List ℤ
  byMonth : List ℤ
  bySetPos : List ℤ
  wkst : ℤ
  deriving DecidableEq, Repr

namespace Recur

/-! ### The recurrence -/

section Meaning

variable (rule : Recur) (start t : ℤ)

/-- The number of the period of the rule's frequency that an instant lies in. -/
def period : ℤ :=
  match rule.freq with
  | .secondly => t / 1000
  | .minutely => t / 60000
  | .hourly => t / 3600000
  | .daily => dayOf t
  | .weekly => (dayOf t + 4 - rule.wkst) / 7
  | .monthly => monthOf (dayOf t)
  | .yearly => monthOf (dayOf t) / 12

/-- A list of numbers has the place of something among `length`, from `0` on: counted from `1`, or from the end by a
negative number. -/
def Names (l : List ℤ) (place length : ℤ) : Prop := place + 1 ∈ l ∨ place - length ∈ l

def yearStart (day : ℤ) : ℤ := firstDay (12 * (monthOf day / 12))
def yearLength (day : ℤ) : ℤ := firstDay (12 * (monthOf day / 12) + 12) - yearStart day

def midweek (day : ℤ) : ℤ := day - (day + 4 - rule.wkst) % 7 + 3

/-- The day is the given weekday, of a span of days that it is in. -/
def OnWeekday (d : WeekdayNum) (day first length : ℤ) : Prop :=
  (day + 4) % 7 = d.weekday ∧
    ∀ n, d.nth = some n → n = (day - first) / 7 + 1 ∨ -n = (first + length - 1 - day) / 7 + 1

/-- The day is on one of the weekdays of the rule: of a month or of a year, if they have numbers. -/
def AllowsWeekday (day : ℤ) : Prop :=
  rule.byDay = [] ∨ ∃ d ∈ rule.byDay,
    if rule.freq = .monthly ∨ rule.byMonth ≠ [] then
      OnWeekday d day (firstDay (monthOf day)) (monthLength (monthOf day))
    else OnWeekday d day (yearStart day) (yearLength day)

/-- The parts of the rule that name days allow the day. -/
structure AllowsDay (day : ℤ) : Prop where
  month : rule.byMonth = [] ∨ monthOf day % 12 + 1 ∈ rule.byMonth
  week : rule.byWeekNo = [] ∨
    let mid := rule.midweek day
    let place := (mid - yearStart mid) / 7
    Names rule.byWeekNo place (place + 1 + (yearStart mid + yearLength mid - 1 - mid) / 7)
  yearDay : rule.byYearDay = [] ∨ Names rule.byYearDay (day - yearStart day) (yearLength day)
  monthDay : rule.byMonthDay = [] ∨ Names rule.byMonthDay (dayOfMonth day - 1) (monthLength (monthOf day))
  weekday : rule.AllowsWeekday day

/-- The day is the one of the start within the period, as far as the rule does not name it. -/
def SameDay (day first : ℤ) : Prop :=
  match rule.freq with
  | .yearly =>
    rule.byMonthDay = [] → rule.byYearDay = [] → rule.byDay = [] →
      if rule.byWeekNo = [] then
        dayOfMonth day = dayOfMonth first ∧ (rule.byMonth = [] → monthOf day % 12 = monthOf first % 12)
      else (day + 4) % 7 = (first + 4) % 7
  | .monthly => rule.byMonthDay = [] → rule.byDay = [] → dayOfMonth day = dayOfMonth first
  | .weekly => rule.byDay = [] → (day + 4) % 7 = (first + 4) % 7
  | _ => True

/-- A part of the rule that names parts of the time allows the one of an instant; without it, it is that of the start,
unless the frequency is as fine. -/
def AllowsTime (l : List ℤ) (fine : Bool) (part : ℤ → ℤ) : Prop :=
  if l = [] then fine = true ∨ part t = part start else part t ∈ l

/-- The instant is one of those that the rule names in its period. -/
structure Allows : Prop where
  allowsDay : rule.AllowsDay (dayOf t)
  sameDay : rule.SameDay (dayOf t) (dayOf start)
  hour : AllowsTime start t rule.byHour (rule.freq ∈ [.hourly, .minutely, .secondly]) fun t => t / 3600000 % 24
  minute : AllowsTime start t rule.byMinute (rule.freq ∈ [.minutely, .secondly]) fun t => t / 60000 % 60
  second : AllowsTime start t rule.bySecond (rule.freq = .secondly) fun t => t / 1000 % 60
  fraction : t % 1000 = start % 1000

/-- The instant belongs to the recurrence from the start on, which goes on for ever. -/
structure Occurs : Prop where
  notBefore : start ≤ t
  period : (rule.interval : ℤ) ∣ rule.period t - rule.period start
  allows : rule.Allows start t
  setPos : rule.bySetPos = [] ∨
    Names rule.bySetPos {u | rule.period u = rule.period t ∧ rule.Allows start u ∧ u < t}.ncard
      {u | rule.period u = rule.period t ∧ rule.Allows start u}.ncard

/-- The instant is not after the end of the recurrence. -/
def InTime : Prop := ∀ u, rule.untilTime = some u → t ≤ u

variable {rule} in
theorem allowsWeekday_iff {day : ℤ} (hplain : ∀ d ∈ rule.byDay, d.nth = none) :
    rule.AllowsWeekday day ↔ rule.byDay = [] ∨ ∃ d ∈ rule.byDay, (day + 4) % 7 = d.weekday := by
  refine or_congr_right (exists_congr fun d => and_congr_right fun hd => ?_)
  simp only [OnWeekday, hplain d hd, reduceCtorEq, false_implies, implies_true, and_true, ite_self]

end Meaning

/-! ### The text of a rule -/

def upper (cs : List Char) : List Char := cs.map Char.toUpper

def digitsValue (cs : List Char) : ℕ := cs.foldl (fun n c => 10 * n + (c.toNat - '0'.toNat)) 0

def number (cs : List Char) : Option ℕ := if cs ≠ [] ∧ cs.all Char.isDigit then some (digitsValue cs) else none

/-- A number from `lo` to `hi`, in two digits at most. -/
def numberIn (lo hi : ℕ) (cs : List Char) : Option ℤ :=
  (number cs).bind fun n => if cs.length ≤ 2 ∧ lo ≤ n ∧ n ≤ hi then some n else none

/-- A number from `1` to `hi`, in three digits at most and with a sign if it counts from the end. -/
def ordinal (hi : ℕ) (cs : List Char) : Option ℤ :=
  let signed := fun (sign : ℤ) (ds : List Char) =>
    (number ds).bind fun n => if ds.length ≤ 3 ∧ 1 ≤ n ∧ n ≤ hi then some (sign * n) else none
  match cs with
  | '+' :: ds => signed 1 ds
  | '-' :: ds => signed (-1) ds
  | ds => signed 1 ds

def weekdayNames : List (List Char) := ["SU", "MO", "TU", "WE", "TH", "FR", "SA"].map String.toList

def weekday (cs : List Char) : Option ℤ := (weekdayNames.idxOf? (upper cs)).map fun (i : ℕ) => (i : ℤ)

def weekdayNum (cs : List Char) : Option WeekdayNum := do
  let nth := cs.take (cs.length - 2)
  let weekday ← weekday (cs.drop (cs.length - 2))
  if nth = [] then pure ⟨none, weekday⟩ else pure ⟨some (← ordinal 53 nth), weekday⟩

def freqOf (cs : List Char) : Option Freq :=
  match String.ofList (upper cs) with
  | "SECONDLY" => some .secondly
  | "MINUTELY" => some .minutely
  | "HOURLY" => some .hourly
  | "DAILY" => some .daily
  | "WEEKLY" => some .weekly
  | "MONTHLY" => some .monthly
  | "YEARLY" => some .yearly
  | _ => none

def instantOf (year month day hour minute second : ℕ) : ℤ :=
  (firstDay (12 * year + (month - 1)) + day - 1) * dayMs + (hour * 3600000 + minute * 60000 + second * 1000)

/-- A date and time in UTC, as in `19970714T173000Z`. -/
def dateTime (cs : List Char) : Option ℤ :=
  match upper cs with
  | [y₁, y₂, y₃, y₄, m₁, m₂, d₁, d₂, 'T', h₁, h₂, i₁, i₂, s₁, s₂, 'Z'] => do
    let year ← number [y₁, y₂, y₃, y₄]
    let month ← number [m₁, m₂]
    let day ← number [d₁, d₂]
    let hour ← number [h₁, h₂]
    let minute ← number [i₁, i₂]
    let second ← number [s₁, s₂]
    if 1 ≤ month ∧ month ≤ 12 ∧ 1 ≤ day ∧ (day : ℤ) ≤ monthLength (12 * year + (month - 1)) ∧ hour ≤ 23 ∧ minute ≤ 59 ∧
        second ≤ 60 then
      some (instantOf year month day hour minute second)
    else none
  | _ => none

def body (text : List Char) : List Char := if upper (text.take 6) = "RRULE:".toList then text.drop 6 else text

def parts (text : List Char) : Option (List (List Char × List Char)) :=
  ((body text).splitOn ';').mapM fun p =>
    match p.splitOn '=' with
    | [name, value] => some (upper name, value)
    | _ => none

def partNames : List (List Char) :=
  ["FREQ", "UNTIL", "COUNT", "INTERVAL", "BYSECOND", "BYMINUTE", "BYHOUR", "BYDAY", "BYMONTHDAY", "BYYEARDAY",
    "BYWEEKNO", "BYMONTH", "BYSETPOS", "WKST"].map String.toList

def part (ps : List (List Char × List Char)) (name : String) : Option (List Char) :=
  (ps.find? fun p => p.1 == name.toList).map (·.2)

/-- What is read of a part, or the default if there is none of the name. -/
def readPart {α : Type} (ps : List (List Char × List Char)) (name : String) (default : α) (f : List Char → Option α) :
    Option α :=
  match part ps name with
  | none => some default
  | some v => f v

def listOf {α : Type} (f : List Char → Option α) (cs : List Char) : Option (List α) := (cs.splitOn ',').mapM f

/-- A number that is not `0`. -/
def positive (cs : List Char) : Option ℕ := (number cs).filter (0 < ·)

/-- The parts of the rule may stand beside each other. -/
structure Coherent (rule : Recur) : Prop where
  bounded : rule.count = none ∨ rule.untilTime = none
  ordinals : (∀ d ∈ rule.byDay, d.nth = none) ∨ rule.freq = .monthly ∨ rule.freq = .yearly ∧ rule.byWeekNo = []
  monthDays : rule.byMonthDay = [] ∨ rule.freq ≠ .weekly
  yearDays : rule.byYearDay = [] ∨ rule.freq ≠ .daily ∧ rule.freq ≠ .weekly ∧ rule.freq ≠ .monthly
  weekNos : rule.byWeekNo = [] ∨ rule.freq = .yearly
  setPos : rule.bySetPos = [] ∨ ¬ (rule.bySecond = [] ∧ rule.byMinute = [] ∧ rule.byHour = [] ∧ rule.byDay = [] ∧
    rule.byMonthDay = [] ∧ rule.byYearDay = [] ∧ rule.byWeekNo = [] ∧ rule.byMonth = [])

/-- Whether the parts of the rule may stand beside each other. -/
instance (rule : Recur) : Decidable rule.Coherent :=
  decidable_of_iff
    ((rule.count = none ∨ rule.untilTime = none) ∧
      ((∀ d ∈ rule.byDay, d.nth = none) ∨ rule.freq = .monthly ∨ rule.freq = .yearly ∧ rule.byWeekNo = []) ∧
      (rule.byMonthDay = [] ∨ rule.freq ≠ .weekly) ∧
      (rule.byYearDay = [] ∨ rule.freq ≠ .daily ∧ rule.freq ≠ .weekly ∧ rule.freq ≠ .monthly) ∧
      (rule.byWeekNo = [] ∨ rule.freq = .yearly) ∧
      (rule.bySetPos = [] ∨ ¬ (rule.bySecond = [] ∧ rule.byMinute = [] ∧ rule.byHour = [] ∧ rule.byDay = [] ∧
        rule.byMonthDay = [] ∧ rule.byYearDay = [] ∧ rule.byWeekNo = [] ∧ rule.byMonth = [])))
    ⟨fun h => ⟨h.1, h.2.1, h.2.2.1, h.2.2.2.1, h.2.2.2.2.1, h.2.2.2.2.2⟩,
      fun h => ⟨h.bounded, h.ordinals, h.monthDays, h.yearDays, h.weekNos, h.setPos⟩⟩

/-- The rule of the parts. -/
def ofParts (ps : List (List Char × List Char)) : Option Recur := do
  let freq ← (part ps "FREQ").bind freqOf
  let interval ← readPart ps "INTERVAL" 1 positive
  let count ← readPart ps "COUNT" none fun v => (positive v).map some
  let untilTime ← readPart ps "UNTIL" none fun v => (dateTime v).map some
  let bySecond ← readPart ps "BYSECOND" [] (listOf (numberIn 0 60))
  let byMinute ← readPart ps "BYMINUTE" [] (listOf (numberIn 0 59))
  let byHour ← readPart ps "BYHOUR" [] (listOf (numberIn 0 23))
  let byDay ← readPart ps "BYDAY" [] (listOf weekdayNum)
  let byMonthDay ← readPart ps "BYMONTHDAY" [] (listOf (ordinal 31))
  let byYearDay ← readPart ps "BYYEARDAY" [] (listOf (ordinal 366))
  let byWeekNo ← readPart ps "BYWEEKNO" [] (listOf (ordinal 53))
  let byMonth ← readPart ps "BYMONTH" [] (listOf (numberIn 1 12))
  let bySetPos ← readPart ps "BYSETPOS" [] (listOf (ordinal 366))
  let wkst ← readPart ps "WKST" 1 weekday
  let rule : Recur :=
    { freq, interval, count, untilTime, bySecond, byMinute, byHour, byDay, byMonthDay, byYearDay, byWeekNo, byMonth,
      bySetPos, wkst }
  if rule.Coherent then some rule else none

theorem ofParts_eq_some {ps : List (List Char × List Char)} {rule : Recur} (h : ofParts ps = some rule) :
    (part ps "FREQ").bind freqOf = some rule.freq ∧ readPart ps "INTERVAL" 1 positive = some rule.interval ∧
      readPart ps "COUNT" none (fun v => (positive v).map some) = some rule.count ∧
      readPart ps "UNTIL" none (fun v => (dateTime v).map some) = some rule.untilTime ∧
      readPart ps "BYDAY" [] (listOf weekdayNum) = some rule.byDay ∧
      readPart ps "WKST" 1 weekday = some rule.wkst ∧ rule.Coherent := by
  unfold ofParts at h
  obtain ⟨freq, hfreq, h⟩ := Option.bind_eq_some_iff.1 h
  obtain ⟨interval, hinterval, h⟩ := Option.bind_eq_some_iff.1 h
  obtain ⟨count, hcount, h⟩ := Option.bind_eq_some_iff.1 h
  obtain ⟨untilTime, huntil, h⟩ := Option.bind_eq_some_iff.1 h
  obtain ⟨bySecond, -, h⟩ := Option.bind_eq_some_iff.1 h
  obtain ⟨byMinute, -, h⟩ := Option.bind_eq_some_iff.1 h
  obtain ⟨byHour, -, h⟩ := Option.bind_eq_some_iff.1 h
  obtain ⟨byDay, hbyDay, h⟩ := Option.bind_eq_some_iff.1 h
  obtain ⟨byMonthDay, -, h⟩ := Option.bind_eq_some_iff.1 h
  obtain ⟨byYearDay, -, h⟩ := Option.bind_eq_some_iff.1 h
  obtain ⟨byWeekNo, -, h⟩ := Option.bind_eq_some_iff.1 h
  obtain ⟨byMonth, -, h⟩ := Option.bind_eq_some_iff.1 h
  obtain ⟨bySetPos, -, h⟩ := Option.bind_eq_some_iff.1 h
  obtain ⟨wkst, hwkst, h⟩ := Option.bind_eq_some_iff.1 h
  dsimp only at h
  split at h
  · rename_i hcoherent
    obtain rfl := Option.some.inj h
    exact ⟨hfreq, hinterval, hcount, huntil, hbyDay, hwkst, hcoherent⟩
  · cases h

def ofText (text : List Char) : Option Recur := do
  let ps ← parts text
  if (ps.map (·.1)).Nodup ∧ ∀ p ∈ ps, p.1 ∈ partNames then ofParts ps else none

example : ofText "FREQ=MONTHLY;BYDAY=-1FR".toList =
    some ⟨.monthly, 1, none, none, [], [], [], [⟨some (-1), 5⟩], [], [], [], [], [], 1⟩ := by
  decide +kernel

end Recur

end BookingSystem.Base
