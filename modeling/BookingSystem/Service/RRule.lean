import BookingSystem.Base.Calendar
import BookingSystem.Base.Fields
import Mathlib.Data.List.DropRight

/-!
# The package `rrule`

`Rule.expand` steps through days, weeks, months or years from the first start on, and writes down a window for each
date it comes to, until there are enough or one is after `UNTIL`; at the end it drops those that are excluded. Its
numbers are those of a 64-bit machine, and the package `time` reckons exactly only with dates in its range. Requests
without a rule have a pattern, and each of their occurrences comes from the one before it. Times are nanoseconds in UTC.

`parse` goes through the parts of the text of a rule, a later one overwriting an earlier one, and `Rule.string` writes
the parts that are not left to their defaults. Texts are lists of characters.
-/

namespace BookingSystem.Service.RRule

open Base

/-! ### Times -/

abbrev Time := ℤ

def secondNs : ℤ := 1000000000
def dayNs : ℤ := 86400000000000

def day (t : Time) : ℤ := t / dayNs
def clock (t : Time) : ℤ := t % dayNs

/-- `t.Weekday()`, `0` for Sunday. -/
def weekday (t : Time) : ℤ := (day t + 4) % 7

def unix (t : Time) : ℤ := t / secondNs

/-- `time.Date` for a day of a month; months are counted from January of the year 0 on, and days that the month does not
have are those of the months after it. -/
def date (month dayOfMonth clock : ℤ) : Time := (firstDay month + dayOfMonth - 1) * dayNs + clock

/-- `t.AddDate(years, months, days)`. -/
def addDate (t : Time) (years months days : ℤ) : Time :=
  date (monthOf (day t) + 12 * years + months) (dayOfMonth (day t) + days) (clock t)

/-! ### The machine -/

/-- The times that the package `time` reckons with exactly: those within 2^62 seconds of 1970, and some more. -/
def InRange (t : ℤ) : Prop := -4611686018427387904 * secondNs ≤ t ∧ t < 4611686018427387904 * secondNs

instance (t : ℤ) : Decidable (InRange t) := by unfold InRange; infer_instance

/-- How the loops count, and how they reckon with dates. -/
structure Arithmetic where
  int : ℤ → ℤ
  addDate : Time → ℤ → ℤ → ℤ → Time
  date : ℤ → ℤ → ℤ → Time

def unbounded : Arithmetic := ⟨id, addDate, date⟩

/-- That of a 64-bit machine: counters wrap, and a date out of range is what the package makes of it (`beyond`). -/
def machine (beyond : Arithmetic) : Arithmetic where
  int n := n.bmod (2 ^ 64)
  addDate t years months days :=
    let sum := addDate t years months days
    if InRange t ∧ InRange sum then sum else beyond.addDate t years months days
  date month dayOfMonth clock :=
    let t := date month dayOfMonth clock
    if InRange t then t else beyond.date month dayOfMonth clock

/-- `t.Sub(u)`, at most as long as a `Duration` can be. -/
def sub (t u : Time) : ℤ := max (-2 ^ 63) (min (t - u) (2 ^ 63 - 1))

/-! ### Rules -/

inductive Freq
  | daily | weekly | monthly | yearly
  deriving DecidableEq, Repr

inductive Weekday
  | mo | tu | we | th | fr | sa | su
  deriving DecidableEq, Repr

/-- `weekdayToTime`. -/
def Weekday.toTime : Weekday → ℤ
  | .su => 0
  | .mo => 1
  | .tu => 2
  | .we => 3
  | .th => 4
  | .fr => 5
  | .sa => 6

def timeToWeekday (w : ℤ) : Weekday :=
  ([.su, .mo, .tu, .we, .th, .fr, .sa].find? fun d => d.toTime == w).getD .mo

/-- A rule; no `UNTIL` is the zero time, no `COUNT` and no `BYMONTHDAY` are `0`. -/
structure Rule where
  freq : Freq
  interval : ℤ := 1
  count : ℤ := 0
  untilTime : Option Time := none
  byDay : List Weekday := []
  byMonthDay : ℤ := 0
  exDates : List Time := []
  deriving DecidableEq

/-- One expanded window. -/
structure Occurrence where
  start : Time
  finish : Time
  deriving DecidableEq, Repr

def maxOccurrences : ℤ := 100

namespace Rule

variable (r : Rule) (m : Arithmetic)

def step : ℤ := if r.interval ≤ 0 then 1 else r.interval

def limit : ℕ :=
  let limit := if r.count ≤ 0 then maxOccurrences else r.count
  (if maxOccurrences < limit then maxOccurrences else limit).toNat

/-- `!r.Until.IsZero() && t.After(r.Until)`. -/
def isOver (t : Time) : Bool := r.untilTime.any fun u => decide (u < t)

/-! ### The loops -/

/-- `for i := …; len(out) < limit; i = next(i)`, with one date at a time. There is a window more after each turn. -/
def turns {σ : Type} (duration : ℤ) (next : σ → σ) (cur : σ → Time) : ℕ → σ → List Occurrence → List Occurrence
  | 0, _, out => out
  | fuel + 1, i, out =>
    if out.length < r.limit then
      if r.isOver (cur i) then out
      else turns duration next cur fuel (next i) (out ++ [⟨cur i, cur i + duration⟩])
    else out

def days (dtStart : Time) : List Weekday := if r.byDay.isEmpty then [timeToWeekday (weekday dtStart)] else r.byDay

/-- The date of a weekday from `anchor` on. -/
def candidate (anchor : Time) (d : Weekday) : Time :=
  let offset := d.toTime - weekday anchor
  m.addDate anchor 0 0 (if offset < 0 then offset + 7 else offset)

/-- The inner loop of a week; with `true` the call returns. -/
def week (dtStart duration : ℤ) (anchor : Time) : List Weekday → List Occurrence → List Occurrence × Bool
  | [], out => (out, false)
  | d :: ds, out =>
    let cur := candidate m anchor d
    if cur < dtStart then week dtStart duration anchor ds out
    else if r.isOver cur then (out, true)
    else
      let out := out ++ [⟨cur, cur + duration⟩]
      if r.limit ≤ out.length then (out, false) else week dtStart duration anchor ds out

/-- The loop over the weeks. No week is without a date, so as many turns do as there are windows to come. -/
def weeks (dtStart duration : ℤ) : ℕ → ℤ → List Occurrence → List Occurrence
  | 0, _, out => out
  | fuel + 1, n, out =>
    if out.length < r.limit then
      match r.week m dtStart duration (m.addDate dtStart 0 0 (m.int (7 * n))) (r.days dtStart) out with
      | (out, true) => out
      | (out, false) => weeks dtStart duration fuel (m.int (n + r.step)) out
    else out

/-- The date of the `i`-th month from the start. -/
def inMonth (dtStart : Time) (i : ℤ) : Time :=
  let cur := m.addDate dtStart 0 i 0
  if 0 < r.byMonthDay then m.date (monthOf (day cur)) r.byMonthDay (clock dtStart) else cur

/-- The windows, before any is dropped. -/
def windows (dtStart duration : ℤ) : List Occurrence :=
  match r.freq with
  | .daily => r.turns duration (fun cur => m.addDate cur 0 0 r.step) id r.limit dtStart []
  | .weekly => r.weeks m dtStart duration r.limit 0 []
  | .monthly => r.turns duration (fun i => m.int (i + r.step)) (r.inMonth m dtStart) r.limit 0 []
  | .yearly => r.turns duration (fun i => m.int (i + r.step)) (fun i => m.addDate dtStart i 0 0) r.limit 0 []

def filterExDates (exDates : List Time) (out : List Occurrence) : List Occurrence :=
  out.filter fun o => !(exDates.map unix).contains (unix o.start)

def expand (dtStart dtEnd : Time) : Except String (List Occurrence) :=
  if dtEnd ≤ dtStart then .error "rrule: DTEND must be after DTSTART"
  else
    let out := r.windows m dtStart (sub dtEnd dtStart)
    .ok (if r.exDates.isEmpty then out else filterExDates r.exDates out)

end Rule

/-! ### Patterns -/

/-- `Pattern` of a request that has no rule; every other text is `unknown`. -/
inductive Pattern
  | daily
  | weekly
  | biWeekly
  | monthly
  | unknown
  deriving DecidableEq

/-- `ExpandRecurringBookingRequest` without a rule; `generateOccurrences` does not read the days. -/
structure ExpandRequest where
  pattern : Pattern
  firstStart : Time
  firstEnd : Time
  count : ℤ

/-- From a time of one occurrence to that of the next. -/
def Pattern.next? : Pattern → Option (Time → Time)
  | .daily => some fun t => addDate t 0 0 1
  | .weekly => some fun t => addDate t 0 0 7
  | .biWeekly => some fun t => addDate t 0 0 14
  | .monthly => some fun t => addDate t 0 1 0
  | .unknown => none

/-- The loop, with the occurrence before. -/
def Pattern.following (p : Pattern) : ℕ → Occurrence → List Occurrence
  | 0, _ => []
  | n + 1, prev =>
    match p.next? with
    | some f => ⟨f prev.start, f prev.finish⟩ :: p.following n ⟨f prev.start, f prev.finish⟩
    | none => []

def generateOccurrences (req : ExpandRequest) : List Occurrence :=
  ⟨req.firstStart, req.firstEnd⟩ :: req.pattern.following (req.count - 1).toNat ⟨req.firstStart, req.firstEnd⟩

/-- `Execute`, up to the list of the occurrences. -/
def occurrences (req : ExpandRequest) : Except String (List Occurrence) :=
  if req.firstEnd ≤ req.firstStart then .error "end must be after start"
  else if req.count < 1 ∨ 100 < req.count then .error "count must be between 1 and 100"
  else .ok (generateOccurrences req)

/-! ### The standard library -/

/-- `unicode.IsSpace`. -/
def isSpace (c : Char) : Bool :=
  [0x09, 0x0A, 0x0B, 0x0C, 0x0D, 0x20, 0x85, 0xA0, 0x1680, 0x2028, 0x2029, 0x202F, 0x205F, 0x3000].contains c.toNat ||
    (0x2000 ≤ c.toNat && c.toNat ≤ 0x200A)

/-- `strings.TrimSpace`. -/
def trimSpace (s : List Char) : List Char := (s.dropWhile isSpace).rdropWhile isSpace

/-- `strings.ToUpper`, as far as it leads to letters of ASCII; any other character is left alone. -/
def toUpperChar : Char → Char
  | 'ı' => 'I'
  | 'ſ' => 'S'
  | c => c.toUpper

def toUpper (s : List Char) : List Char := s.map toUpperChar

/-- `strings.TrimPrefix`. -/
def trimPrefix (start s : List Char) : List Char := if start.isPrefixOf s then s.drop start.length else s

/-- `strings.SplitN(s, sep, 2)`, if there are two parts. -/
def cut (sep : Char) (s : List Char) : Option (List Char × List Char) :=
  if sep ∈ s then some (s.takeWhile (· != sep), (s.dropWhile (· != sep)).tail) else none

/-- `strconv.Atoi`. -/
def atoi (s : List Char) : Option ℤ :=
  let digits := fun (sign : ℤ) (ds : List Char) =>
    let n := sign * Nat.ofDigitChars 10 ds 0
    if ds ≠ [] ∧ ds.all Char.isDigit ∧ -2 ^ 63 ≤ n ∧ n < 2 ^ 63 then some n else none
  match s with
  | '-' :: ds => digits (-1) ds
  | '+' :: ds => digits 1 ds
  | ds => digits 1 ds

/-- `fmt.Sprintf("%d", n)`. -/
def decimal (n : ℤ) : List Char := (toString n).toList

/-! ### `time.Parse` and `Time.Format` -/

/-- A number of two digits, or of one if it need not be fixed. -/
def getnum (fixed : Bool) : List Char → Option (ℕ × List Char)
  | [] => none
  | [c] => if c.isDigit && !fixed then some (Nat.ofDigitChars 10 [c] 0, []) else none
  | c :: d :: s =>
    if !c.isDigit then none
    else if d.isDigit then some (Nat.ofDigitChars 10 [c, d] 0, s)
    else if fixed then none
    else some (Nat.ofDigitChars 10 [c] 0, d :: s)

def parseNanoseconds (ds : List Char) : ℕ := Nat.ofDigitChars 10 (ds.take 9) 0 * 10 ^ (9 - (ds.take 9).length)

/-- A fraction of a second, which the layout need not have. -/
def fraction : List Char → ℕ × List Char
  | c :: d :: s =>
    if (c == '.' || c == ',') && d.isDigit then
      (parseNanoseconds ((d :: s).takeWhile Char.isDigit), (d :: s).dropWhile Char.isDigit)
    else (0, c :: d :: s)
  | s => (0, s)

/-- The layout `T150405`. -/
def parseClock : List Char → Option (ℤ × List Char)
  | 'T' :: s => do
    let (hour, s) ← getnum false s
    let (minute, s) ← getnum true s
    let (second, s) ← getnum true s
    let (nsec, s) := fraction s
    if hour < 24 ∧ minute < 60 ∧ second < 60 then
      some ((hour * 3600 + minute * 60 + second) * secondNs + nsec, s)
    else none
  | _ => none

def parseTime (hasClock : Bool) (s : List Char) : Option (ℤ × List Char) :=
  if hasClock then parseClock s else some (0, s)

/-- `time.Parse` for the layout `20060102`, with `T150405` after it if there is a clock, and the text at its end. -/
def timeParse (hasClock : Bool) (tail s : List Char) : Option Time := do
  let year := s.take 4
  let (month, s) ← getnum true (s.drop 4)
  let (dayOfMonth, s) ← getnum true s
  let (clock, s) ← parseTime hasClock s
  let n := 12 * (Nat.ofDigitChars 10 year 0 : ℤ) + (month - 1)
  if year.length = 4 ∧ year.all Char.isDigit ∧ 1 ≤ month ∧ month ≤ 12 ∧ s = tail ∧ 1 ≤ dayOfMonth ∧
      (dayOfMonth : ℤ) ≤ monthLength n then
    some (date n dayOfMonth clock)
  else none

/-- A number in at least `width` digits. -/
def appendInt (n : ℤ) (width : ℕ) : List Char := (if n < 0 then ['-'] else []) ++ decimalsFrom width n.natAbs

/-- `t.Format("20060102T150405Z")`. -/
def format (t : Time) : List Char :=
  let n := monthOf (day t)
  let seconds := clock t / secondNs
  appendInt (n / 12) 4 ++ appendInt (n % 12 + 1) 2 ++ appendInt (dayOfMonth (day t)) 2 ++ ['T'] ++
    appendInt (seconds / 3600) 2 ++ appendInt (seconds / 60 % 60) 2 ++ appendInt (seconds % 60) 2 ++ ['Z']

/-! ### `Parse` -/

def Freq.text : Freq → List Char
  | .daily => "DAILY".toList
  | .weekly => "WEEKLY".toList
  | .monthly => "MONTHLY".toList
  | .yearly => "YEARLY".toList

def Weekday.text : Weekday → List Char
  | .mo => "MO".toList
  | .tu => "TU".toList
  | .we => "WE".toList
  | .th => "TH".toList
  | .fr => "FR".toList
  | .sa => "SA".toList
  | .su => "SU".toList

def freqOf (s : List Char) : Option Freq :=
  [Freq.daily, .weekly, .monthly, .yearly].find? fun f => f.text == s

def weekdayOf (s : List Char) : Option Weekday :=
  [Weekday.mo, .tu, .we, .th, .fr, .sa, .su].find? fun d => d.text == s

def zeroTime : Time := date 12 1 0

def parseUntil (s : List Char) : Option Time :=
  [(true, ['Z']), (true, []), (false, [])].findSome? fun l => timeParse l.1 l.2 s

/-- The rule while its parts are read; there is no frequency at first. -/
structure Draft where
  freq : Option Freq := none
  interval : ℤ := 1
  count : ℤ := 0
  untilTime : Option Time := none
  byDay : List Weekday := []
  byMonthDay : ℤ := 0
  deriving DecidableEq

/-- The value of a key is set. -/
def Draft.set (r : Draft) (key val : List Char) : Option Draft :=
  match String.ofList key with
  | "FREQ" => (freqOf (toUpper val)).map fun f => { r with freq := some f }
  | "INTERVAL" => ((atoi val).filter (0 < ·)).map fun n => { r with interval := n }
  | "COUNT" => ((atoi val).filter (0 < ·)).map fun n => { r with count := n }
  | "UNTIL" => (parseUntil val).map fun t => { r with untilTime := if t = zeroTime then none else some t }
  | "BYDAY" =>
    ((val.splitOn ',').mapM fun d => weekdayOf (toUpper (trimSpace d))).map fun ds => { r with byDay := r.byDay ++ ds }
  | "BYMONTHDAY" => ((atoi val).filter fun n => 1 ≤ n ∧ n ≤ 31).map fun n => { r with byMonthDay := n }
  | "WKST" => some r
  | _ => none

def Draft.segment (r : Draft) (part : List Char) : Option Draft := do
  let (key, val) ← cut '=' part
  r.set (toUpper (trimSpace key)) (trimSpace val)

def Draft.rule (r : Draft) : Option Rule := do
  let freq ← r.freq
  if 0 < r.count ∧ r.untilTime.isSome then none
  else some { freq, interval := r.interval, count := r.count, untilTime := r.untilTime, byDay := r.byDay,
              byMonthDay := r.byMonthDay }

def segments (s : List Char) : List (List Char) := (trimPrefix "RRULE:".toList (trimSpace s)).splitOn ';'

def parse (s : List Char) : Option Rule :=
  if trimPrefix "RRULE:".toList (trimSpace s) = [] then none
  else do
    let r ← (segments s).foldlM Draft.segment {}
    r.rule

/-! ### `String` -/

namespace Rule

variable (r : Rule)

def parts : List (List Char) :=
  ["FREQ=".toList ++ r.freq.text] ++
    (if 1 < r.interval then ["INTERVAL=".toList ++ decimal r.interval] else []) ++
    (if 0 < r.count then ["COUNT=".toList ++ decimal r.count] else []) ++
    (match r.untilTime with
      | some t => ["UNTIL=".toList ++ format t]
      | none => []) ++
    (if r.byDay ≠ [] then ["BYDAY=".toList ++ [','].intercalate (r.byDay.map Weekday.text)] else []) ++
    (if 0 < r.byMonthDay then ["BYMONTHDAY=".toList ++ decimal r.byMonthDay] else [])

def string : List Char := [';'].intercalate r.parts

end Rule

end BookingSystem.Service.RRule
