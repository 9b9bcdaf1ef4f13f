import BookingSystem.Model.Entities
import Mathlib.Algebra.Order.BigOperators.Group.List
import Mathlib.Algebra.Order.Group.Nat
import Mathlib.Data.List.DropRight
import Mathlib.Algebra.GroupWithZero.Nat

/-!
# Public holidays

The class `GovHKHolidayClient`, which reads the feed of public holidays line by line, and `syncFromGovHK` of
`HolidaysService`, which writes what was read into the table: one row for each date and region. The column of the
dates takes days of the calendar, and nothing stands for the exception on any other text.
-/

namespace BookingSystem.Service.Holidays

open Base (Keyed Table)
open Model (Instant Uuid isSpace)

/-! ### The feed -/

structure GovHKHoliday where
  date : String
  name : String
  deriving DecidableEq

/-- `split(/\r?\n/)`. -/
def splitLines : List Char → List (List Char)
  | [] => [[]]
  | '\n' :: rest => [] :: splitLines rest
  | '\r' :: '\n' :: rest => [] :: splitLines rest
  | c :: rest =>
    match splitLines rest with
    | [] => [[c]]
    | l :: ls => (c :: l) :: ls

/-- `String.prototype.trim`. -/
def trimmed (s : List Char) : List Char := (s.dropWhile isSpace).rdropWhile isSpace

/-- `s.replace(/\\c/g, r)`: from left to right, each backslash with a character after it that passes the test. -/
def replacePair (test : Char → Bool) (r : Char) : List Char → List Char
  | [] => []
  | [a] => [a]
  | a :: b :: rest =>
    if a = '\\' ∧ test b = true then r :: replacePair test r rest else a :: replacePair test r (b :: rest)

def unescapeICS (s : List Char) : List Char :=
  replacePair (· == '\\') '\\' (replacePair (fun c => c == 'n' || c == 'N') '\n'
    (replacePair (· == ';') ';' (replacePair (· == ',') ',' s)))

/-- `/^\d{8}$/`. -/
def isDate (v : List Char) : Bool := v.length == 8 && v.all Char.isDigit

/-- The variables of the loop. -/
structure ParseState where
  out : List GovHKHoliday := []
  inEvent : Bool := false
  date : List Char := []
  name : List Char := []

def ParseState.withDate (st : ParseState) (line : List Char) : ParseState :=
  -- a line without a colon is taken whole
  let v := trimmed (line.rtakeWhile (· ≠ ':'))
  if isDate v then
    { st with date := v.take 4 ++ '-' :: ((v.drop 4).take 2 ++ '-' :: (v.drop 6).take 2) }
  else st

def ParseState.withName (st : ParseState) (line : List Char) : ParseState :=
  match line.dropWhile (· ≠ ':') with
  | [] => st
  | _ :: value => { st with name := unescapeICS (trimmed value) }

/-- One turn of the loop. -/
def parseLine (st : ParseState) (raw : List Char) : ParseState :=
  if raw.head? = some ' ' ∨ raw.head? = some '\t' then st
  else
    let line := trimmed raw
    if line = "BEGIN:VEVENT".toList then { st with inEvent := true, date := [], name := [] }
    else if line = "END:VEVENT".toList then
      { st with
        out := if st.inEvent = true ∧ st.date ≠ [] then st.out ++ [⟨String.ofList st.date, String.ofList st.name⟩]
          else st.out
        inEvent := false }
    else if st.inEvent = false then st
    else if "DTSTART".toList <+: line then st.withDate line
    else if "SUMMARY".toList <+: line then st.withName line
    else st

def parseICS (body : List Char) : List GovHKHoliday := ((splitLines body).foldl parseLine {}).out

/-! ### The table -/

structure Holiday where
  id : Uuid
  tenantId : Uuid
  holidayDate : String
  name : String := ""
  scope : String := "manual"
  region : String := ""
  isBlocker : Bool := true
  createdBy : Option Uuid := none
  createdAt : Instant
  deriving DecidableEq

instance : Keyed Holiday Uuid := ⟨Holiday.id⟩

def Holiday.slot (h : Holiday) : Uuid × String × String := (h.tenantId, h.holidayDate, h.region)

/-- The table with its unique index. -/
structure HolidayTable where
  table : Table Holiday
  unique : (table.rows.map Holiday.slot).Nodup

/-- What the database fills in when a row is inserted into a table with these rows. -/
structure Defaults where
  id : List Holiday → Uuid
  now : List Holiday → Instant
  id_new : ∀ rows, id rows ∉ rows.map Holiday.id

/-- An identifier longer than all others is new. -/
instance : Inhabited Defaults where
  default :=
    { id := fun rows => String.ofList (List.replicate ((rows.map fun h => h.id.length).sum + 1) '0')
      now := fun _ => 0
      id_new := by
        intro rows hmem
        obtain ⟨h, hh, hid⟩ := List.mem_map.1 hmem
        have hle : h.id.length ≤ (rows.map fun h => h.id.length).sum :=
          List.le_sum_of_mem (List.mem_map_of_mem hh)
        have hlen := congrArg String.length hid
        rw [String.length_ofList, List.length_replicate] at hlen
        omega }

namespace HolidayTable

variable (t : HolidayTable)

def rows : List Holiday := t.table.rows

def findOne (tenantId : Uuid) (date region : String) : Option Holiday :=
  t.rows.find? fun h => decide (h.slot = (tenantId, date, region))

/-- `UPDATE holidays SET name = … WHERE id = …`. -/
def rename (id : Uuid) (name : String) : HolidayTable where
  table := t.table.update (fun h => decide (h.id = id)) fun h => { h with name := name }
  unique := by
    have hslot : (Holiday.slot ∘ fun h : Holiday => if decide (h.id = id) = true then { h with name := name } else h) =
        Holiday.slot := by
      funext h
      by_cases hid : h.id = id <;> simp [hid, Holiday.slot]
    rw [Table.rows_update, List.map_map, hslot]
    exact t.unique

/-- The row goes in unless its id or its place in the unique index is taken. -/
def insert? (h : Holiday) : Option HolidayTable :=
  match t.table.insert? h with
  | none => none
  | some table => if hunique : (table.rows.map Holiday.slot).Nodup then some ⟨table, hunique⟩ else none

/-- `DELETE FROM holidays WHERE …`: the rows with `p` go. -/
def deleteWhere (p : Holiday → Bool) : HolidayTable where
  table := t.table.deleteWhere p
  unique := t.unique.sublist (List.filter_sublist.map _)

end HolidayTable

/-! ### The synchronisation -/

structure Sync where
  holidays : HolidayTable
  imported : ℕ := 0
  skipped : ℕ := 0

/-- A call of `syncFromGovHK`; `feed` is what `fetch` has read. -/
structure SyncRequest where
  tenantId : Uuid
  userId : Option Uuid := none
  feed : List GovHKHoliday
  regions : List String := []

/-- `regions.length ? [...new Set(regions)] : ['']`. -/
def SyncRequest.targets (req : SyncRequest) : List String := if req.regions = [] then [""] else req.regions.eraseDups

section Loops

variable (db : Defaults) (req : SyncRequest)

/-- The body of the inner loop. -/
def syncRegion (e : GovHKHoliday) (st : Sync) (region : String) : Option Sync :=
  match st.holidays.findOne req.tenantId e.date region with
  | some existing =>
    some { st with
      holidays := if existing.scope = "govhk" ∧ existing.name ≠ e.name then st.holidays.rename existing.id e.name
        else st.holidays
      skipped := st.skipped + 1 }
  | none => do
    let holidays ← st.holidays.insert?
      { id := db.id st.holidays.rows
        tenantId := req.tenantId
        createdBy := req.userId
        holidayDate := e.date
        name := e.name
        scope := "govhk"
        region := region
        isBlocker := true
        createdAt := db.now st.holidays.rows }
    some { st with holidays := holidays, imported := st.imported + 1 }

def isStale (date : String) (h : Holiday) : Bool :=
  decide (h.tenantId = req.tenantId) && decide (h.holidayDate = date) && decide (h.scope = "govhk") &&
    !req.targets.contains h.region

def syncEntry (st : Sync) (e : GovHKHoliday) : Option Sync := do
  let st ← req.targets.foldlM (syncRegion db req e) st
  some { st with holidays := st.holidays.deleteWhere (isStale req e.date) }

def syncFromGovHK (t : HolidayTable) : Option Sync := req.feed.foldlM (syncEntry db req) { holidays := t }

end Loops

end BookingSystem.Service.Holidays
