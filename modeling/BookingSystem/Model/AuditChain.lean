import Mathlib.Data.List.Lex
import BookingSystem.Base.Json
import Mathlib.Data.Char

/-!
# The audit chain of the Go service

`auditlog.Record` builds an entry, `auditRepo.Save` links it to the newest row of its tenant and inserts it with a hash
over its fields, and `verify_audit_chain` walks the rows of each tenant and computes the hashes again. The hash of the
first is made of values in memory, that of the second of the columns they were stored in: a `timestamp` of microseconds,
a `jsonb` in its own spelling, a `uuid`, a `varchar(100)`, a text that is `NULL` instead of empty. Texts are lists of
characters; the digest is a parameter.
-/

namespace BookingSystem.Model.AuditChain

open Base

/-! ### `uuid` -/

/-- A value of type `uuid`: 32 hexadecimal digits. -/
structure PgUuid where
  digits : List (Fin 16)
  length_digits : digits.length = 32
  deriving DecidableEq

/-- There are digits, for their numerals. -/
instance neZero_base : NeZero 16 := ⟨by decide⟩

def hexChar (d : Fin 16) : Char := "0123456789abcdef".toList.getD d '0'

def hexDigit? (c : Char) : Option (Fin 16) :=
  (List.finRange 16).find? fun d => decide (hexChar d = c ∨ (hexChar d).toUpper = c)

namespace PgUuid

def repeated (d : Fin 16) : PgUuid := ⟨List.replicate 32 d, List.length_replicate⟩

def text (u : PgUuid) : List Char :=
  let cs := u.digits.map hexChar
  cs.take 8 ++ '-' :: ((cs.drop 8).take 4 ++ '-' :: ((cs.drop 12).take 4 ++ '-' :: ((cs.drop 16).take 4 ++
    '-' :: cs.drop 20)))

def key (u : PgUuid) : List ℤ := u.digits.map fun d : Fin 16 => (d.val : ℤ)

/-- Reads `n` bytes of two digits; a hyphen may stand after every second byte but the last one. -/
def readBytes : ℕ → List Char → Option (List (Fin 16) × List Char)
  | 0, cs => some ([], cs)
  | n + 1, a :: b :: cs => do
    let high ← hexDigit? a
    let low ← hexDigit? b
    let (digits, rest) ← readBytes n (if n % 2 = 0 ∧ n ≠ 0 ∧ cs.head? = some '-' then cs.tail else cs)
    pure (high :: low :: digits, rest)
  | _ + 1, _ => none

/-- `uuid_in`: 16 bytes, in braces or not, and nothing after them. -/
def uuidIn (cs : List Char) : Option PgUuid := do
  let braced := cs.head? = some '{'
  let (digits, rest) ← readBytes 16 (if braced then cs.tail else cs)
  if h : digits.length = 32 ∧ rest = (if braced then ['}'] else []) then pure ⟨digits, h.1⟩ else none

end PgUuid

/-! ### Times -/

def daysIn (year : ℤ) (month : ℕ) : ℕ :=
  if month = 2 then if year % 4 = 0 ∧ (year % 100 ≠ 0 ∨ year % 400 = 0) then 29 else 28
  else if month ∈ [4, 6, 9, 11] then 30 else 31

/-- A second of the calendar, in UTC; the year 0 is 1 BC. -/
structure Civil where
  year : ℤ
  month : ℕ
  day : ℕ
  hour : ℕ
  minute : ℕ
  second : ℕ
  month_valid : 1 ≤ month ∧ month ≤ 12
  day_valid : 1 ≤ day ∧ day ≤ daysIn year month
  time_valid : hour < 24 ∧ minute < 60 ∧ second < 60
  deriving DecidableEq

def Civil.text (c : Civil) (year : ℕ) : List Char :=
  decimalsFrom 4 year ++ '-' :: (decimals 2 c.month ++ '-' :: (decimals 2 c.day ++ 'T' :: (decimals 2 c.hour ++
    ':' :: (decimals 2 c.minute ++ ':' :: (decimals 2 c.second ++ ['.'])))))

def Civil.nine : Civil := ⟨2026, 1, 5, 9, 0, 0, by decide, by decide, by decide⟩

/-- There are nanoseconds, for their numerals. -/
instance neZero_second : NeZero 1000000000 := ⟨by decide⟩

/-- A `time.Time` of the wall clock, which has nanoseconds. -/
structure GoTime where
  civil : Civil
  nanosecond : Fin 1000000000
  year_pos : 0 < civil.year

/-- `Format("2006-01-02T15:04:05.000000000Z")`. -/
def GoTime.format (t : GoTime) : List Char := t.civil.text t.civil.year.toNat ++ (decimals 9 t.nanosecond ++ ['Z'])

/-- A value of type `timestamptz`, which has microseconds. -/
inductive Timestamp
  | negInfinity
  | instant (civil : Civil) (microsecond : Fin 1000000)
  | infinity
  deriving DecidableEq

namespace Timestamp

/-- The column keeps the microseconds of a `time.Time`. -/
def ofGo (t : GoTime) : Timestamp := .instant t.civil ⟨t.nanosecond / 1000, by omega⟩

/-- `YYYY` counts the years of both eras from 1. -/
def yearOfEra (year : ℤ) : ℕ := (if year ≤ 0 then 1 - year else year).toNat

/-- `to_char(…, 'YYYY-MM-DD"T"HH24:MI:SS.US000"Z"')`, which is `NULL` for an infinite time. -/
def toChar : Timestamp → Option (List Char)
  | .instant c us => some (c.text (yearOfEra c.year) ++ (decimals 6 us ++ ['0', '0', '0', 'Z']))
  | .negInfinity | .infinity => none

def key : Timestamp → List ℤ
  | .negInfinity => [0]
  | .instant c us => [1, c.year, c.month, c.day, c.hour, c.minute, c.second, (us : ℕ)]
  | .infinity => [2]

end Timestamp

/-! ### States -/

/-- `\u` and four hexadecimal digits. -/
def unicodeEscape (c : Char) : List Char :=
  '\\' :: 'u' :: ([4096, 256, 16, 1].map fun n => hexChar (Fin.ofNat 16 (c.toNat / n)))

/-- The spelling of a character in `json.Marshal`. -/
def goEscape (c : Char) : List Char :=
  if c = '"' then ['\\', '"'] else if c = '\\' then ['\\', '\\']
  else if c.toNat = 8 then ['\\', 'b'] else if c.toNat = 12 then ['\\', 'f']
  else if c = '\n' then ['\\', 'n'] else if c = '\r' then ['\\', 'r'] else if c = '\t' then ['\\', 't']
  else if c.toNat < 32 ∨ c ∈ ['<', '>', '&'] ∨ c.toNat = 0x2028 ∨ c.toNat = 0x2029 then unicodeEscape c
  else [c]

/-- The spelling of a character in the text of a `jsonb`. -/
def jsonbEscape (c : Char) : List Char :=
  if c = '"' then ['\\', '"'] else if c = '\\' then ['\\', '\\']
  else if c.toNat = 8 then ['\\', 'b'] else if c.toNat = 12 then ['\\', 'f']
  else if c = '\n' then ['\\', 'n'] else if c = '\r' then ['\\', 'r'] else if c = '\t' then ['\\', 't']
  else if c.toNat < 32 then unicodeEscape c
  else [c]

def goStyle : JsonStyle := ⟨goEscape, [','], [':']⟩

def jsonbStyle : JsonStyle := ⟨jsonbEscape, [',', ' '], [':', ' ']⟩

def utf8Length (k : List Char) : ℕ := (k.map Char.utf8Size).sum

/-- The order of the keys of a `jsonb`: the shorter one first. -/
def jsonbKeyLe (a b : List Char) : Bool :=
  decide (utf8Length a < utf8Length b) || (decide (utf8Length a = utf8Length b) && decide (a ≤ b))

/-- A value of type `jsonb`, which is known by its text. -/
structure Jsonb where
  text : List Char
  spelt : ∃ v : Json, v.print jsonbStyle = text

/-- A `map[string]interface{}`; one that holds a value that `json.Marshal` refuses is `unsupported`. -/
inductive StateMap
  | nilMap
  | entries (members : List (List Char × Json))
  | unsupported

namespace StateMap

def json? : StateMap → Option Json
  | .nilMap => some .null
  | .entries members => some (.obj members)
  | .unsupported => none

/-- `json.Marshal` writes the keys in order; its error is ignored, and then there are no bytes. -/
def marshal (s : StateMap) : List Char :=
  ((s.json?.map fun v => (v.arrange (fun a b => decide (a ≤ b)) id).print goStyle)).getD []

variable (numeric : JsonNumber → JsonNumber)

/-- The column: no bytes are `NULL`, and numbers are kept in the normal form of `numeric`. -/
def column (s : StateMap) : Option Jsonb :=
  s.json?.map fun v => ⟨(v.arrange jsonbKeyLe numeric).print jsonbStyle, _, rfl⟩

end StateMap

/-! ### `auditlog.Record` -/

structure AuditEntry where
  id : PgUuid
  tenantId : PgUuid
  timestamp : GoTime
  actorUserId : List Char
  actionType : List Char
  targetEntity : List Char
  targetId : List Char
  previousState : StateMap
  newState : StateMap
  ipAddress : List Char
  userAgent : List Char
  outcome : List Char
  severity : List Char
  sessionId : List Char
  requestId : List Char

structure Event where
  action : List Char
  outcome : List Char := []
  severity : List Char := []
  targetEntity : List Char
  targetId : List Char
  previous : StateMap := .nilMap
  next : StateMap := .nilMap
  detail : List Char := []

/-- What `Record` takes from the request and from the clock, with the identifier it makes. -/
structure RequestContext where
  newId : PgUuid
  now : GoTime
  tenantId : PgUuid
  userId : List Char
  requestId : List Char
  sessionId : List Char
  clientIp : List Char
  userAgent : List Char

def orInfo (s dflt : List Char) : List Char := if s = [] then dflt else s

def stateWithDetail (next : StateMap) (detail : List Char) : StateMap :=
  if detail = [] then next
  else match next with
    | .nilMap => .entries [("detail".toList, .str detail)]
    | .entries members =>
      .entries (members.filter (fun member => decide (member.1 ≠ "detail".toList)) ++ [("detail".toList, .str detail)])
    | .unsupported => .unsupported

/-- The entry that `Record` saves. -/
def record (r : RequestContext) (ev : Event) : AuditEntry where
  id := r.newId
  tenantId := r.tenantId
  timestamp := r.now
  actorUserId := r.userId
  actionType := ev.action
  targetEntity := ev.targetEntity
  targetId := ev.targetId
  previousState := ev.previous
  newState := stateWithDetail ev.next ev.detail
  ipAddress := r.clientIp
  userAgent := r.userAgent
  outcome := orInfo ev.outcome "success".toList
  severity := orInfo ev.severity "info".toList
  sessionId := r.sessionId
  requestId := r.requestId

/-! ### `audit_entries` -/

structure AuditRow where
  id : PgUuid
  tenantId : PgUuid
  timestamp : Timestamp
  actorUserId : Option PgUuid
  actionType : List Char
  targetEntity : List Char
  targetId : Option (List Char)
  previousState : Option Jsonb
  newState : Option Jsonb
  ipAddress : Option (List Char)
  userAgent : Option (List Char)
  outcome : Option (List Char)
  severity : Option (List Char)
  sessionId : Option (List Char)
  requestId : Option (List Char)
  prevHash : Option (List Char)
  entryHash : Option (List Char)

/-- `(timestamp, id)`. -/
def AuditRow.key (r : AuditRow) : List ℤ := r.timestamp.key ++ r.id.key

/-- The hashed rows of a tenant, `ORDER BY timestamp ASC, id ASC`. -/
def chainOf (table : List AuditRow) (tenantId : PgUuid) : List AuditRow :=
  (table.filter fun r => decide (r.tenantId = tenantId) && r.entryHash.isSome).insertionSort fun a b => a.key ≤ b.key

def us : Char := Char.ofNat 0x1f

def delimited (parts : List (List Char)) : List Char := parts.flatMap fun part => part ++ [us]

/-! ### `auditRepo.Save` -/

section

variable (sha256 : List Char → List Char) (numeric : JsonNumber → JsonNumber)

/-- `SELECT COALESCE(entry_hash, '') … ORDER BY timestamp DESC, id DESC LIMIT 1`. -/
def lookupPrevHash (table : List AuditRow) (tenantId : PgUuid) : List Char :=
  ((chainOf table tenantId).getLast?.bind AuditRow.entryHash).getD []

/-- The bytes that `computeAuditHash` hashes. -/
def hashedBytes (e : AuditEntry) (prevHash : List Char) : List Char :=
  delimited [prevHash, e.id.text, e.tenantId.text, e.timestamp.format, e.actorUserId, e.actionType, e.targetEntity,
    e.targetId, e.ipAddress, e.userAgent, e.outcome, e.severity, e.sessionId, e.requestId] ++
    (e.previousState.marshal ++ us :: e.newState.marshal)

def computeAuditHash (e : AuditEntry) (prevHash : List Char) : List Char := sha256 (hashedBytes e prevHash)

/-- `NULLIF(t, '')`. -/
def nullIf (t : List Char) : Option (List Char) := if t = [] then none else some t

/-- What a `varchar(n)` column takes: excess blanks are cut off, any other excess is an error. -/
def varchar (n : ℕ) (t : List Char) : Option (List Char) :=
  if (t.drop n).all (fun c => c == ' ') then some (t.take n) else none

/-- `NULLIF($4, '')::uuid`. -/
def actorColumn (t : List Char) : Option (Option PgUuid) := if t = [] then some none else (PgUuid.uuidIn t).map some

/-- A call of `Save`; the database may refuse the row for other reasons than those of the model, such as a foreign key,
row-level security, a text that is not UTF-8, or a lost connection. -/
structure SaveCall where
  entry : AuditEntry
  refused : Bool := false

/-- The row that `saveOnExecutor` inserts after it has found `prevHash`. -/
def insertedRow (table : List AuditRow) (prevHash : List Char) (call : SaveCall) : Option AuditRow := do
  let e := call.entry
  let actor ← actorColumn e.actorUserId
  let action ← varchar 100 e.actionType
  let entity ← varchar 100 e.targetEntity
  if call.refused ∨ e.id ∈ table.map AuditRow.id then none
  else pure {
    id := e.id, tenantId := e.tenantId, timestamp := .ofGo e.timestamp, actorUserId := actor, actionType := action,
    targetEntity := entity, targetId := some e.targetId, previousState := e.previousState.column numeric,
    newState := e.newState.column numeric, ipAddress := some e.ipAddress, userAgent := some e.userAgent,
    outcome := nullIf e.outcome, severity := nullIf e.severity, sessionId := nullIf e.sessionId,
    requestId := nullIf e.requestId, prevHash := nullIf prevHash,
    entryHash := some (computeAuditHash sha256 e prevHash) }

/-- `Save`: a call that fails leaves the table as it is. -/
def save (table : List AuditRow) (call : SaveCall) : List AuditRow :=
  table ++ (insertedRow sha256 numeric table (lookupPrevHash table call.entry.tenantId) call).toList

def saveAll (calls : List SaveCall) : List AuditRow := calls.foldl (save sha256 numeric) []

end

/-! ### Requests side by side -/

/-- The committed rows, the rows that transactions have inserted and not committed, and the `Save`s that have found a
hash and not inserted their row yet. -/
structure ChainState (ι : Type) where
  table : List AuditRow := []
  pending : List (ι × AuditRow) := []
  saving : ι → Option (SaveCall × List Char) := fun _ => none

inductive ChainEvent (ι : Type)
  | lookup (tx : ι) (call : SaveCall)
  | insert (tx : ι)
  | commit (tx : ι)
  | rollback (tx : ι)

section

variable {ι : Type} [DecidableEq ι] (sha256 : List Char → List Char) (numeric : JsonNumber → JsonNumber)

namespace ChainState

def own (st : ChainState ι) (tx : ι) : List AuditRow := (st.pending.filter fun p => decide (p.1 = tx)).map Prod.snd

def others (st : ChainState ι) (tx : ι) : List (ι × AuditRow) := st.pending.filter fun p => decide (p.1 ≠ tx)

/-- What a statement of the transaction sees under `READ COMMITTED`. -/
def visible (st : ChainState ι) (tx : ι) : List AuditRow := st.table ++ st.own tx

def all (st : ChainState ι) : List AuditRow := st.table ++ st.pending.map Prod.snd

end ChainState

/-- One statement. A `Save` that fails is rolled back to its savepoint; a transaction ends when no `Save` of it is under
way. -/
def chainStep (st : ChainState ι) : ChainEvent ι → ChainState ι
  | .lookup tx call =>
    if st.saving tx = none then
      { st with
        saving := Function.update st.saving tx (some (call, lookupPrevHash (st.visible tx) call.entry.tenantId)) }
    else st
  | .insert tx =>
    match st.saving tx with
    | some (call, prevHash) =>
      { st with
        pending := st.pending ++ (insertedRow sha256 numeric st.all prevHash call).toList.map fun r => (tx, r)
        saving := Function.update st.saving tx none }
    | none => st
  | .commit tx => if st.saving tx = none then { st with table := st.visible tx, pending := st.others tx } else st
  | .rollback tx => { st with pending := st.others tx, saving := Function.update st.saving tx none }

end

/-! ### `verify_audit_chain` -/

/-- `COALESCE(state::text::bytea, ''::bytea)`; a text that is no byte string raises an exception. -/
def stateBytes : Option Jsonb → Option (List Char)
  | none => some []
  | some j => byteaIn j.text

/-- What the verifier composes of a row. An exception is the outer `none`; it is raised also if the result would be
`NULL`, the inner `none`, because an operand of the concatenation is. -/
def composed (r : AuditRow) : Option (Option (List Char)) := do
  let previous ← stateBytes r.previousState
  let next ← stateBytes r.newState
  pure do
    let timestamp ← r.timestamp.toChar
    let targetId ← r.targetId
    pure (delimited [r.prevHash.getD [], r.id.text, r.tenantId.text, timestamp, (r.actorUserId.map PgUuid.text).getD [],
      r.actionType, r.targetEntity, targetId, r.ipAddress.getD [], r.userAgent.getD [], r.outcome.getD [],
      r.severity.getD [], r.sessionId.getD [], r.requestId.getD []] ++ (previous ++ us :: next))

inductive Reason
  | ok
  | prevMismatch
  | hashMismatch
  deriving DecidableEq, Repr

/-- What the walk over a tenant's rows has found; the row of a break with its time. -/
structure Finding where
  totalEntries : ℕ
  brokenAt : Option (PgUuid × Timestamp)
  reason : Reason
  deriving DecidableEq

structure Report where
  tenantId : PgUuid
  finding : Finding
  deriving DecidableEq

/-- The type a column was declared with. -/
inductive ColumnType
  | text
  | uuid
  | inet
  deriving DecidableEq, Repr

/-- The types of the two columns whose values the verifier takes for texts. -/
structure Columns where
  targetId : ColumnType
  ipAddress : ColumnType
  deriving DecidableEq, Repr

def Columns.migrated : Columns := ⟨.uuid, .inet⟩

/-- `convert_to(target_id, 'UTF8')` and `COALESCE(ip_address, '')` are errors unless the columns are texts. -/
def Columns.readable (c : Columns) : Bool := decide (c.targetId = .text) && decide (c.ipAddress = .text)

section

variable (sha256 : List Char → List Char)

/-- The inner loop. A comparison with `NULL` is not true, so a row that composes to `NULL` passes. -/
def walk : (expectedPrev : List Char) → (seen : ℕ) → List AuditRow → Option Finding
  | _, seen, [] => some ⟨seen, none, .ok⟩
  | expectedPrev, seen, r :: rest =>
    if r.prevHash.getD [] ≠ expectedPrev then some ⟨seen + 1, some (r.id, r.timestamp), .prevMismatch⟩
    else match composed r with
      | none => none
      | some none => walk (r.entryHash.getD []) (seen + 1) rest
      | some (some bytes) =>
        if sha256 bytes ≠ r.entryHash.getD [] then some ⟨seen + 1, some (r.id, r.timestamp), .hashMismatch⟩
        else walk (r.entryHash.getD []) (seen + 1) rest

def tenantsOf (table : List AuditRow) : List PgUuid :=
  ((table.filter fun r => r.entryHash.isSome).map AuditRow.tenantId).dedup

def verifyAuditChain (columns : Columns) (table : List AuditRow) : Option (List Report) :=
  (tenantsOf table).mapM fun tenantId =>
    if columns.readable then (walk sha256 [] 0 (chainOf table tenantId)).map fun finding => ⟨tenantId, finding⟩
    else none

end

end BookingSystem.Model.AuditChain
