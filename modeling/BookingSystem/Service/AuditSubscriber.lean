import BookingSystem.Model.AuditChain
import BookingSystem.Model.EntityColumns
import BookingSystem.Model.Entities

/-!
# The audit subscriber

`AuditSubscriber` of the Node service. TypeORM raises an event after each insert, update and remove of an entity, and
the subscriber makes of it the row that it inserts into `audit_log`: the columns of a new or a removed entity, or those
that an update has changed, each with its value unless the name of the column speaks of a secret.
-/

namespace BookingSystem.Service.AuditSubscriber

open Base
open Model (trim)
open Model.AuditChain (jsonbEscape)
open Model.EntityColumns

/-! ### Values -/

inductive Number
  | nan
  | infinite (negative : Bool)
  | finite (q : ℚ)
  deriving DecidableEq

/-- The value of a property. A date holds its time, unless it is an invalid one; an object or an array is what
`JSON.stringify` makes of it, with the numerals that it writes. -/
inductive Value
  | undefined
  | null
  | bool (b : Bool)
  | num (n : Number)
  | str (s : String)
  | date (time : Option ℤ)
  | object (json : Json)

def Value.isUndefined : Value → Bool
  | .undefined => true
  | _ => false

/-- `value === undefined || value === null`. -/
def Value.isNullish : Value → Bool
  | .undefined | .null => true
  | _ => false

/-- Conversions of the language: `String(v)` of what is no text, and `new Date(v).getTime()` of what is no date. -/
structure Engine where
  text : Value → String
  time : Value → Option ℤ

/-- `String.prototype.slice(0, n)`. The half of a pair of code units is stored as the replacement character. -/
def sliceUnits : ℕ → List Char → List Char
  | _, [] => []
  | n, c :: cs =>
    if n = 0 then []
    else
      let size := if c.toNat < 65536 then 1 else 2
      if size ≤ n then c :: sliceUnits (n - size) cs else ['\uFFFD']

def slice (n : ℕ) (s : String) : String := String.ofList (sliceUnits n s.toList)

/-- `JSON.stringify`, which spells a character as the text of a `jsonb` does. -/
def stringify (json : Json) : List Char := json.print ⟨jsonbEscape, [','], [':']⟩

section

variable (E : Engine)

def toText : Value → String
  | .str s => s
  | v => E.text v

def getTime : Value → Option ℤ
  | .date time => time
  | v => E.time v

/-- `eq`. An invalid date has the time `NaN`, which equals nothing. -/
def eq : Value → Value → Bool
  | a, b =>
    if a.isNullish && b.isNullish then true
    else if a.isNullish || b.isNullish then false
    else
      match a, b with
      | .bool x, .bool y => x == y
      | .num .nan, .num _ => false
      | .num x, .num y => x == y
      | .str s, .str t => s == t
      | .object x, .object y => stringify x == stringify y
      | .date time, b => time.isSome && time == getTime E b
      | a, .date time => time.isSome && getTime E a == time
      | _, _ => false

/-! ### Redaction -/

def secretWords : List String :=
  ["pass", "secret", "token", "hash", "public_key", "private_key", "publickey", "privatekey", "credential", "mfa",
    "otp", "recovery", "backup", "salt"]

/-- `SECRET.test`: one of the words stands somewhere in the name, in letters of any case. -/
def secretTest (name : String) : Bool :=
  secretWords.any fun word => (name.toList.map Char.toLower).tails.any fun rest => word.toList.isPrefixOf rest

def redacted : String := "[redacted]"

/-- A column whose values `clean` replaces. -/
def isRedacted (col : ColumnMetadata) : Bool := secretTest col.propertyName || secretTest col.databaseName

def clean (col : ColumnMetadata) (value : Value) : Value :=
  if value.isNullish then .null else if isRedacted col then .str redacted else value

/-! ### Events -/

/-- The own properties of an object. -/
abbrev Entity := String → Option Value

def Entity.get (entity : Entity) (p : String) : Value := (entity p).getD .undefined

structure AuthUser where
  id : String
  tenantId : String
  username : String
  deriving DecidableEq

/-- The live request of the tenant context, as far as a row tells of it. -/
structure Request where
  user : Option AuthUser
  method : String
  originalUrl : String
  url : String
  forwardedFor : Option String
  userAgent : Option String
  ip : String
  remoteAddress : String
  deriving DecidableEq

inductive Change
  | insert (entity : Entity)
  | update (entity databaseEntity : Option Entity)
  | remove (databaseEntity entity : Option Entity)

/-- An event of TypeORM with the request in whose context it is raised. The insert of its row may fail, which is
caught. -/
structure Event where
  metadata : { m : EntityMetadata // m ∈ entities }
  change : Change
  req : Option Request
  refused : Bool

/-! ### Rows -/

abbrev Record := List (String × Value)

inductive Verb
  | created
  | updated
  | deleted
  deriving DecidableEq

def Verb.text : Verb → String
  | .created => "CREATED"
  | .updated => "UPDATED"
  | .deleted => "DELETED"

structure AuditRow where
  tenantId : Value
  userId : Option String
  username : String
  action : String
  severity : String
  outcome : String
  targetEntity : String
  targetId : Option String
  method : Option String
  path : Option String
  ip : Option String
  userAgent : Option String
  previous : Option Record
  next : Option Record

def clientIp (req : Request) : String :=
  match req.forwardedFor.filter fun fwd => fwd ≠ "" with
  | some fwd => slice 64 (trim (String.ofList (fwd.toList.takeWhile fun c => c ≠ ',')))
  | none => slice 64 (if req.ip ≠ "" then req.ip else req.remoteAddress)

def reqPath (req : Request) : String :=
  let url := if req.originalUrl ≠ "" then req.originalUrl else req.url
  slice 512 (String.ofList (url.toList.takeWhile fun c => c ≠ '?'))

/-- `shouldSkip`. -/
def shouldSkip (ev : Event) : Bool :=
  ev.metadata.1.tableName == "audit_log" || (ev.req.bind Request.user).isNone

/-- The columns with the values that are stored of them. -/
def recordOf (cols : List ColumnMetadata) (value : String → Value) : Record :=
  cols.map fun col => (col.propertyName, clean col (value col.propertyName))

def snapshot (m : EntityMetadata) (entity : Entity) : Record :=
  recordOf (m.columns.filter fun col => !(entity.get col.propertyName).isUndefined) entity.get

/-- The value of a property, where there may be no entity. -/
def valueIn (entity : Option Entity) (p : String) : Value := (entity.getD fun _ => none).get p

/-- The caller has supplied a property, with another value than the one that was stored. -/
def moved (before after : Option Entity) (p : String) : Bool :=
  ((after.getD fun _ => none) p).isSome && !eq E (valueIn before p) (valueIn after p)

/-- `diff`: the values before and after of the columns that have moved. -/
def diff (m : EntityMetadata) (before after : Option Entity) : Record × Record :=
  let cols := m.columns.filter fun col => moved E before after col.propertyName
  (recordOf cols (valueIn before), recordOf cols (valueIn after))

def primaryId (m : EntityMetadata) (entity : Entity) : Option String :=
  (((m.primaryColumns.map fun pk => entity.get pk.propertyName) ++ [entity.get "id"]).find? fun v =>
    !v.isNullish).map fun v => slice 128 (toText E v)

/-- `previous && Object.keys(previous).length ? previous : undefined`. -/
def filled (record : Record) : Option Record := if record.isEmpty then none else some record

/-- The row that `record` inserts. -/
def entry (ev : Event) (verb : Verb) (severity : String) (subject : Entity) (previous next : Record) : AuditRow :=
  let user := ev.req.bind Request.user
  { tenantId :=
      if (subject.get "tenantId").isNullish then (user.map fun u => Value.str u.tenantId).getD .undefined
      else subject.get "tenantId"
    userId := user.map AuthUser.id
    username := ((user.map AuthUser.username).filter fun name => name ≠ "").getD "system"
    action := slice 128 (ev.metadata.1.name ++ "." ++ verb.text)
    severity := severity
    outcome := "success"
    targetEntity := slice 64 ev.metadata.1.tableName
    targetId := primaryId E ev.metadata.1 subject
    method := ev.req.map Request.method
    path := ev.req.map reqPath
    ip := ev.req.map clientIp
    userAgent := ev.req.map fun req => slice 512 (req.userAgent.getD "")
    previous := filled previous
    next := filled next }

def record (ev : Event) (verb : Verb) (severity : String) (subject : Entity) (previous next : Record) :
    Option AuditRow :=
  if ev.refused then none else some (entry E ev verb severity subject previous next)

def afterInsert (ev : Event) (entity : Entity) : Option AuditRow :=
  let next := snapshot ev.metadata.1 entity
  if next.isEmpty then none else record E ev .created "info" entity [] next

def afterUpdate (ev : Event) (entity databaseEntity : Option Entity) : Option AuditRow := do
  let subject ← entity.or databaseEntity
  let (previous, next) := diff E ev.metadata.1 databaseEntity entity
  if next.isEmpty then none else record E ev .updated "info" subject previous next

def afterRemove (ev : Event) (databaseEntity entity : Option Entity) : Option AuditRow := do
  let subject ← databaseEntity.or entity
  record E ev .deleted "warning" subject (snapshot ev.metadata.1 subject) []

/-- The row of an event, if there is one. -/
def handle (ev : Event) : Option AuditRow :=
  if shouldSkip ev then none
  else
    match ev.change with
    | .insert entity => afterInsert E ev entity
    | .update entity databaseEntity => afterUpdate E ev entity databaseEntity
    | .remove databaseEntity entity => afterRemove E ev databaseEntity entity

/-- The rows of a run, in their order. -/
def rows (evs : List Event) : List AuditRow := evs.filterMap (handle E)

end

end BookingSystem.Service.AuditSubscriber
