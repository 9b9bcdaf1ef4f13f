import BookingSystem.Model.Outbox

/-!
# Calendar sync

The drain of the sync outbox pushes a booking to the calendars of Microsoft and Google. Each adapter comes in the
statements it is made of: what it reads, the calls it makes, and what it writes back. The calendars themselves are
parameters: a function from a call and the state of the calendar to the answer and the next state.
-/

namespace BookingSystem.Model

open Base

/-! ### Events, calls and answers -/

/-- The names of the booking events; the adapters ignore every other one. -/
inductive BookingEvent
  | created | approved | updated | cancelled | rejected
  | other (name : String)
  deriving DecidableEq, Repr

def BookingEvent.pushes : BookingEvent → Bool
  | .created | .approved | .updated => true
  | _ => false

def BookingEvent.withdraws : BookingEvent → Bool
  | .cancelled | .rejected => true
  | _ => false

structure RemoteError where
  status : Option ℕ
  message : String
  deriving DecidableEq, Repr

/-- What a calendar answers; for an event, its id there. -/
structure Reply where
  id : String := ""
  iCalUId : Option String := none
  deriving DecidableEq, Repr

/-- A remote calendar with states `σ` and calls `χ`. -/
abbrev Remote (σ χ : Type) := χ → σ → σ × Except RemoteError Reply

structure GraphEvent where
  subject : String
  content : String
  start : Instant
  finish : Instant
  location : String
  deriving DecidableEq, Repr

inductive GraphCall
  | token (azureTenantID clientID clientSecret : String)
  | patch (mailboxUPN graphId : String) (event : GraphEvent)
  | post (mailboxUPN : String) (event : GraphEvent)
  | delete (mailboxUPN graphId : String)
  deriving DecidableEq, Repr

structure GoogleEvent where
  summary : String
  description : Option String
  start : Instant
  finish : Instant
  cancelled : Bool
  deriving DecidableEq, Repr

inductive GoogleCall
  | patch (calendarId eventId : String) (body : GoogleEvent)
  | insert (calendarId : String) (body : GoogleEvent)
  | cancel (calendarId eventId : String)
  deriving DecidableEq, Repr

/-! ### Settings and records -/

structure Credential where
  azureTenantID : String := ""
  clientID : String := ""
  clientSecret : String := ""
  isActive : Bool := true
  deriving DecidableEq, Repr

structure RoomMailbox where
  resourceId : Uuid
  mailboxUPN : String
  isActive : Bool := true
  deriving DecidableEq, Repr

structure OutlookSyncRecord where
  id : Uuid
  bookingId : Uuid
  tenantId : Uuid
  mailboxUPN : String
  graphId : String
  iCalUID : String := ""
  deriving DecidableEq, Repr

instance : Keyed OutlookSyncRecord Uuid := ⟨OutlookSyncRecord.bookingId⟩

structure GoogleSyncRecord where
  bookingId : Uuid
  tenantId : Uuid
  calendarId : String
  eventId : String
  deriving DecidableEq, Repr

instance : Keyed GoogleSyncRecord Uuid := ⟨GoogleSyncRecord.bookingId⟩

/-- The settings of the two integrations. `reveal` opens a stored secret, `serviceAccount` reads the Google service
account from its JSON text, and `tokenCached` says whether a Graph token is at hand. -/
structure SyncSettings where
  microsoft : Uuid → Option Credential
  google : Uuid → Option Credential
  reveal : String → Except String String
  serviceAccount : String → Except String Unit
  mailboxes : List RoomMailbox
  resources : Table Resource
  targetCalendarId : String := "primary"
  tokenCached : Bool := false

/-- `getDecrypted`: the credential of an integration that is switched on. -/
def getDecrypted (reveal : String → Except String String) (stored : Option Credential) :
    Except String (Option Credential) :=
  match stored with
  | none => .ok none
  | some c =>
    if !c.isActive then .ok none
    else if c.clientSecret = "" then .ok (some c)
    else (reveal c.clientSecret).map fun secret => some { c with clientSecret := secret }

/-- `mailboxForResource`. -/
def mailboxForResource (s : SyncSettings) (resourceId : Uuid) : Option RoomMailbox :=
  s.mailboxes.find? fun m => m.resourceId == resourceId

inductive SyncStatus
  | pending | synced | failed
  deriving DecidableEq, Repr

/-- The tables the sync works on; `syncStatus` is the column of the bookings that it writes. -/
structure SyncStore where
  bookings : Table Booking
  syncStatus : Uuid → SyncStatus
  outlook : Table OutlookSyncRecord
  google : Table GoogleSyncRecord

/-- How an adapter leaves things: the tables, the state of its calendar, and how its operation on the calendar ended,
if it came to one. -/
structure AdapterRun (σ : Type) where
  db : SyncStore
  remote : σ
  calls : List (Except RemoteError Reply)

/-! ### `GraphService` -/

namespace GraphService

variable {σ : Type} (graph : Remote σ GraphCall)

def token (cached : Bool) (c : Credential) (w : σ) : σ × Except RemoteError Reply :=
  if cached then (w, .ok {}) else graph (.token c.azureTenantID c.clientID c.clientSecret) w

def gone (e : RemoteError) : Bool := e.status == some 404 || e.status == some 410

/-- PATCH if the event has an id, else POST; an event that is gone is posted anew. -/
def upsertEvent (cached : Bool) (c : Credential) (mailboxUPN : String) (existing : Option String) (event : GraphEvent)
    (w : σ) : σ × Except RemoteError Reply :=
  match token graph cached c w with
  | (w, .error e) => (w, .error e)
  | (w, .ok _) =>
    match existing with
    | none => graph (.post mailboxUPN event) w
    | some graphId =>
      match graph (.patch mailboxUPN graphId event) w with
      | (w, .ok _) => (w, .ok { id := graphId })
      | (w, .error e) => if gone e then graph (.post mailboxUPN event) w else (w, .error e)

def cancelEvent (cached : Bool) (c : Credential) (mailboxUPN graphId : String) (w : σ) :
    σ × Except RemoteError Reply :=
  match token graph cached c w with
  | (w, .error e) => (w, .error e)
  | (w, .ok _) =>
    match graph (.delete mailboxUPN graphId) w with
    | (w, .ok r) => (w, .ok r)
    | (w, .error e) => if e.status == some 404 then (w, .ok {}) else (w, .error e)

end GraphService

/-! ### `OutlookSyncService` -/

namespace OutlookSyncService

def subjectFor (resource : Option Resource) (b : Booking) : String :=
  let name := resource.elim "Booking" (·.name)
  if b.status == .pendingApproval then "[Pending] " ++ name
  else if b.title = "" then name else b.title

def eventFor (resource : Option Resource) (b : Booking) : GraphEvent where
  subject := subjectFor resource b
  content := "Booking " ++ b.id ++ " synced from FSD MRBS."
  start := b.startTime
  finish := b.endTime
  location := resource.elim "Resource" fun r => r.name ++ " · " ++ r.location.getD ""

/-- What `upsert` reads of the booking: the mailbox of its room, and the event; nothing when there is no booking or no
active mailbox. -/
def readBooking (s : SyncSettings) (db : SyncStore) (bookingId : Uuid) : Option (Booking × String × GraphEvent) := do
  let b ← db.bookings.find? bookingId
  let mailbox ← mailboxForResource s b.resourceId
  if mailbox.isActive then some (b, mailbox.mailboxUPN, eventFor (s.resources.find? b.resourceId) b) else none

def existingId (existing : Option OutlookSyncRecord) : Option String :=
  (existing.map (·.graphId)).filter (· ≠ "")

/-- The id is written back: into the record that was read, else into a new one. The unique index refuses a second
record of the booking, and the refusal ends in the log. -/
def writeBack (newId : Uuid) (b : Booking) (mailboxUPN : String) (existing : Option OutlookSyncRecord) (reply : Reply)
    (records : Table OutlookSyncRecord) : Table OutlookSyncRecord :=
  match existing with
  | some rec => records.update (fun r => r.id == rec.id) fun r => { r with graphId := reply.id }
  | none =>
    (records.insert?
      { id := newId
        bookingId := b.id
        tenantId := b.tenantId
        mailboxUPN := mailboxUPN
        graphId := reply.id
        iCalUID := reply.iCalUId.getD "" }).getD records

/-- `records.delete`. -/
def drop (id : Uuid) (records : Table OutlookSyncRecord) : Table OutlookSyncRecord :=
  ⟨records.rows.filter fun r => r.id != id, records.nodup.sublist (List.filter_sublist.map _)⟩

variable {σ : Type} (graph : Remote σ GraphCall)

def upsert (s : SyncSettings) (newId : Uuid) (c : Credential) (bookingId : Uuid) (db : SyncStore) (w : σ) :
    AdapterRun σ :=
  match readBooking s db bookingId with
  | none => ⟨db, w, []⟩
  | some (b, mailboxUPN, event) =>
    let existing := db.outlook.find? bookingId
    match GraphService.upsertEvent graph s.tokenCached c mailboxUPN (existingId existing) event w with
    | (w, .ok reply) =>
      ⟨{ db with outlook := writeBack newId b mailboxUPN existing reply db.outlook }, w, [.ok reply]⟩
    | (w, .error e) => ⟨db, w, [.error e]⟩

/-- The record goes whether the event could be deleted or not. -/
def cancel (s : SyncSettings) (c : Credential) (bookingId : Uuid) (db : SyncStore) (w : σ) : AdapterRun σ :=
  match db.outlook.find? bookingId with
  | none => ⟨db, w, []⟩
  | some rec =>
    match GraphService.cancelEvent graph s.tokenCached c rec.mailboxUPN rec.graphId w with
    | (w, result) => ⟨{ db with outlook := drop rec.id db.outlook }, w, [result]⟩

/-- The errors that leave the adapter are those of the credential. -/
def handleBookingEvent (s : SyncSettings) (newId : Uuid) (event : BookingEvent) (tenantId bookingId : Uuid)
    (db : SyncStore) (w : σ) : AdapterRun σ × Except String Unit :=
  match getDecrypted s.reveal (s.microsoft tenantId) with
  | .error e => (⟨db, w, []⟩, .error e)
  | .ok none => (⟨db, w, []⟩, .ok ())
  | .ok (some c) =>
    if event.pushes then (upsert graph s newId c bookingId db w, .ok ())
    else if event.withdraws then (cancel graph s c bookingId db w, .ok ())
    else (⟨db, w, []⟩, .ok ())

end OutlookSyncService

/-! ### `GoogleSyncService` -/

namespace GoogleSyncService

def eventFor (b : Booking) : GoogleEvent where
  summary := if b.title = "" then "FSD booking" else b.title
  description := if b.meetingUrl = "" then none else some ("Meeting: " ++ b.meetingUrl)
  start := b.startTime
  finish := b.endTime
  cancelled := b.status == .cancelled

/-- The id of a new event is stored, unless the answer has none or a record of the booking is there already. -/
def writeBack (tenantId bookingId : Uuid) (calendarId : String) (reply : Reply) (records : Table GoogleSyncRecord) :
    Table GoogleSyncRecord :=
  if reply.id = "" then records
  else (records.insert? ⟨bookingId, tenantId, calendarId, reply.id⟩).getD records

variable {σ : Type} (google : Remote σ GoogleCall)

/-- The service account is read before the `try`, so that a broken one is an error of the adapter. -/
def push (s : SyncSettings) (saJSON : String) (tenantId bookingId : Uuid) (db : SyncStore) (w : σ) :
    AdapterRun σ × Except String Unit :=
  match db.bookings.find? bookingId with
  | none => (⟨db, w, []⟩, .ok ())
  | some b =>
    match s.serviceAccount saJSON with
    | .error e => (⟨db, w, []⟩, .error e)
    | .ok _ =>
      match db.google.find? bookingId with
      | some rec =>
        match google (.patch s.targetCalendarId rec.eventId (eventFor b)) w with
        | (w, result) => (⟨db, w, [result]⟩, .ok ())
      | none =>
        match google (.insert s.targetCalendarId (eventFor b)) w with
        | (w, .ok reply) =>
          (⟨{ db with google := writeBack tenantId bookingId s.targetCalendarId reply db.google }, w, [.ok reply]⟩,
            .ok ())
        | (w, .error e) => (⟨db, w, [.error e]⟩, .ok ())

/-- The event is struck through, and its record stays. -/
def cancel (s : SyncSettings) (saJSON : String) (bookingId : Uuid) (db : SyncStore) (w : σ) :
    AdapterRun σ × Except String Unit :=
  match db.google.find? bookingId with
  | none => (⟨db, w, []⟩, .ok ())
  | some rec =>
    match s.serviceAccount saJSON with
    | .error e => (⟨db, w, []⟩, .error e)
    | .ok _ =>
      match google (.cancel rec.calendarId rec.eventId) w with
      | (w, result) => (⟨db, w, [result]⟩, .ok ())

def handleBookingEvent (s : SyncSettings) (event : BookingEvent) (tenantId bookingId : Uuid) (db : SyncStore)
    (w : σ) : AdapterRun σ × Except String Unit :=
  match getDecrypted s.reveal (s.google tenantId) with
  | .error e => (⟨db, w, []⟩, .error e)
  | .ok none => (⟨db, w, []⟩, .ok ())
  | .ok (some c) =>
    if c.clientSecret = "" then (⟨db, w, []⟩, .ok ())
    else if event.pushes then push google s c.clientSecret tenantId bookingId db w
    else if event.withdraws then cancel google s c.clientSecret bookingId db w
    else (⟨db, w, []⟩, .ok ())

end GoogleSyncService

/-! ### `SyncOutboxService` -/

namespace SyncOutboxService

/-- What a row of the sync outbox asks for. -/
structure Push where
  tenantId : Uuid
  bookingId : Uuid
  event : BookingEvent
  deriving DecidableEq, Repr

/-- The errors of a row that reach `deliverOne`. -/
def errorsOf (outlook google : Except String Unit) : List String :=
  (match outlook with
    | .error e => ["outlook: " ++ e]
    | .ok _ => []) ++
  (match google with
    | .error e => ["google: " ++ e]
    | .ok _ => [])

/-- `markBookingSync`. -/
def markBookingSync (tenantId bookingId : Uuid) (status : SyncStatus) (db : SyncStore) : SyncStore :=
  if (findBooking db.bookings tenantId bookingId).isSome then
    { db with syncStatus := fun id => if id = bookingId then status else db.syncStatus id }
  else db

/-- What `deliverOne` writes on the booking, by the status of the row. -/
def bookingMark (status : OutboxStatus) : Option SyncStatus :=
  match status with
  | .sent => some .synced
  | .failed => some .failed
  | _ => none

/-- A delivery: the row and what is written on the booking, the tables and the calendars after it, and how the
operations on the calendars ended. -/
structure Delivered (σ τ : Type) where
  row : OutboxRow Push
  mark : Option SyncStatus
  db : SyncStore
  graph : σ
  google : τ
  calls : List (Except RemoteError Reply)

variable {σ τ : Type} (graph : Remote σ GraphCall) (google : Remote τ GoogleCall)

def deliverOne (s : SyncSettings) (now : Instant) (newId : Uuid) (row : OutboxRow Push) (db : SyncStore) (w : σ)
    (v : τ) : Delivered σ τ :=
  let p := row.payload
  let o := OutlookSyncService.handleBookingEvent graph s newId p.event p.tenantId p.bookingId db w
  let g := GoogleSyncService.handleBookingEvent google s p.event p.tenantId p.bookingId o.1.db v
  let settled := settleRow now (errorsOf o.2 g.2) row
  let mark := bookingMark settled.status
  let db := match mark with
    | some m => markBookingSync p.tenantId p.bookingId m g.1.db
    | none => g.1.db
  ⟨settled, mark, db, o.1.remote, g.1.remote, o.1.calls ++ g.1.calls⟩

end SyncOutboxService

end BookingSystem.Model

/-!
## What the outboxes write

What a claim takes and marks, and how a delivery leaves its row.
-/

namespace BookingSystem.Effects

open Base Model Model.Outbox Model.SyncOutboxService

variable {π : Type}

/-! ### What a claim takes -/

variable {now : Instant} {locked : List Uuid} {t : Table (OutboxRow π)}

theorem mem_batch {r : OutboxRow π} (h : r ∈ batch now locked t) : r ∈ t.rows ∧ Outbox.due now r = true := by
  have hmem := List.mem_of_mem_take h
  rw [(List.perm_insertionSort _ _).mem_iff, List.mem_filter, Bool.and_eq_true] at hmem
  exact ⟨hmem.1, hmem.2.1⟩

theorem nodup_batch : ((batch now locked t).map (·.id)).Nodup := by
  refine ((List.take_sublist drainBatch _).map _).nodup ?_
  rw [((List.perm_insertionSort _ _).map _).nodup_iff]
  exact t.nodup.sublist (List.filter_sublist.map _)

/-- The rows after a claim. -/
theorem find?_claimDue (k : Uuid) :
    (claimDue now locked t).1.find? k = (t.find? k).map fun r =>
      if ((batch now locked t).map (·.id)).contains r.id then { r with status := .processing, updatedAt := now }
      else r := by
  unfold claimDue
  dsimp only
  rw [Table.find?_update]

/-! ### Settling -/

theorem id_retryLater (now : Instant) (r : OutboxRow π) : (retryLater now r).id = r.id := by
  unfold retryLater
  split <;> rfl

theorem payload_settleRow (now : Instant) (errors : List String) (r : OutboxRow π) :
    (settleRow now errors r).payload = r.payload := by
  unfold settleRow
  split
  · rfl
  · unfold Outbox.recordFailure Outbox.retryLater
    dsimp only
    split <;> rfl

theorem status_recordFailure (now : Instant) (e : String) (r : OutboxRow π) :
    (Outbox.recordFailure now e r).status = .pending ∨ (Outbox.recordFailure now e r).status = .failed := by
  unfold Outbox.recordFailure Outbox.retryLater
  split
  · exact .inr rfl
  · exact .inl rfl

theorem settleRow_sent {now : Instant} {errors : List String} {r : OutboxRow π} :
    (settleRow now errors r).status = .sent ↔ errors = [] := by
  unfold settleRow
  split
  · rename_i hempty
    exact ⟨fun _ => List.isEmpty_iff.1 hempty, fun _ => rfl⟩
  · rename_i hempty
    rw [List.isEmpty_iff] at hempty
    rcases status_recordFailure now ("; ".intercalate errors) r with h | h
    · simp [h, hempty]
    · simp [h, hempty]

theorem settleRow_status {now : Instant} {errors : List String} {r : OutboxRow π} (h : errors ≠ []) :
    (settleRow now errors r).status = .pending ∨ (settleRow now errors r).status = .failed := by
  unfold settleRow
  rw [if_neg (by simpa using h)]
  exact status_recordFailure _ _ _

/-- No error has reached `deliverOne` iff both adapters are through. -/
theorem errorsOf_eq_nil {o g : Except String Unit} : errorsOf o g = [] ↔ o = .ok () ∧ g = .ok () := by
  rcases o with e | ⟨⟩ <;> rcases g with e' | ⟨⟩ <;> simp [errorsOf]

theorem eq_ok_iff {o : Except String Unit} : o = .ok () ↔ ¬ ∃ e, o = .error e := by
  rcases o with e | ⟨⟩ <;> simp

theorem not_withdraws_of_pushes {e : BookingEvent} (h : e.pushes = true) : e.withdraws = false := by
  cases e <;> first | rfl | cases h

end BookingSystem.Effects
