import BookingSystem.Model.Calendar
import BookingSystem.Model.Approvals

/-!
# `BookingsService`

Creating, editing and cancelling bookings. The transactional core of `create` and of `applyUpdate` comes in two
parts, cut where the source takes its row locks: what is read and checked before the locks (`createAdmit`,
`updateAdmit`), and the conflict check and the write under them (`createCommit`, `updateCommit`).
-/

namespace BookingSystem.Model.BookingsService

open Base

def terminalStatuses : List BookingStatus := [.cancelled, .noShow, .checkedIn, .attended]

structure CreateBookingDto where
  resourceId : Uuid
  startTime : Instant
  endTime : Instant
  title : Option String := none
  meetingUrl : Option String := none
  isPrivate : Bool := false
  customFieldValues : Option FieldValues := none
  services : Option (List String) := none
  attendees : Option (List String) := none
  costCenterCode : Option String := none
  recurrenceId : Option Uuid := none
  isRecurring : Bool := false

structure UpdateBookingDto where
  startTime : Option Instant := none
  endTime : Option Instant := none
  meetingUrl : Option String := none
  title : Option String := none
  resourceId : Option Uuid := none
  services : Option (List String) := none
  attendees : Option (List String) := none
  customFieldValues : Option FieldValues := none

/-! ### The conflict check -/

/-- The rows a booking of `r` can clash with: `r` itself, its parent, its children. -/
def relatedResourceIds (env : Env) (tenantId : Uuid) (r : Resource) : List Uuid :=
  let parent := if r.compositeMode == .child then r.parentResourceId.toList else []
  let kids :=
    if r.compositeMode == .parent then
      (env.resources.rows.filter fun k => k.tenantId == tenantId && k.parentResourceId == some r.id).map (·.id)
    else []
  (r.id :: (parent ++ kids)).eraseDups

/-- The rows `SELECT … FOR UPDATE` locks, in the order it locks them. -/
def lockResources (env : Env) (tenantId : Uuid) (ids : List Uuid) : List Uuid :=
  ((env.resources.rows.filter fun r => r.tenantId == tenantId && ids.contains r.id).map (·.id)).insertionSort (· ≤ ·)

/-- `tstzrange(a, b, '[)') && tstzrange(s, e, '[)')`; an empty range overlaps nothing. -/
def rangesOverlap (a b s e : Instant) : Bool := a < b && s < e && a < e && s < b

/-- The bookings the conflict check counts. -/
def conflicting (bookings : Table Booking) (tenantId : Uuid) (ids : List Uuid) (start finish : Instant)
    (excludeBookingId : Option Uuid) : List Booking :=
  bookings.rows.filter fun b =>
    b.tenantId == tenantId && ids.contains b.resourceId && !b.status.released &&
      rangesOverlap b.startTime b.endTime start finish && excludeBookingId != some b.id

def isPod (r : Resource) : Bool :=
  r.bookingMode == .shared && r.compositeMode != .parent && r.compositeMode != .child

def capacity (r : Resource) : ℤ := max 1 r.sharedCapacity

def assertNoConflict (bookings : Table Booking) (tenantId : Uuid) (ids : List Uuid) (start finish : Instant)
    (excludeBookingId : Option Uuid) (resource : Resource) : Except HttpError Unit :=
  let clash := conflicting bookings tenantId ids start finish excludeBookingId
  if isPod resource then
    require ((clash.length : ℤ) < capacity resource)
      (.conflict ("all " ++ toString (capacity resource) ++ " pods are booked for this slot"))
  else require clash.isEmpty (.conflict "time conflict — slot already booked")

/-! ### The other checks -/

/-- Who may book a restricted resource: an admin, or a member of the resource's department. -/
def assertCanBook (env : Env) (tenantId userId : Uuid) (resource : Resource) : Except HttpError Unit :=
  if !resource.isRestricted then .ok ()
  else
    match env.user tenantId userId with
    | none => .error (.forbidden "this resource is restricted")
    | some user =>
      if adminRoles.contains user.role then .ok ()
      else
        match resource.departmentId with
        | some d =>
          if user.departments.contains d then .ok ()
          else .error (.forbidden "this resource is restricted to its department")
        | none => .error (.forbidden "this resource is restricted")

def getKey {α : Type} (values : List (String × α)) (k : String) : Option α :=
  (values.find? fun p => p.1 == k).map (·.2)

def setKey {α : Type} (values : List (String × α)) (k : String) (v : α) : List (String × α) :=
  if values.any (·.1 == k) then values.map fun p => if p.1 == k then (k, v) else p else values ++ [(k, v)]

/-- `{ ...stored, ...incoming }`. -/
def mergeKeys (stored incoming : FieldValues) : FieldValues :=
  incoming.foldl (fun acc p => setKey acc p.1 p.2) stored

def isEmptyAnswer : Option FieldValue → Bool
  | none | some .null | some (.text "") | some (.items []) => true
  | _ => false

/-- What `values[key]` finds: the value of an own key, or a member that every object inherits. -/
inductive Raw
  | own (v : FieldValue)
  | inherited
  deriving DecidableEq

def lookupKey (values : FieldValues) (k : String) : Option Raw :=
  match getKey values k with
  | some v => some (.own v)
  | none => if inheritedNames.contains k then some .inherited else none

def isEmptyRaw : Option Raw → Bool
  | none => true
  | some (.own v) => isEmptyAnswer (some v)
  | some .inherited => false

abbrev Cleaned := List (String × Raw)

/-- `cleaned[key] = raw`; writing `__proto__` makes no key. -/
def assignKey (cleaned : Cleaned) (k : String) (raw : Raw) : Cleaned :=
  if k = "__proto__" then cleaned else setKey cleaned k raw

/-- The keys of the answers that JSON has; an inherited member is a function. -/
def ownKeys (cleaned : Cleaned) : FieldValues :=
  cleaned.filterMap fun p =>
    match p.2 with
    | .own v => some (p.1, v)
    | .inherited => none

def toColumn (cleaned : Cleaned) : Option FieldValues := if cleaned.isEmpty then none else some (ownKeys cleaned)

/-- The answers to the fields the resource defines; a required one must not be empty. -/
def validateCustomFields (resource : Resource) (incoming : FieldValues) : Except HttpError Cleaned :=
  resource.customFields.foldlM (fun cleaned defn =>
    let raw := lookupKey incoming defn.fieldKey
    if defn.required && isEmptyRaw raw then
      let name := match defn.label with
        | some l => if l = "" then defn.fieldKey else l
        | none => defn.fieldKey
      .error (.badRequest ("\"" ++ name ++ "\" is required"))
    else
      match raw with
      | some v => if isEmptyRaw raw then .ok cleaned else .ok (assignKey cleaned defn.fieldKey v)
      | none => .ok cleaned) []

def resolveCostCenter (env : Env) (tenantId : Uuid) (requested : Option String) (resource : Resource) :
    Except HttpError (Option String) := do
  let code := trim ((requested.or resource.costCenterCode).getD "")
  let allowed := (env.customization tenantId).costCenters.filter fun x => trim x != ""
  if allowed.isEmpty then return (if code = "" then none else some code)
  require (code != "") (.badRequest "a cost center must be selected for this booking")
  require (allowed.contains code) (.badRequest ("unknown cost center \"" ++ code ++ "\""))
  return some code

def needsApproval (r : Resource) : Bool :=
  ((r.ruleOverrides.bind (·.requiresApproval))).getD r.requiresApproval

/-- `null` for an absent or an empty list. -/
def nonEmpty {α : Type} (l : Option (List α)) : Option (List α) := l.filter fun l => !l.isEmpty

/-! ### Creating -/

/-- What the write of a booking claims: a window on a resource, with the rows it can clash with. -/
structure Slot where
  resource : Resource
  ids : List Uuid
  start : Instant
  finish : Instant

/-- `create` up to its transaction: the checks, the slot, and the row to insert. -/
def createAdmit (env : Env) (now : Instant) (tenantId userId : Uuid) (dto : CreateBookingDto) (newId : Uuid) :
    Except HttpError (Slot × Booking) := do
  require (dto.startTime < dto.endTime) (.conflict "end must be after start")
  let resource ← found (env.resource tenantId dto.resourceId) (.notFound "resource not bookable")
  require resource.isActive (.notFound "resource not bookable")
  let mapped := mapAllDayToOperatingHours env tenantId resource dto.startTime dto.endTime
  assertCanBook env tenantId userId resource
  let window ← BookingValidator.validDates mapped.start mapped.finish
  BookingValidator.validate env tenantId window.1 window.2 now resource.ruleOverrides resource.region mapped.wasAllDay
  assertWithinOperatingHours env tenantId resource window.1 window.2
  let customFieldValues ← validateCustomFields resource (dto.customFieldValues.getD [])
  let costCenterCode ← resolveCostCenter env tenantId dto.costCenterCode resource
  pure (⟨resource, relatedResourceIds env tenantId resource, window.1, window.2⟩,
    { id := newId
      tenantId := tenantId
      resourceId := resource.id
      userId := userId
      startTime := window.1
      endTime := window.2
      bookingMode := resource.bookingMode
      title := dto.title.getD ""
      meetingUrl := dto.meetingUrl.getD ""
      isPrivate := dto.isPrivate
      customFieldValues := toColumn customFieldValues
      services := nonEmpty dto.services
      attendees := nonEmpty dto.attendees
      costCenterCode := costCenterCode
      recurrenceId := dto.recurrenceId
      isRecurring := dto.recurrenceId.isSome || dto.isRecurring
      status := if needsApproval resource then .pendingApproval else .confirmed })

def createCommit (bookings : Table Booking) (slot : Slot) (row : Booking) : Except HttpError (Table Booking) := do
  assertNoConflict bookings row.tenantId slot.ids slot.start slot.finish none slot.resource
  found (bookings.insert? row) (.internal "duplicate key value violates unique constraint")

/-- The ids the database and the random generator hand out during an operation. -/
structure Fresh where
  booking : Uuid
  step : ℕ → Uuid
  token : String

/-- Books a slot. A failure to write the approval chain does not fail the booking. -/
def create (env : Env) (now : Instant) (fresh : Fresh) (tenantId userId : Uuid) (dto : CreateBookingDto)
    (st : Store) : Except HttpError (Store × Booking) := do
  let (slot, row) ← createAdmit env now tenantId userId dto fresh.booking
  let bookings ← createCommit st.bookings slot row
  let st := { st with bookings }
  if row.status == .pendingApproval then
    pure (settle (ApprovalsService.materialize env now fresh.step row st) st, row)
  else pure (st, row)

/-! ### Editing -/

def timeChanged (dto : UpdateBookingDto) : Bool := dto.startTime.isSome || dto.endTime.isSome

/-- `applyUpdate` up to its locks: the booking as it was read, and the slot the edit claims, if the edit touches
the window or the room at all. -/
def updateAdmit (env : Env) (now : Instant) (tenantId userId : Uuid) (role : String) (id : Uuid)
    (dto : UpdateBookingDto) (bookings : Table Booking) : Except HttpError (Booking × Option Slot) := do
  let b ← found (findBooking bookings tenantId id) (.notFound "booking not found")
  require (b.userId == userId || isAdmin role) (.forbidden "Forbidden")
  require (!terminalStatuses.contains b.status) (.conflict ("cannot modify a " ++ b.status.label ++ " booking"))
  let targetResourceId := dto.resourceId.getD b.resourceId
  let resourceChanged := targetResourceId != b.resourceId
  if timeChanged dto || resourceChanged then
    let start := dto.startTime.getD b.startTime
    let finish := dto.endTime.getD b.endTime
    require (start < finish) (.conflict "end must be after start")
    let resource ← found (env.resource tenantId targetResourceId) (.notFound "resource not bookable")
    require resource.isActive (.notFound "resource not bookable")
    let mapped := mapAllDayToOperatingHours env tenantId resource start finish
    let window ← BookingValidator.validDates mapped.start mapped.finish
    BookingValidator.validate env tenantId window.1 window.2 now resource.ruleOverrides resource.region
      mapped.wasAllDay
    assertWithinOperatingHours env tenantId resource window.1 window.2
    pure (b, some ⟨resource, relatedResourceIds env tenantId resource, window.1, window.2⟩)
  else pure (b, none)

/-- The booking on its new slot; a confirmed one re-enters the approval queue when the room asks for approval. -/
def reschedule (b : Booking) (slot : Slot) : Booking :=
  { b with
    status := if needsApproval slot.resource && b.status == .confirmed then .pendingApproval else b.status
    startTime := slot.start
    endTime := slot.finish
    resourceId := slot.resource.id }

/-- The fields an edit sets besides the slot. -/
def applyFields (env : Env) (tenantId : Uuid) (dto : UpdateBookingDto) (b : Booking) :
    Except HttpError Booking := do
  let b := { b with
    title := dto.title.getD b.title
    meetingUrl := dto.meetingUrl.getD b.meetingUrl
    services := match dto.services with
      | some l => nonEmpty (some l)
      | none => b.services
    attendees := match dto.attendees with
      | some l => nonEmpty (some l)
      | none => b.attendees }
  match dto.customFieldValues with
  | none => pure { b with version := b.version + 1 }
  | some incoming =>
    let merged := mergeKeys (b.customFieldValues.getD []) incoming
    let cleaned ← match env.resource tenantId b.resourceId with
      | some r => validateCustomFields r merged
      | none => pure (merged.map fun p => (p.1, .own p.2))
    pure { b with
      customFieldValues := toColumn cleaned
      version := b.version + 1 }

/-- The rest of `applyUpdate`, under the locks: the conflict check and the row to save. -/
def updateCommit (env : Env) (tenantId : Uuid) (dto : UpdateBookingDto) (b : Booking) (slot : Option Slot)
    (bookings : Table Booking) : Except HttpError Booking :=
  match slot with
  | none => applyFields env tenantId dto b
  | some slot => do
    assertNoConflict bookings tenantId slot.ids slot.start slot.finish (some b.id) slot.resource
    applyFields env tenantId dto (reschedule b slot)

def applyUpdate (env : Env) (now : Instant) (tenantId userId : Uuid) (role : String) (id : Uuid)
    (dto : UpdateBookingDto) (bookings : Table Booking) : Except HttpError Booking := do
  let (b, slot) ← updateAdmit env now tenantId userId role id dto bookings
  updateCommit env tenantId dto b slot bookings

def update (env : Env) (now : Instant) (tenantId userId : Uuid) (role : String) (id : Uuid)
    (dto : UpdateBookingDto) (st : Store) : Except HttpError (Store × Booking) := do
  let saved ← applyUpdate env now tenantId userId role id dto st.bookings
  pure ({ st with bookings := st.bookings.save saved }, saved)

/-! ### Editing a series -/

/-- A move of the wall clock: whole days and a new time of day. -/
structure WallShift where
  dayOffset : ℤ
  minutes : ℕ

def wallShift (tz : Zone) (oldUtc newUtc : Instant) : WallShift :=
  let o := utcToZonedWallClock tz oldUtc
  let n := utcToZonedWallClock tz newUtc
  ⟨n.dateStr - o.dateStr, n.minutes⟩

def applyWallShift (tz : Zone) (occUtc : Instant) (shift : WallShift) : Instant :=
  zonedTimeToUtc tz ((utcToZonedWallClock tz occUtc).dateStr + shift.dayOffset) shift.minutes

/-- The edit of one occurrence. -/
def seriesPatch (tz : Zone) (dto : UpdateBookingDto) (startShift endShift : Option WallShift) (s : Booking) :
    UpdateBookingDto :=
  { dto with
    startTime := startShift.map (applyWallShift tz s.startTime)
    endTime := endShift.map (applyWallShift tz s.endTime) }

/-- Where the loop over the occurrences stands: the rows as written so far, the number of edits, and the starts of
the occurrences that were skipped. -/
structure SeriesState where
  bookings : Table Booking
  updated : ℕ
  skipped : List Instant

/-- One turn of the loop of `updateSeries`: past and settled occurrences are left alone, a failed one is skipped. -/
def seriesTurn (env : Env) (now : Instant) (tenantId userId : Uuid) (role : String)
    (patch : Booking → UpdateBookingDto) (acc : SeriesState) (s : Booking) : SeriesState :=
  if terminalStatuses.contains s.status || s.startTime < now then acc
  else
    match applyUpdate env now tenantId userId role s.id (patch s) acc.bookings with
    | .ok saved => { acc with bookings := acc.bookings.save saved, updated := acc.updated + 1 }
    | .error _ => { acc with skipped := acc.skipped ++ [s.startTime] }

structure SeriesResult where
  updated : ℕ
  skipped : List Instant

def updateSeries (env : Env) (now : Instant) (tenantId userId : Uuid) (role : String) (id : Uuid)
    (dto : UpdateBookingDto) (st : Store) : Except HttpError (Store × SeriesResult) := do
  let anchor ← found (findBooking st.bookings tenantId id) (.notFound "booking not found")
  require (anchor.userId == userId || isAdmin role) (.forbidden "Forbidden")
  match anchor.recurrenceId with
  | none =>
    let (st, _) ← update env now tenantId userId role id dto st
    pure (st, ⟨1, []⟩)
  | some rid =>
    let tz := env.timezone tenantId
    let startShift := dto.startTime.map (wallShift tz anchor.startTime)
    let endShift := dto.endTime.map (wallShift tz anchor.endTime)
    let siblings := (st.bookings.rows.filter fun b =>
      b.tenantId == tenantId && b.recurrenceId == some rid).insertionSort fun b b' => b.startTime ≤ b'.startTime
    let out := siblings.foldl
      (seriesTurn env now tenantId userId role (seriesPatch tz dto startShift endShift)) ⟨st.bookings, 0, []⟩
    pure ({ st with bookings := out.bookings }, ⟨out.updated, out.skipped⟩)

/-! ### Cancelling -/

def cancel (tenantId userId : Uuid) (role : String) (id : Uuid) (reason : String) (st : Store) :
    Except HttpError (Store × Booking) := do
  let b ← found (findBooking st.bookings tenantId id) (.notFound "booking not found")
  require (b.userId == userId || isAdmin role) (.forbidden "Forbidden")
  if b.status == .cancelled then pure (st, b)
  else
    require (!(b.status == .noShow || b.status == .checkedIn || b.status == .attended))
      (.conflict ("cannot cancel a " ++ b.status.label ++ " booking"))
    let saved := { b with
      status := .cancelled
      exceptionNotes := if reason = "" then "cancelled" else reason }
    pure ({ st with bookings := st.bookings.save saved }, saved)

/-! ### Booking a series -/

/-- `RecurrenceService.createSeries` once the occurrences are expanded: each one is booked on its own, one that
cannot be booked is skipped, and a series without a booking is refused. -/
def createSeries (env : Env) (now : Instant) (fresh : ℕ → Fresh) (tenantId userId : Uuid) (dto : CreateBookingDto)
    (recurrenceId : Uuid) (occurrences : List (Instant × Instant)) (st : Store) :
    Except HttpError (Store × List Uuid) := do
  let resource ← found (env.resource tenantId dto.resourceId) (.notFound "resource not bookable")
  require resource.isActive (.notFound "resource not bookable")
  require (!occurrences.isEmpty) (.badRequest "recurrence produced no occurrences")
  let out := occurrences.zipIdx.foldl (fun (acc : Store × List Uuid) (occ : (Instant × Instant) × ℕ) =>
    match create env now (fresh occ.2) tenantId userId
      { dto with
        resourceId := resource.id
        startTime := occ.1.1
        endTime := occ.1.2
        recurrenceId := some recurrenceId
        isRecurring := true } acc.1 with
    | .ok (st', b) => (st', acc.2 ++ [b.id])
    | .error _ => acc) (st, [])
  require (!out.2.isEmpty) (.conflict ("none of the " ++ toString occurrences.length ++
    " occurrence(s) could be booked — each one conflicts with an existing booking or falls outside the room's " ++
    "operating hours"))
  pure out

end BookingSystem.Model.BookingsService
