import BookingSystem.Model.Sync
import Mathlib.Logic.Function.Iterate

/-!
# A delivery of the calendar sync, statement by statement

`deliverOne` pushes a row to one calendar after the other. Between its statements (reading the booking, reading the
record, the calls, writing the record back) other workers go on. A `Phase` is where a delivery stands, `next` is its
next statement, and taken without interruption the statements are `deliverOne` (`deliverOne_of_next`).
-/

namespace BookingSystem.Concurrency.CalendarSync

open Base Model Model.SyncOutboxService

/-- What the Outlook adapter is about to do at the mailbox. -/
inductive GraphJob
  | upsert (b : Booking) (mailboxUPN : String) (existing : Option OutlookSyncRecord) (event : GraphEvent)
  | cancel (rec : OutlookSyncRecord)

/-- Where a delivery stands; `o` and `g` are the errors that have left the two adapters. -/
inductive Phase
  | outlook
  | outlookRecord (c : Credential) (b : Booking) (mailboxUPN : String) (event : GraphEvent)
  | outlookToken (c : Credential) (job : GraphJob)
  | outlookCall (job : GraphJob)
  | outlookPost (b : Booking) (mailboxUPN : String) (existing : Option OutlookSyncRecord) (event : GraphEvent)
  | outlookBack (b : Booking) (mailboxUPN : String) (existing : Option OutlookSyncRecord) (reply : Reply)
  | outlookDrop (rec : OutlookSyncRecord)
  | google (o : Except String Unit)
  | googleRecord (o : Except String Unit) (b : Booking)
  | googleCall (o : Except String Unit) (b : Booking) (existing : Option GoogleSyncRecord)
  | googleBack (o : Except String Unit) (reply : Reply)
  | googleCancel (o : Except String Unit) (rec : GoogleSyncRecord)
  | settled (o g : Except String Unit)

/-- The tables and the two calendars. -/
structure Calendars (σ τ : Type) where
  db : SyncStore
  graph : σ
  google : τ

section Statements

variable {σ τ : Type} (graph : Remote σ GraphCall) (google : Remote τ GoogleCall) (s : SyncSettings) (newId : Uuid)
  (p : Push)

/-- The next statement of a delivery. -/
def next (ph : Phase) (d : Calendars σ τ) : Phase × Calendars σ τ :=
  match ph with
  | .outlook =>
    match getDecrypted s.reveal (s.microsoft p.tenantId) with
    | .error e => (.google (.error e), d)
    | .ok none => (.google (.ok ()), d)
    | .ok (some c) =>
      if p.event.pushes then
        match OutlookSyncService.readBooking s d.db p.bookingId with
        | none => (.google (.ok ()), d)
        | some (b, mailboxUPN, event) => (.outlookRecord c b mailboxUPN event, d)
      else if p.event.withdraws then
        match d.db.outlook.find? p.bookingId with
        | none => (.google (.ok ()), d)
        | some rec => (.outlookToken c (.cancel rec), d)
      else (.google (.ok ()), d)
  | .outlookRecord c b mailboxUPN event =>
    (.outlookToken c (.upsert b mailboxUPN (d.db.outlook.find? p.bookingId) event), d)
  | .outlookToken c job =>
    match GraphService.token graph s.tokenCached c d.graph with
    | (w, .ok _) => (.outlookCall job, { d with graph := w })
    | (w, .error _) =>
      match job with
      | .upsert .. => (.google (.ok ()), { d with graph := w })
      | .cancel rec => (.outlookDrop rec, { d with graph := w })
  | .outlookCall (.upsert b mailboxUPN existing event) =>
    match OutlookSyncService.existingId existing with
    | none => (.outlookPost b mailboxUPN existing event, d)
    | some graphId =>
      match graph (.patch mailboxUPN graphId event) d.graph with
      | (w, .ok _) => (.outlookBack b mailboxUPN existing { id := graphId }, { d with graph := w })
      | (w, .error e) =>
        if GraphService.gone e then (.outlookPost b mailboxUPN existing event, { d with graph := w })
        else (.google (.ok ()), { d with graph := w })
  | .outlookCall (.cancel rec) =>
    (.outlookDrop rec, { d with graph := (graph (.delete rec.mailboxUPN rec.graphId) d.graph).1 })
  | .outlookPost b mailboxUPN existing event =>
    match graph (.post mailboxUPN event) d.graph with
    | (w, .ok reply) => (.outlookBack b mailboxUPN existing reply, { d with graph := w })
    | (w, .error _) => (.google (.ok ()), { d with graph := w })
  | .outlookBack b mailboxUPN existing reply =>
    (.google (.ok ()), { d with
      db := { d.db with outlook := OutlookSyncService.writeBack newId b mailboxUPN existing reply d.db.outlook } })
  | .outlookDrop rec =>
    (.google (.ok ()), { d with db := { d.db with outlook := OutlookSyncService.drop rec.id d.db.outlook } })
  | .google o =>
    match getDecrypted s.reveal (s.google p.tenantId) with
    | .error e => (.settled o (.error e), d)
    | .ok none => (.settled o (.ok ()), d)
    | .ok (some c) =>
      if c.clientSecret = "" then (.settled o (.ok ()), d)
      else if p.event.pushes then
        match d.db.bookings.find? p.bookingId with
        | none => (.settled o (.ok ()), d)
        | some b =>
          match s.serviceAccount c.clientSecret with
          | .error e => (.settled o (.error e), d)
          | .ok _ => (.googleRecord o b, d)
      else if p.event.withdraws then
        match d.db.google.find? p.bookingId with
        | none => (.settled o (.ok ()), d)
        | some rec =>
          match s.serviceAccount c.clientSecret with
          | .error e => (.settled o (.error e), d)
          | .ok _ => (.googleCancel o rec, d)
      else (.settled o (.ok ()), d)
  | .googleRecord o b => (.googleCall o b (d.db.google.find? p.bookingId), d)
  | .googleCall o b (some rec) =>
    (.settled o (.ok ()),
      { d with google := (google (.patch s.targetCalendarId rec.eventId (GoogleSyncService.eventFor b)) d.google).1 })
  | .googleCall o b none =>
    match google (.insert s.targetCalendarId (GoogleSyncService.eventFor b)) d.google with
    | (v, .ok reply) => (.googleBack o reply, { d with google := v })
    | (v, .error _) => (.settled o (.ok ()), { d with google := v })
  | .googleBack o reply =>
    (.settled o (.ok ()), { d with
      db := { d.db with
        google := GoogleSyncService.writeBack p.tenantId p.bookingId s.targetCalendarId reply d.db.google } })
  | .googleCancel o rec =>
    (.settled o (.ok ()), { d with google := (google (.cancel rec.calendarId rec.eventId) d.google).1 })
  | .settled o g => (.settled o g, d)

def marked (status : OutboxStatus) (db : SyncStore) : SyncStore :=
  match bookingMark status with
  | some m => markBookingSync p.tenantId p.bookingId m db
  | none => db

/-! ### Without interruption -/

def statements (n : ℕ) (x : Phase × Calendars σ τ) : Phase × Calendars σ τ :=
  (fun x => next graph google s newId p x.1 x.2)^[n] x

/-- A phase that the statements lead to. -/
def LeadsTo (x y : Phase × Calendars σ τ) : Prop := ∃ n, statements graph google s newId p n x = y

variable {graph google s newId p}

theorem LeadsTo.refl (x : Phase × Calendars σ τ) : LeadsTo graph google s newId p x x := ⟨0, rfl⟩

theorem LeadsTo.trans {x y z : Phase × Calendars σ τ} (h : LeadsTo graph google s newId p x y)
    (h' : LeadsTo graph google s newId p y z) : LeadsTo graph google s newId p x z := by
  obtain ⟨n, rfl⟩ := h
  obtain ⟨m, rfl⟩ := h'
  exact ⟨m + n, Function.iterate_add_apply ..⟩

theorem LeadsTo.step {ph : Phase} {d : Calendars σ τ} {y : Phase × Calendars σ τ}
    (h : LeadsTo graph google s newId p (next graph google s newId p ph d) y) :
    LeadsTo graph google s newId p (ph, d) y := by
  obtain ⟨n, rfl⟩ := h
  exact ⟨n + 1, rfl⟩

theorem leadsTo_upsert (c : Credential) (b : Booking) (mailboxUPN : String) (event : GraphEvent) (d : Calendars σ τ)
    (hread : OutlookSyncService.readBooking s d.db p.bookingId = some (b, mailboxUPN, event)) :
    LeadsTo graph google s newId p (.outlookRecord c b mailboxUPN event, d)
      (.google (.ok ()), ⟨(OutlookSyncService.upsert graph s newId c p.bookingId d.db d.graph).db,
        (OutlookSyncService.upsert graph s newId c p.bookingId d.db d.graph).remote, d.google⟩) := by
  have hpost : ∀ w, LeadsTo graph google s newId p
      (.outlookPost b mailboxUPN (d.db.outlook.find? p.bookingId) event, { d with graph := w })
      (.google (.ok ()), match graph (.post mailboxUPN event) w with
        | (w', .ok reply) =>
          let existing := d.db.outlook.find? p.bookingId
          ⟨{ d.db with outlook := OutlookSyncService.writeBack newId b mailboxUPN existing reply d.db.outlook }, w',
            d.google⟩
        | (w', .error _) => { d with graph := w' }) := by
    intro w
    refine .step ?_
    rcases hcall : graph (.post mailboxUPN event) w with ⟨w', e | reply⟩
    · simp only [next, hcall]
      exact .refl _
    · simp only [next, hcall]
      exact .step (.refl _)
  refine .step (.step ?_)
  simp only [OutlookSyncService.upsert, hread, GraphService.upsertEvent, next]
  rcases GraphService.token graph s.tokenCached c d.graph with ⟨w, e | u⟩
  · exact .refl _
  · refine .step ?_
    simp only [next]
    cases hid : OutlookSyncService.existingId (d.db.outlook.find? p.bookingId) with
    | none =>
      dsimp only
      have := hpost w
      rcases hcall : graph (.post mailboxUPN event) w with ⟨w', e | reply⟩ <;> rw [hcall] at this <;> exact this
    | some graphId =>
      dsimp only
      rcases graph (.patch mailboxUPN graphId event) w with ⟨w', e | reply⟩
      · dsimp only
        split
        · have := hpost w'
          rcases hcall : graph (.post mailboxUPN event) w' with ⟨w'', e | reply⟩ <;> rw [hcall] at this <;> exact this
        · exact .refl _
      · exact .step (.refl _)

theorem leadsTo_cancel (c : Credential) (rec : OutlookSyncRecord) (d : Calendars σ τ)
    (hrec : d.db.outlook.find? p.bookingId = some rec) :
    LeadsTo graph google s newId p (.outlookToken c (.cancel rec), d)
      (.google (.ok ()), ⟨(OutlookSyncService.cancel graph s c p.bookingId d.db d.graph).db,
        (OutlookSyncService.cancel graph s c p.bookingId d.db d.graph).remote, d.google⟩) := by
  refine .step ?_
  simp only [OutlookSyncService.cancel, hrec, GraphService.cancelEvent, next]
  rcases GraphService.token graph s.tokenCached c d.graph with ⟨w, e | u⟩
  · exact .step (.refl _)
  · refine .step ?_
    simp only [next]
    rcases hcall : graph (.delete rec.mailboxUPN rec.graphId) w with ⟨w', e | reply⟩
    · dsimp only
      split <;> exact .step (.refl _)
    · exact .step (.refl _)

theorem leadsTo_google (d : Calendars σ τ) :
    let o := OutlookSyncService.handleBookingEvent graph s newId p.event p.tenantId p.bookingId d.db d.graph
    LeadsTo graph google s newId p (.outlook, d) (.google o.2, ⟨o.1.db, o.1.remote, d.google⟩) := by
  refine .step ?_
  simp only [OutlookSyncService.handleBookingEvent, next]
  rcases getDecrypted s.reveal (s.microsoft p.tenantId) with e | _ | c
  · exact .refl _
  · exact .refl _
  · dsimp only
    split
    · cases hread : OutlookSyncService.readBooking s d.db p.bookingId with
      | none =>
        simp only [OutlookSyncService.upsert, hread]
        exact .refl _
      | some r => exact leadsTo_upsert c r.1 r.2.1 r.2.2 d hread
    · split
      · cases hrec : d.db.outlook.find? p.bookingId with
        | none =>
          simp only [OutlookSyncService.cancel, hrec]
          exact .refl _
        | some rec => exact leadsTo_cancel c rec d hrec
      · exact .refl _

theorem leadsTo_settled (o : Except String Unit) (d : Calendars σ τ) :
    let g := GoogleSyncService.handleBookingEvent google s p.event p.tenantId p.bookingId d.db d.google
    LeadsTo graph google s newId p (.google o, d) (.settled o g.2, ⟨g.1.db, d.graph, g.1.remote⟩) := by
  refine .step ?_
  simp only [GoogleSyncService.handleBookingEvent, next]
  rcases getDecrypted s.reveal (s.google p.tenantId) with e | _ | c
  · exact .refl _
  · exact .refl _
  · dsimp only
    split
    · exact .refl _
    · split
      · simp only [GoogleSyncService.push]
        cases d.db.bookings.find? p.bookingId with
        | none => exact .refl _
        | some b =>
          dsimp only
          cases s.serviceAccount c.clientSecret with
          | error e => exact .refl _
          | ok u =>
            refine .step (.step ?_)
            simp only [next]
            cases d.db.google.find? p.bookingId with
            | some rec => exact .refl _
            | none =>
              dsimp only
              rcases google (.insert s.targetCalendarId (GoogleSyncService.eventFor b)) d.google with ⟨v, e | reply⟩
              · exact .refl _
              · exact .step (.refl _)
      · split
        · simp only [GoogleSyncService.cancel]
          cases d.db.google.find? p.bookingId with
          | none => exact .refl _
          | some rec =>
            dsimp only
            cases s.serviceAccount c.clientSecret with
            | error e => exact .refl _
            | ok u => exact .step (.refl _)
        · exact .refl _

/-- **Without interruption.** The statements of a delivery do what `deliverOne` does. -/
theorem deliverOne_of_next (now : Instant) (row : OutboxRow Push) (d : Calendars σ τ) :
    ∃ o g d', LeadsTo graph google s newId row.payload (.outlook, d) (.settled o g, d') ∧
      let settled := settleRow now (errorsOf o g) row
      let result := deliverOne graph google s now newId row d.db d.graph d.google
      result.row = settled ∧ result.db = marked row.payload settled.status d'.db ∧ result.graph = d'.graph ∧
        result.google = d'.google :=
  ⟨_, _, _, (leadsTo_google d).trans (leadsTo_settled _ _), rfl, rfl, rfl, rfl⟩

end Statements

end BookingSystem.Concurrency.CalendarSync
