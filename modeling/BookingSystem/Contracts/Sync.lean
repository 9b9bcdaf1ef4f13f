import BookingSystem.Model.Sync

/-!
# What `synced` means

A row of the sync outbox is marked as sent, and its booking as synced, when no error reaches `deliverOne`. But the
adapters catch the errors of their calls: only a secret that cannot be opened and a service account that cannot be read
get through. So the mark can be trusted exactly if no call fails, or one of these two errors comes up
(`synced_means_synced_iff`).
-/

namespace BookingSystem.Contracts

open Base Model Model.SyncOutboxService Effects

/-- The operation ended with an error. -/
def Failed (r : Except RemoteError Reply) : Prop := ∃ e, r = .error e

/-- **Synced means synced.** A row is sent, or its booking synced, only if every operation on a calendar succeeded, and
after a failed one the row can be retried or has failed. -/
structure Honest {σ τ : Type} (d : Delivered σ τ) : Prop where
  sent : d.row.status = .sent ∨ d.mark = some .synced → ∀ c ∈ d.calls, ¬ Failed c
  retryable : (∃ c ∈ d.calls, Failed c) → d.row.status = .pending ∨ d.row.status = .failed

section Delivery

variable {σ τ : Type} (graph : Remote σ GraphCall) (google : Remote τ GoogleCall) (s : SyncSettings) (p : Push)
  (db : SyncStore)

/-- Microsoft is switched on, and the operation on the mailbox that the event asks for fails. -/
def OutlookFails (w : σ) : Prop :=
  ∃ c, getDecrypted s.reveal (s.microsoft p.tenantId) = .ok (some c) ∧
    ((p.event.pushes = true ∧ ∃ b mailboxUPN event,
        OutlookSyncService.readBooking s db p.bookingId = some (b, mailboxUPN, event) ∧
        Failed (GraphService.upsertEvent graph s.tokenCached c mailboxUPN
          (OutlookSyncService.existingId (db.outlook.find? p.bookingId)) event w).2) ∨
      (p.event.withdraws = true ∧ ∃ rec, db.outlook.find? p.bookingId = some rec ∧
        Failed (GraphService.cancelEvent graph s.tokenCached c rec.mailboxUPN rec.graphId w).2))

def googlePush (b : Booking) : GoogleCall :=
  match db.google.find? p.bookingId with
  | some rec => .patch s.targetCalendarId rec.eventId (GoogleSyncService.eventFor b)
  | none => .insert s.targetCalendarId (GoogleSyncService.eventFor b)

/-- Google is switched on, and the event asks for a call to it. -/
def GoogleCalls (c : Credential) (call : GoogleCall) : Prop :=
  getDecrypted s.reveal (s.google p.tenantId) = .ok (some c) ∧ c.clientSecret ≠ "" ∧
    ((p.event.pushes = true ∧ ∃ b, db.bookings.find? p.bookingId = some b ∧ call = googlePush s p db b) ∨
      (p.event.withdraws = true ∧ ∃ rec, db.google.find? p.bookingId = some rec ∧
        call = .cancel rec.calendarId rec.eventId))

/-- The call to Google fails. -/
def GoogleFails (v : τ) : Prop :=
  ∃ c call, GoogleCalls s p db c call ∧ s.serviceAccount c.clientSecret = .ok () ∧ Failed (google call v).2

/-- A secret cannot be opened, or the service account for a call to Google cannot be read. -/
def Misconfigured : Prop :=
  (∃ e, getDecrypted s.reveal (s.microsoft p.tenantId) = .error e) ∨
    (∃ e, getDecrypted s.reveal (s.google p.tenantId) = .error e) ∨
    ∃ c call e, GoogleCalls s p db c call ∧ s.serviceAccount c.clientSecret = .error e

/-! ### The two adapters -/

section Adapters

variable {graph google s p db}

theorem upsert_calls (newId : Uuid) (c : Credential) (bookingId : Uuid) (w : σ) :
    (OutlookSyncService.upsert graph s newId c bookingId db w).calls =
      (OutlookSyncService.readBooking s db bookingId).toList.map fun r =>
        (GraphService.upsertEvent graph s.tokenCached c r.2.1
          (OutlookSyncService.existingId (db.outlook.find? bookingId)) r.2.2 w).2 := by
  unfold OutlookSyncService.upsert
  cases OutlookSyncService.readBooking s db bookingId with
  | none => rfl
  | some r =>
    obtain ⟨b, mailboxUPN, event⟩ := r
    dsimp only [Option.toList, List.map]
    split
    · rename_i hup
      rw [hup]
    · rename_i hup
      rw [hup]

theorem cancel_calls (c : Credential) (bookingId : Uuid) (w : σ) :
    (OutlookSyncService.cancel graph s c bookingId db w).calls =
      (db.outlook.find? bookingId).toList.map fun rec =>
        (GraphService.cancelEvent graph s.tokenCached c rec.mailboxUPN rec.graphId w).2 := by
  unfold OutlookSyncService.cancel
  cases db.outlook.find? bookingId <;> rfl

theorem outlook_error {newId : Uuid} {w : σ} {e : String} :
    (OutlookSyncService.handleBookingEvent graph s newId p.event p.tenantId p.bookingId db w).2 = .error e ↔
      getDecrypted s.reveal (s.microsoft p.tenantId) = .error e := by
  unfold OutlookSyncService.handleBookingEvent
  rcases getDecrypted s.reveal (s.microsoft p.tenantId) with e' | _ | c
  · simp
  · simp
  · dsimp only
    split
    · simp
    · split <;> simp

theorem outlook_failed {newId : Uuid} {w : σ} :
    (∃ r ∈ (OutlookSyncService.handleBookingEvent graph s newId p.event p.tenantId p.bookingId db w).1.calls,
      Failed r) ↔ OutlookFails graph s p db w := by
  unfold OutlookSyncService.handleBookingEvent OutlookFails
  rcases getDecrypted s.reveal (s.microsoft p.tenantId) with e' | _ | c
  · simp
  · simp
  · cases hpush : p.event.pushes with
    | true =>
      simp only [if_true, upsert_calls, not_withdraws_of_pushes hpush]
      simp
    | false =>
      cases hwith : p.event.withdraws with
      | true =>
        simp only [Bool.false_eq_true, if_false, if_true, cancel_calls]
        simp
      | false => simp

theorem outlook_db {newId : Uuid} {w : σ} :
    (OutlookSyncService.handleBookingEvent graph s newId p.event p.tenantId p.bookingId db w).1.db.bookings =
        db.bookings ∧
      (OutlookSyncService.handleBookingEvent graph s newId p.event p.tenantId p.bookingId db w).1.db.google =
        db.google := by
  unfold OutlookSyncService.handleBookingEvent
  split
  · exact ⟨rfl, rfl⟩
  · exact ⟨rfl, rfl⟩
  · split
    · unfold OutlookSyncService.upsert
      split
      · exact ⟨rfl, rfl⟩
      · dsimp only
        split <;> exact ⟨rfl, rfl⟩
    · split
      · unfold OutlookSyncService.cancel
        split <;> exact ⟨rfl, rfl⟩
      · exact ⟨rfl, rfl⟩

theorem push_run {saJSON : String} {v : τ} :
    let run := GoogleSyncService.push google s saJSON p.tenantId p.bookingId db v
    (∀ e, run.2 = .error e ↔ (∃ b, db.bookings.find? p.bookingId = some b) ∧ s.serviceAccount saJSON = .error e) ∧
      ((∃ r ∈ run.1.calls, Failed r) ↔ ∃ b, db.bookings.find? p.bookingId = some b ∧
        s.serviceAccount saJSON = .ok () ∧ Failed (google (googlePush s p db b) v).2) := by
  dsimp only
  unfold GoogleSyncService.push googlePush
  cases db.bookings.find? p.bookingId with
  | none => simp
  | some b =>
    cases s.serviceAccount saJSON with
    | error e => simp
    | ok u =>
      cases db.google.find? p.bookingId with
      | some rec => simp
      | none =>
        dsimp only
        rcases hcall : google (.insert s.targetCalendarId (GoogleSyncService.eventFor b)) v with ⟨v', e | r⟩
        · simp [hcall]
        · simp [hcall]

theorem googleCancel_run {saJSON : String} {v : τ} :
    let run := GoogleSyncService.cancel google s saJSON p.bookingId db v
    (∀ e, run.2 = .error e ↔ (∃ rec, db.google.find? p.bookingId = some rec) ∧ s.serviceAccount saJSON = .error e) ∧
      ((∃ r ∈ run.1.calls, Failed r) ↔ ∃ rec, db.google.find? p.bookingId = some rec ∧
        s.serviceAccount saJSON = .ok () ∧ Failed (google (.cancel rec.calendarId rec.eventId) v).2) := by
  dsimp only
  unfold GoogleSyncService.cancel
  cases db.google.find? p.bookingId with
  | none => simp
  | some rec =>
    cases s.serviceAccount saJSON with
    | error e => simp
    | ok u => simp

theorem google_outcome {v : τ} :
    ((∃ e, (GoogleSyncService.handleBookingEvent google s p.event p.tenantId p.bookingId db v).2 = .error e) ↔
      (∃ e, getDecrypted s.reveal (s.google p.tenantId) = .error e) ∨
        ∃ c call e, GoogleCalls s p db c call ∧ s.serviceAccount c.clientSecret = .error e) ∧
    ((∃ r ∈ (GoogleSyncService.handleBookingEvent google s p.event p.tenantId p.bookingId db v).1.calls, Failed r) ↔
      GoogleFails google s p db v) := by
  unfold GoogleSyncService.handleBookingEvent GoogleFails GoogleCalls
  rcases getDecrypted s.reveal (s.google p.tenantId) with e' | _ | c
  · simp
  · simp
  · dsimp only
    by_cases hsecret : c.clientSecret = ""
    · rw [if_pos hsecret]
      simp [hsecret]
    · rw [if_neg hsecret]
      cases hpush : p.event.pushes with
      | true =>
        simp only [if_true, push_run.1, push_run.2, not_withdraws_of_pushes hpush]
        simp [hsecret]
      | false =>
        cases hwith : p.event.withdraws with
        | true =>
          simp only [Bool.false_eq_true, if_false, if_true, googleCancel_run.1, googleCancel_run.2]
          simp [hsecret]
        | false => simp

end Adapters

/-! ### The mark -/

theorem bookingMark_synced {status : OutboxStatus} : bookingMark status = some .synced ↔ status = .sent := by
  cases status <;> simp [bookingMark]

variable {now : Instant} {newId : Uuid} {row : OutboxRow Push} {w : σ} {v : τ}

theorem deliverOne_sent :
    (deliverOne graph google s now newId row db w v).row.status = .sent ↔ ¬ Misconfigured s row.payload db := by
  unfold deliverOne Misconfigured
  dsimp only
  rw [settleRow_sent, errorsOf_eq_nil, eq_ok_iff, eq_ok_iff, ← not_or]
  refine not_congr (or_congr (exists_congr fun e => outlook_error) ?_)
  have hdb := @outlook_db σ graph s row.payload db newId w
  rw [google_outcome.1]
  refine or_congr_right ?_
  refine exists_congr fun c => exists_congr fun call => exists_congr fun e => and_congr_left fun _ => ?_
  unfold GoogleCalls googlePush
  rw [hdb.1, hdb.2]

theorem deliverOne_failed :
    (∃ c ∈ (deliverOne graph google s now newId row db w v).calls, Failed c) ↔
      OutlookFails graph s row.payload db w ∨ GoogleFails google s row.payload db v := by
  unfold deliverOne
  dsimp only
  have hdb := @outlook_db σ graph s row.payload db newId w
  simp only [List.mem_append, or_and_right, exists_or, outlook_failed, google_outcome.2]
  refine or_congr_right ?_
  unfold GoogleFails GoogleCalls googlePush
  rw [hdb.1, hdb.2]

/-- **Synced means synced.** The mark of a row can be trusted exactly if neither the operation that its event asks of
Microsoft nor the one it asks of Google fails, or a secret cannot be opened or the service account cannot be read. -/
theorem synced_means_synced_iff :
    Honest (deliverOne graph google s now newId row db w v) ↔
      (¬ OutlookFails graph s row.payload db w ∧ ¬ GoogleFails google s row.payload db v) ∨
        Misconfigured s row.payload db := by
  have hsent := @deliverOne_sent σ τ graph google s db now newId row w v
  have hfailed := @deliverOne_failed σ τ graph google s db now newId row w v
  have hmark : (deliverOne graph google s now newId row db w v).mark = some .synced ↔
      (deliverOne graph google s now newId row db w v).row.status = .sent := bookingMark_synced
  rw [← not_or, ← hfailed]
  constructor
  · rintro ⟨htrust, -⟩
    by_contra h
    rw [not_or, not_not] at h
    obtain ⟨⟨c, hc, hfail⟩, hconf⟩ := h
    exact htrust (.inl (hsent.2 hconf)) c hc hfail
  · rintro (hall | hconf)
    · exact ⟨fun _ c hc hfail => hall ⟨c, hc, hfail⟩, fun hfail => absurd hfail hall⟩
    · have hnot : (deliverOne graph google s now newId row db w v).row.status ≠ .sent := fun h => hsent.1 h hconf
      refine ⟨fun h => ?_, fun _ => settleRow_status fun herr => hnot (settleRow_sent.2 herr)⟩
      rw [hmark, or_self] at h
      exact absurd h hnot

end Delivery

/-! ### A calendar that is down -/

/-- A tenant with a mailbox for its room, and no Google account. -/
def mailboxOnly : SyncSettings where
  microsoft _ := some { azureTenantID := "azure", clientID := "app", clientSecret := "secret" }
  google _ := none
  reveal := .ok
  serviceAccount _ := .ok ()
  mailboxes := [{ resourceId := "r", mailboxUPN := "r@company.example" }]
  resources := .single { id := "r", tenantId := "t" }

def freshBooking : SyncStore :=
  { bookings := ⟨[{ id := "b", tenantId := "t", resourceId := "r", userId := "u", startTime := 0, endTime := 1,
                    status := .confirmed }], by decide⟩
    syncStatus := fun _ => .pending
    outlook := .empty
    google := .empty }

def createdRow : OutboxRow Push :=
  { id := "row", payload := ⟨"t", "b", .created⟩, nextAttemptAt := 0, updatedAt := 0 }

def graphDown : Remote Unit GraphCall := fun _ w => (w, .error ⟨some 503, "service unavailable"⟩)

def googleUp : Remote Unit GoogleCall := fun _ w => (w, .ok {})

theorem failed_of_graphDown :
    ∃ c ∈ (deliverOne graphDown googleUp mailboxOnly 0 "rec" createdRow freshBooking () ()).calls, Failed c := by
  refine ⟨.error ⟨some 503, "service unavailable"⟩, ?_, _, rfl⟩
  decide

/-- Microsoft is overloaded, and the row is sent and the booking synced. -/
theorem synced_while_down :
    ¬ ∀ (σ τ : Type) (graph : Remote σ GraphCall) (google : Remote τ GoogleCall) (s : SyncSettings) (now : Instant)
      (newId : Uuid) (row : OutboxRow Push) (db : SyncStore) (w : σ) (v : τ),
      Honest (deliverOne graph google s now newId row db w v) := by
  intro h
  obtain ⟨c, hc, hfail⟩ := failed_of_graphDown
  exact (h Unit Unit graphDown googleUp mailboxOnly 0 "rec" createdRow freshBooking () ()).sent (.inl rfl) c hc hfail

end BookingSystem.Contracts
