import BookingSystem.Concurrency.Drains
import BookingSystem.Concurrency.SyncLinks

/-!
# Ghosts in the calendars

The workers of the sync outbox deliver the rows of one booking, and each delivery goes on statement by statement. An
event of the booking is withdrawn by the id that its delivery has stored, so a cancellation that is delivered next to
the creation finds no id, and the event stays in the calendar. With one delivery at a time nothing stays behind
(`no_ghost_in_order`).
-/

namespace BookingSystem.Concurrency.CalendarSync

open Function (update update_of_ne update_self)
open Base Model Model.SyncOutboxService Effects

/-! ### The workers -/

/-- The workers, where each delivery stands, and the calendars. -/
structure SyncRun (σ τ : Type) where
  drains : Drains BookingEvent
  phases : ℕ → Phase
  cal : Calendars σ τ

/-- What happens: a row is enqueued, a worker claims a batch, takes the next row of its batch, executes the next
statement of the delivery, or saves the row; and the booking is edited. -/
inductive SyncEvent
  | enqueue (id : Uuid) (event : BookingEvent) (now : Instant)
  | claim (w : ℕ) (now : Instant) (locked : List Uuid)
  | start (w : ℕ)
  | act (w : ℕ) (newId : Uuid)
  | finish (w : ℕ) (now : Instant)
  | edit (b : Booking)

section Machine

variable {σ τ : Type} (G : GraphProvider σ) (C : GoogleProvider τ) (s : SyncSettings) (T B : Uuid)

/-- The state after an event; the rows are those of the booking `B` of the tenant `T`. -/
def sync (st : SyncRun σ τ) (e : SyncEvent) : SyncRun σ τ :=
  match e with
  | .enqueue id event now => { st with drains := drain settleRow st.drains (.enqueue id event now) }
  | .claim w now locked => { st with drains := drain settleRow st.drains (.claim w now locked) }
  | .start w =>
    match (st.drains.workers w).delivering with
    | none =>
      { st with drains := drain settleRow st.drains (.start w), phases := update st.phases w .outlook }
    | some _ => st
  | .act w newId =>
    match (st.drains.workers w).delivering with
    | some r =>
      let x := next G.call C.call s newId ⟨T, B, r.payload⟩ (st.phases w) st.cal
      { st with phases := update st.phases w x.1, cal := x.2 }
    | none => st
  | .finish w now =>
    match (st.drains.workers w).delivering, st.phases w with
    | some r, .settled o g =>
      let errors := errorsOf o g
      { st with
        drains := drain settleRow st.drains (.finish w now errors)
        cal := { st.cal with db := marked ⟨T, B, r.payload⟩ (settleRow now errors r).status st.cal.db } }
    | _, _ => st
  | .edit b => { st with cal := { st.cal with db := { st.cal.db with bookings := st.cal.db.bookings.save b } } }

/-- A booking that no event was enqueued for and that is in no calendar. -/
structure Untouched (d : Calendars σ τ) : Prop where
  outlook : d.db.outlook.find? B = none
  google : d.db.google.find? B = none
  graphLive : G.live d.graph = ∅
  googleLive : C.live d.google = ∅

def quiet (d : Calendars σ τ) : SyncRun σ τ := ⟨atRest ⟨[], List.nodup_nil⟩, fun _ => .outlook, d⟩

/-- **No ghost.** Once every row is sent, a booking with a row that withdraws it is in no calendar. -/
def NoGhost (st : SyncRun σ τ) : Prop :=
  (∃ row ∈ st.drains.rows.rows, row.payload.withdraws = true) → (∀ row ∈ st.drains.rows.rows, row.status = .sent) →
    G.live st.cal.graph = ∅ ∧ C.live st.cal.google = ∅

/-- The booking is not pushed any more once its withdrawal is enqueued. -/
def WithdrawnLast (st : SyncRun σ τ) (e : SyncEvent) : Prop :=
  match e with
  | .enqueue _ event _ => event.pushes = true → ∀ row ∈ st.drains.rows.rows, row.payload.withdraws = false
  | _ => True

/-- The rows are delivered one at a time, none pushes the booking once a row that withdraws it is sent, and the record
that an upsert reads is that of the mailbox of the room. -/
def InOrder (st : SyncRun σ τ) (e : SyncEvent) : Prop :=
  match e with
  | .start w =>
    ∀ r queue, (st.drains.workers w).delivering = none → (st.drains.workers w).queue = r :: queue →
      (∀ w', (st.drains.workers w').delivering = none) ∧
      (r.payload.pushes = true → ∀ row ∈ st.drains.rows.rows, row.payload.withdraws = true → row.status ≠ .sent)
  | .act w _ =>
    ∀ r c b m event rec, (st.drains.workers w).delivering = some r → st.phases w = .outlookRecord c b m event →
      st.cal.db.outlook.find? B = some rec → rec.mailboxUPN = m
  | _ => True

end Machine

/-! ### One event -/

section Event

variable {σ τ : Type} {G : GraphProvider σ} {C : GoogleProvider τ} {s : SyncSettings} {T B : Uuid}

/-- A row that withdraws the booking is sent. -/
def Withdrawn (rows : Table (OutboxRow BookingEvent)) : Prop :=
  ∃ row ∈ rows.rows, row.payload.withdraws = true ∧ row.status = .sent

/-- One delivery at a time, each at its phase; and once the booking is withdrawn, it is in no calendar and is not pushed
any more. -/
structure Tidy (G : GraphProvider σ) (C : GoogleProvider τ) (s : SyncSettings) (T B : Uuid) (st : SyncRun σ τ) :
    Prop where
  alone : ∀ w w' r r', (st.drains.workers w).delivering = some r → (st.drains.workers w').delivering = some r' → w = w'
  idle : (∀ w, (st.drains.workers w).delivering = none) → OutlookLink G s T B st.cal ∧ GoogleLink C s T B st.cal
  busy : ∀ w r, (st.drains.workers w).delivering = some r →
    OutlookAt G s T B r.payload st.cal (st.phases w) ∧ GoogleAt C s T B r.payload st.cal (st.phases w)
  gone : Withdrawn st.drains.rows → G.live st.cal.graph = ∅ ∧ C.live st.cal.google = ∅
  unpushed : Withdrawn st.drains.rows → ∀ w r, (st.drains.workers w).delivering = some r → r.payload.pushes = false

theorem Tidy.noGhost {st : SyncRun σ τ} (h : Tidy G C s T B st) : NoGhost G C st := by
  rintro ⟨row, hrow, hw⟩ hsent
  exact h.gone ⟨row, hrow, hw, hsent row hrow⟩

theorem Tidy.drains {st : SyncRun σ τ} {x : Drains BookingEvent} (h : Tidy G C s T B st)
    (hworkers : ∀ w, (x.workers w).delivering = (st.drains.workers w).delivering)
    (hsent : Withdrawn x.rows → Withdrawn st.drains.rows) : Tidy G C s T B { st with drains := x } := by
  constructor
  · intro w w' r r'
    rw [hworkers, hworkers]
    exact h.alone w w' r r'
  · intro hidle
    exact h.idle fun w => (hworkers w).symm.trans (hidle w)
  · intro w r
    rw [hworkers]
    exact h.busy w r
  · exact fun hx => h.gone (hsent hx)
  · intro hx w r
    rw [hworkers]
    exact h.unpushed (hsent hx) w r

theorem withdrawn_enqueue {x : Drains BookingEvent} {id : Uuid} {event : BookingEvent} {now : Instant}
    (h : Withdrawn (drain settleRow x (.enqueue id event now)).rows) : Withdrawn x.rows := by
  obtain ⟨row, hrow, hw, hsent⟩ := h
  unfold drain at hrow
  dsimp only at hrow
  cases hins : x.rows.insert? { id := id, payload := event, nextAttemptAt := now, updatedAt := now } with
  | none =>
    rw [hins] at hrow
    exact ⟨row, hrow, hw, hsent⟩
  | some t =>
    rw [hins, Option.getD_some, (Table.insert?_eq_some_iff.1 hins).2, List.mem_append, List.mem_singleton] at hrow
    rcases hrow with hrow | rfl
    · exact ⟨row, hrow, hw, hsent⟩
    · cases hsent

theorem withdrawn_claim {x : Drains BookingEvent} {w : ℕ} {now : Instant} {locked : List Uuid}
    (h : Withdrawn (drain settleRow x (.claim w now locked)).rows) : Withdrawn x.rows := by
  unfold drain at h
  dsimp only at h
  split at h
  · obtain ⟨row, hrow, hw, hsent⟩ := h
    simp only [Outbox.claimDue, Table.rows_update, List.mem_map] at hrow
    obtain ⟨row', hrow', rfl⟩ := hrow
    split at hsent
    · cases hsent
    · rename_i hout
      rw [if_neg hout] at hw
      exact ⟨row', hrow', hw, hsent⟩
  · exact h

theorem delivering_claim {x : Drains BookingEvent} {w : ℕ} {now : Instant} {locked : List Uuid} (w' : ℕ) :
    ((drain settleRow x (.claim w now locked)).workers w').delivering = (x.workers w').delivering := by
  unfold drain
  dsimp only
  split
  · rename_i hidle
    by_cases hw : w' = w
    · subst hw
      rw [Worker.held, List.isEmpty_iff, List.append_eq_nil_iff, Option.toList_eq_nil_iff] at hidle
      dsimp only
      rw [update_self, hidle.1]
    · dsimp only
      rw [update_of_ne hw]
  · rfl

theorem Tidy.start {st : SyncRun σ τ} (h : Tidy G C s T B st) {w : ℕ} (hC : InOrder B st (.start w)) :
    Tidy G C s T B (sync G C s T B st (.start w)) := by
  unfold sync
  dsimp only
  cases hnone : (st.drains.workers w).delivering with
  | some r => exact h
  | none =>
    cases hqueue : (st.drains.workers w).queue with
    | nil =>
      simp only [drain, hnone, hqueue]
      refine ⟨h.alone, h.idle, fun w' r hr => ?_, h.gone, h.unpushed⟩
      have hne : w' ≠ w := by
        rintro rfl
        cases hnone.symm.trans hr
      simp only [update_of_ne hne]
      exact h.busy w' r hr
    | cons r queue =>
      obtain ⟨hall, hpush⟩ := hC r queue hnone hqueue
      simp only [drain, hnone, hqueue]
      have hdeliver : ∀ {w' r'}, (update st.drains.workers w
          { st.drains.workers w with delivering := some r, queue := queue } w').delivering = some r' →
          w' = w ∧ r' = r := by
        intro w' r' hr'
        by_cases hw : w' = w
        · subst hw
          rw [update_self] at hr'
          exact ⟨rfl, (Option.some.inj hr').symm⟩
        · rw [update_of_ne hw, hall w'] at hr'
          cases hr'
      refine ⟨fun w₁ w₂ r₁ r₂ h₁ h₂ => ?_, fun hidle => ?_, fun w' r' hr' => ?_, h.gone, fun hgone w' r' hr' => ?_⟩
      · exact (hdeliver h₁).1.trans (hdeliver h₂).1.symm
      · have := hidle w
        simp at this
      · obtain ⟨rfl, rfl⟩ := hdeliver hr'
        simp only [update_self]
        exact h.idle hall
      · obtain ⟨rfl, rfl⟩ := hdeliver hr'
        obtain ⟨row, hrow, hw, hsent⟩ := hgone
        rw [← Bool.not_eq_true]
        intro hp
        exact hpush hp row hrow hw hsent

theorem Tidy.act {st : SyncRun σ τ} (h : Tidy G C s T B st) {w : ℕ} {newId : Uuid}
    (hC : InOrder B st (.act w newId)) : Tidy G C s T B (sync G C s T B st (.act w newId)) := by
  unfold sync
  dsimp only
  cases hr : (st.drains.workers w).delivering with
  | none => exact h
  | some r =>
    obtain ⟨ho, hg⟩ := h.busy w r hr
    refine ⟨h.alone, fun hidle => ?_, fun w' r' hr' => ?_, fun hgone => ?_, h.unpushed⟩
    · cases hr.symm.trans (hidle w)
    · obtain rfl := h.alone w' w r' r hr' hr
      obtain rfl := Option.some.inj (hr.symm.trans hr')
      simp only [update_self]
      refine ⟨ho.step fun c b m event rec hph hrec => ?_, hg.step⟩
      exact hC r c b m event rec hr hph hrec
    · obtain ⟨hgraph, hgoogle⟩ := h.gone hgone
      have hp := h.unpushed hgone w r hr
      exact ⟨Set.subset_eq_empty (ho.live_next hp) hgraph, Set.subset_eq_empty (hg.live_next hp) hgoogle⟩

theorem marked_records (p : Push) (status : OutboxStatus) (db : SyncStore) :
    (marked p status db).outlook = db.outlook ∧ (marked p status db).google = db.google := by
  unfold marked
  split
  · unfold markBookingSync
    split <;> exact ⟨rfl, rfl⟩
  · exact ⟨rfl, rfl⟩

theorem Tidy.finish {st : SyncRun σ τ} (h : Tidy G C s T B st) (w : ℕ) (now : Instant) :
    Tidy G C s T B (sync G C s T B st (.finish w now)) := by
  unfold sync
  dsimp only
  split
  · rename_i r o g hr hph
    obtain ⟨ho, hg⟩ := h.busy w r hr
    rw [hph] at ho hg
    obtain ⟨houtlook, hgoogle⟩ := marked_records ⟨T, B, r.payload⟩ (settleRow now (errorsOf o g) r).status st.cal.db
    simp only [drain, hr]
    -- the delivery was the only one
    have hidle : ∀ w', (update st.drains.workers w
        { st.drains.workers w with delivering := none } w').delivering = none := by
      intro w'
      by_cases hw : w' = w
      · rw [hw, update_self]
      · rw [update_of_ne hw, Option.eq_none_iff_forall_ne_some]
        intro r' hr'
        exact hw (h.alone w' w r' r hr' hr)
    refine ⟨fun w₁ w₂ r₁ r₂ h₁ => ?_, fun _ => ?_, fun w' r' hr' => ?_, fun hgone => ?_, fun _ w' r' hr' => ?_⟩
    · cases (hidle w₁).symm.trans h₁
    · exact ⟨ho.1.congr houtlook rfl, hg.1.congr hgoogle rfl⟩
    · cases (hidle w').symm.trans hr'
    · obtain ⟨row, hrow, hw, hsent⟩ := hgone
      rcases Table.mem_save.1 hrow with ⟨rfl, -⟩ | ⟨hold, -⟩
      · obtain ⟨rfl, rfl⟩ := errorsOf_eq_nil.1 (settleRow_sent.1 hsent)
        have hw' : r.payload.withdraws = true := by
          rw [← payload_settleRow now (errorsOf (.ok ()) (.ok ())) r]
          exact hw
        exact ⟨ho.2 hw' rfl, hg.2 hw' rfl⟩
      · exact h.gone ⟨row, hold, hw, hsent⟩
    · cases (hidle w').symm.trans hr'
  · exact h

/-- **One event.** -/
theorem Tidy.sync {st : SyncRun σ τ} (h : Tidy G C s T B st) {e : SyncEvent} (hC : InOrder B st e) :
    Tidy G C s T B (sync G C s T B st e) := by
  cases e with
  | enqueue id event now => exact h.drains (fun _ => rfl) withdrawn_enqueue
  | claim w now locked => exact h.drains delivering_claim withdrawn_claim
  | start w => exact h.start hC
  | act w newId => exact h.act hC
  | finish w now => exact h.finish w now
  | edit b =>
    refine ⟨h.alone, fun hidle => ?_, fun w r hr => ?_, h.gone, h.unpushed⟩
    · exact ⟨(h.idle hidle).1.congr rfl rfl, (h.idle hidle).2.congr rfl rfl⟩
    · exact ⟨(h.busy w r hr).1.congr rfl rfl, (h.busy w r hr).2.congr rfl rfl⟩

theorem Untouched.tidy {d : Calendars σ τ} (h : Untouched G C B d) : Tidy G C s T B (quiet d) := by
  have hidle : ∀ w r, ¬ ((quiet d).drains.workers w).delivering = some r := fun w r hr => by cases hr
  have hempty : ¬ Withdrawn (quiet d).drains.rows := by
    rintro ⟨row, hrow, -⟩
    cases hrow
  constructor
  · intro w w' r r' hr
    exact absurd hr (hidle w r)
  · intro _
    refine ⟨⟨?_, fun _ => h.graphLive, fun _ => h.graphLive⟩, ⟨?_, fun _ => h.googleLive, fun _ => h.googleLive⟩⟩
    · intro rec hrec
      cases h.outlook.symm.trans hrec
    · intro rec hrec
      cases h.google.symm.trans hrec
  · intro w r hr
    exact absurd hr (hidle w r)
  · intro hgone
    exact absurd hgone hempty
  · intro hgone
    exact absurd hgone hempty

/-- **No ghost.** In every run of any number of workers that delivers the rows of a booking one at a time, none that
pushes it after one that withdraws it, and in which no upsert meets the record of another mailbox: once every row is
sent and one of them withdraws the booking, no calendar holds a live event of it. -/
theorem no_ghost_in_order {d : Calendars σ τ} (hd : Untouched G C B d) {es : List SyncEvent}
    (hC : AllSteps (Concurrency.CalendarSync.sync G C s T B) (InOrder B) (quiet d) es) :
    ∀ p q, es = p ++ q → NoGhost G C (run (Concurrency.CalendarSync.sync G C s T B) (quiet d) p) := by
  rintro p q rfl
  refine Tidy.noGhost (s := s) (T := T) (B := B) ?_
  exact run_invariant (fun st e h hC => h.sync hC) hd.tidy (allSteps_append.1 hC).1

def SyncEvent.worker : SyncEvent → Option ℕ
  | .enqueue .. | .edit _ => none
  | .claim w _ _ | .start w | .act w _ | .finish w _ => some w

theorem run_other {es : List SyncEvent} {w : ℕ} (h : ∀ e ∈ es, e.worker ≠ some w) (st : SyncRun σ τ) :
    (run (sync G C s T B) st es).drains.workers w = st.drains.workers w := by
  induction es generalizing st with
  | nil => rfl
  | cons e es ih =>
    rw [run_cons, ih fun e' he' => h e' (List.mem_cons_of_mem _ he')]
    have hw := h e List.mem_cons_self
    cases e with
    | enqueue id event now => rfl
    | claim w' now locked => exact drain_other hw
    | start w' =>
      simp only [CalendarSync.sync]
      split
      · exact drain_other hw
      · rfl
    | act w' newId =>
      simp only [CalendarSync.sync]
      split <;> rfl
    | finish w' now =>
      simp only [CalendarSync.sync]
      split
      · exact drain_other hw
      · rfl
    | edit b => rfl

end Event

/-! ### A cancellation next to the creation -/

/-- A provider in memory: the live events, and how many were made. -/
structure Shelf where
  events : List (String × String) := []
  made : ℕ := 0

def newEventId (n : ℕ) : String := String.ofList (List.replicate (n + 1) 'e')

theorem newEventId_ne (n : ℕ) : newEventId n ≠ "" := by
  intro h
  have := congrArg String.toList h
  simp [newEventId, List.replicate_succ] at this

def mailboxes : GraphProvider Shelf where
  call c w :=
    match c with
    | .token .. => (w, .ok {})
    | .post m _ => (⟨(m, newEventId w.made) :: w.events, w.made + 1⟩, .ok { id := newEventId w.made })
    | .patch m i _ => (w, if (m, i) ∈ w.events then .ok {} else .error ⟨some 404, "not found"⟩)
    | .delete m i => ({ w with events := w.events.filter fun x => x ≠ (m, i) }, .ok {})
  live w := {x | x ∈ w.events}
  token a i k w := ⟨⟨_, rfl⟩, rfl⟩
  post m e w := by
    refine ⟨_, rfl, newEventId_ne _, ?_⟩
    ext x
    simp
  patch_live m i e w h := ⟨⟨{}, if_pos h⟩, rfl⟩
  patch_gone m i e w h := ⟨⟨_, if_neg h, rfl⟩, rfl⟩
  delete m i w := by
    ext x
    simp

def googleCalendars : GoogleProvider Shelf where
  call c v :=
    match c with
    | .insert c body =>
      (⟨if body.cancelled then v.events else (c, newEventId v.made) :: v.events, v.made + 1⟩,
        .ok { id := newEventId v.made })
    | .patch c i body =>
      ({ v with events := if body.cancelled then v.events.filter fun x => x ≠ (c, i) else (c, i) :: v.events }, .ok {})
    | .cancel c i => ({ v with events := v.events.filter fun x => x ≠ (c, i) }, .ok {})
  live v := {x | x ∈ v.events}
  insert c body v := by
    refine ⟨_, rfl, newEventId_ne _, ?_⟩
    dsimp only
    split
    · rfl
    · ext x
      simp
  patch c i body v := by
    dsimp only
    intro x hx
    split at hx
    · exact .inr (List.mem_filter.1 hx).1
    · simpa using hx
  cancel c i v := by
    ext x
    simp

/-- A room with a mailbox, and no Google integration. -/
def outlookOnly : SyncSettings where
  microsoft _ := some {}
  google _ := none
  reveal := .ok
  serviceAccount _ := .ok ()
  mailboxes := [{ resourceId := "room", mailboxUPN := "room@company.example" }]
  resources := ⟨[], List.nodup_nil⟩

/-- A booking of the room, in no calendar yet. -/
def booked : Calendars Shelf Shelf where
  db :=
    { bookings := { rows := [⟨"b", "t", "room", "u", 0, 3600000, .confirmed, "", "", "", .exclusive, none, none, none,
        none, none, false, false, none, none, none, none, 0⟩], nodup := by simp }
      syncStatus := fun _ => .pending
      outlook := ⟨[], List.nodup_nil⟩
      google := ⟨[], List.nodup_nil⟩ }
  graph := {}
  google := {}

theorem untouched_booked : Untouched mailboxes googleCalendars "b" booked :=
  ⟨rfl, rfl, by simp [mailboxes, booked], by simp [googleCalendars, booked]⟩

def twoRows : List SyncEvent := [.enqueue "1" .created 0, .enqueue "2" .cancelled 0, .claim 0 0 []]

def delivery (w n : ℕ) : List SyncEvent :=
  SyncEvent.start w :: List.replicate n (SyncEvent.act w "o") ++ [SyncEvent.finish w 0]

def Phase.readsRecord : Phase → Bool
  | .outlookRecord .. => true
  | _ => false

theorem inOrder_start {p : List SyncEvent} (hp : ∀ e ∈ p, e.worker = none ∨ e.worker = some 0)
    (hrows : ∀ row ∈ (run (sync mailboxes googleCalendars outlookOnly "t" "b") (quiet booked) p).drains.rows.rows,
      row.payload.withdraws = true → row.status ≠ .sent) :
    InOrder "b" (run (sync mailboxes googleCalendars outlookOnly "t" "b") (quiet booked) p) (.start 0) := by
  intro r queue hnone _
  refine ⟨fun w => ?_, fun _ => hrows⟩
  by_cases hw : w = 0
  · rw [hw]
    exact hnone
  · rw [run_other]
    · rfl
    · intro e he hw'
      rcases hp e he with h | h
      · cases h.symm.trans hw'
      · exact hw (Option.some.inj (hw'.symm.trans h))

theorem inOrder_act {st : SyncRun Shelf Shelf}
    (h : ((st.phases 0).readsRecord && (st.cal.db.outlook.find? "b").isSome) = false) :
    InOrder "b" st (.act 0 "o") := by
  rintro r c b m event rec - hph hrec
  rw [hph, hrec] at h
  cases h

/-- One worker delivers the creation and then the cancellation. -/
theorem no_ghost_in_order_twice :
    mailboxes.live (run (sync mailboxes googleCalendars outlookOnly "t" "b") (quiet booked)
      (twoRows ++ delivery 0 7 ++ delivery 0 5)).cal.graph = ∅ := by
  refine (no_ghost_in_order (s := outlookOnly) (T := "t") untouched_booked ?_ _ [] (List.append_nil _).symm (by decide)
    (by decide)).1
  rw [allSteps_append, allSteps_append]
  refine ⟨⟨⟨trivial, trivial, trivial, trivial⟩, ?_⟩, ?_⟩
  · refine ⟨inOrder_start (p := twoRows) (by decide) (by decide), ?_⟩
    repeat' first
      | exact trivial
      | refine ⟨inOrder_act (by decide), ?_⟩
      | refine ⟨trivial, ?_⟩
  · refine ⟨inOrder_start (p := twoRows ++ delivery 0 7) (by decide) (by decide), ?_⟩
    repeat' first
      | exact trivial
      | refine ⟨inOrder_act (by decide), ?_⟩
      | refine ⟨trivial, ?_⟩

def sideBySide : List SyncEvent :=
  [SyncEvent.enqueue "1" .created 0, SyncEvent.enqueue "2" .cancelled 0, SyncEvent.claim 0 0 ["2"],
    SyncEvent.claim 1 0 [], SyncEvent.start 0] ++ List.replicate 5 (SyncEvent.act 0 "o") ++ delivery 1 2 ++
    List.replicate 2 (SyncEvent.act 0 "o") ++ [SyncEvent.finish 0 0]

/-- The event of the cancelled booking stays in the mailbox. -/
theorem ghost_left_behind :
    ¬ ∀ (σ τ : Type) (G : GraphProvider σ) (C : GoogleProvider τ) (s : SyncSettings) (T B : Uuid)
      (d : Calendars σ τ) (es : List SyncEvent), Untouched G C B d →
      AllSteps (sync G C s T B) WithdrawnLast (quiet d) es →
      ∀ p q, es = p ++ q → NoGhost G C (run (sync G C s T B) (quiet d) p) := by
  intro h
  have hlast : AllSteps (sync mailboxes googleCalendars outlookOnly "t" "b") WithdrawnLast (quiet booked)
      sideBySide := by
    show _ ∧ _ ∧ AllSteps _ _ _ _
    refine ⟨fun _ row hrow => ?_, nofun, ?_⟩
    · cases hrow
    · repeat' constructor
  have hghost := h Shelf Shelf mailboxes googleCalendars outlookOnly "t" "b" booked sideBySide untouched_booked hlast
  have hlive : ("room@company.example", newEventId 0) ∈ mailboxes.live
      (run (sync mailboxes googleCalendars outlookOnly "t" "b") (quiet booked) sideBySide).cal.graph := by
    show _ ∈ (run (sync mailboxes googleCalendars outlookOnly "t" "b") (quiet booked) sideBySide).cal.graph.events
    decide
  rw [(hghost _ [] (List.append_nil _).symm (by decide) (by decide)).1] at hlive
  exact hlive

end BookingSystem.Concurrency.CalendarSync
