import BookingSystem.Base.Run
import BookingSystem.Service.GraphEvents
import Mathlib.Algebra.Order.BigOperators.Group.List
import Mathlib.Algebra.Order.Group.Nat
import Mathlib.Algebra.GroupWithZero.Nat

/-!
# External events and their bookings

Every event that the notifications have shown to be live should have one booking with the window that was fetched last,
and every event that is gone none. The mirror never finds the booking it has made for an event, so this holds as long as
no notification reports anything new about an event that has a booking (`reconciled_iff`).
-/

namespace BookingSystem.Runs.MirroredEvents

open Base Service
open Model (Uuid Instant)

variable (g : GraphSetup)

/-- The service and the provider, and for each event the window with which the last notification that went through has
found it: `none` when it was gone, or was never seen. -/
structure Watched where
  state : GraphState
  seen : String → Option (Instant × Instant)

/-- What happens: the provider changes an event, or a notification is processed. -/
inductive Event
  | change (eventId : String) (event : Option EventDetails)
  | notify (n : Notification)

/-- What a notification shows about its event: that it is gone, or what it is now, for which room. -/
inductive Shown
  | gone
  | live (resourceId : Uuid) (ev : EventDetails)

/-- A notification that cannot be processed shows nothing, nor does one of an event that the service has written itself
or that has no times. -/
def observe (s : GraphState) (n : Notification) : Option Shown :=
  match n.credentials && n.token, (resourceForMailbox g).toOption with
  | true, some resourceId =>
    if g.runtime.equalFold n.changeType "deleted" then some .gone
    else if !n.answered then none
    else match s.provider n.eventId with
      | none => some .gone
      | some ev =>
        if ev.isCancelled then some .gone
        else if isOurEvent ev then none
        else if parseGraphDT g ev.start = zeroTime ∨ parseGraphDT g ev.finish = zeroTime then none
        else some (.live resourceId ev)
  | _, _ => none

def fetched (ev : EventDetails) : Instant × Instant := (parseGraphDT g ev.start, parseGraphDT g ev.finish)

def step (w : Watched) : Event → Watched
  | .change eventId event =>
    { w with state := { w.state with provider := Function.update w.state.provider eventId event } }
  | .notify n => {
      state := (handleNotification g w.state n).toOption.getD w.state
      seen := match observe g w.state n with
        | none => w.seen
        | some .gone => Function.update w.seen n.eventId none
        | some (.live _ ev) => Function.update w.seen n.eventId (some (fetched g ev)) }

def ties (eventId : String) (b : Booking) (rec : OutlookSyncRecord) : Bool :=
  decide (rec.bookingId = b.id) && decide (rec.graphId = eventId)

def mirrors (s : GraphState) (eventId : String) : List Booking :=
  s.bookings.rows.filter fun b => b.status != .cancelled && s.syncMap.rows.any (ties eventId b)

def window (b : Booking) : Instant × Instant := (b.startTime, b.endTime)

/-- **Each external event that is live has one booking, with the window fetched last, and each that is gone none.** -/
def Reconciled (external : String → Prop) (w : Watched) : Prop :=
  ∀ eventId, external eventId → (mirrors w.state eventId).map window = (w.seen eventId).toList

/-- Every record belongs to a booking. -/
def Linked (w : Watched) : Prop := ∀ rec ∈ w.state.syncMap.rows, w.state.bookings.find? rec.bookingId ≠ none

/-- The database takes a new booking: its range is not reversed, it is admitted, and no other one overlaps it. -/
def Free (s : GraphState) (b : Booking) : Prop :=
  b.startTime ≤ b.endTime ∧ g.admits b.inserted = true ∧ noOverlap s.bookings b.inserted = true

instance (s : GraphState) (b : Booking) : Decidable (Free g s b) := by unfold Free; infer_instance

/-- **Nothing new about an event that has a booking**: what is gone has no booking; what is live has none yet if its
window is free, and else has one with exactly this window. -/
def NothingNew (external : String → Prop) (w : Watched) : Event → Prop
  | .change _ _ => True
  | .notify n => external n.eventId →
      match observe g w.state n with
      | none => True
      | some .gone => mirrors w.state n.eventId = []
      | some (.live resourceId ev) =>
        (Free g w.state (externalBooking g w.state resourceId ev n.now) → mirrors w.state n.eventId = []) ∧
          (¬ Free g w.state (externalBooking g w.state resourceId ev n.now) →
            (mirrors w.state n.eventId).map window = [fetched g ev])

/-! ### What a notification does -/

variable {g} {s s' : GraphState} {n : Notification}

theorem handle_eq (g : GraphSetup) (s : GraphState) (n : Notification) :
    (handleNotification g s n).toOption.getD s = match observe g s n with
      | none | some .gone => s
      | some (.live resourceId ev) => (insertExternal g s resourceId n.eventId ev n.now).toOption.getD s := by
  have hcancel : cancelByGraphID g s n.eventId = .ok s := rfl
  unfold handleNotification observe
  cases n.credentials with
  | false => rfl
  | true =>
    cases n.token with
    | false => rfl
    | true =>
      cases resourceForMailbox g with
      | error e => rfl
      | ok resourceId =>
        simp only [require, if_true, Bool.and_self, Except.toOption, bind, Except.bind, hcancel]
        by_cases hdeleted : g.runtime.equalFold n.changeType "deleted" = true
        · simp only [hdeleted, if_true, Option.getD_some]
        · simp only [hdeleted]
          cases n.answered with
          | false => rfl
          | true =>
            cases s.provider n.eventId with
            | none => rfl
            | some ev =>
              by_cases hcancelled : ev.isCancelled = true
              · simp only [hcancelled, if_true]
                rfl
              · by_cases hours : isOurEvent ev = true
                · simp only [hcancelled, hours, if_true]
                  rfl
                · by_cases hzero : parseGraphDT g ev.start = zeroTime ∨ parseGraphDT g ev.finish = zeroTime
                  · simp only [hcancelled, hours, hzero, if_true]
                    rfl
                  · simp only [hcancelled, hours, hzero, if_false]
                    rfl

/-! ### What an insertion does -/

section insertion

variable {resourceId : Uuid} {ev : EventDetails} {now : Instant}

theorem insertExternal_of_free (eventId : String) (h : Free g s (externalBooking g s resourceId ev now)) :
    ∃ s', insertExternal g s resourceId eventId ev now = .ok s' ∧
      s'.bookings.rows = s.bookings.rows ++ [(externalBooking g s resourceId ev now).inserted] ∧
      s'.syncMap = saveRecord s.syncMap
        ⟨(externalBooking g s resourceId ev now).id, g.tenantId, g.mailboxUpn, eventId, ev.iCalUId⟩ := by
  have hfresh : s.bookings.find? (externalBooking g s resourceId ev now).id = none :=
    g.runtime.uuidNew_fresh s.bookings
  obtain ⟨t, ht⟩ := Table.insert?_of_find? (a := (externalBooking g s resourceId ev now).inserted) hfresh
  have hrows := (Table.insert?_eq_some_iff.1 ht).2
  have hsave : save g.admits s.bookings (externalBooking g s resourceId ev now) = .ok t :=
    (save_new hfresh).2 ⟨h.1, h.2.1, h.2.2, hrows⟩
  refine ⟨_, by simp only [insertExternal, hsave]; rfl, hrows, rfl⟩

theorem insertExternal_of_not_free (h : ¬ Free g s (externalBooking g s resourceId ev now)) :
    (insertExternal g s resourceId eventId ev now).toOption.getD s = s := by
  have hfresh : s.bookings.find? (externalBooking g s resourceId ev now).id = none :=
    g.runtime.uuidNew_fresh s.bookings
  cases hsave : save g.admits s.bookings (externalBooking g s resourceId ev now) with
  | error e =>
    simp only [insertExternal, hsave]
    rfl
  | ok t =>
    obtain ⟨hrange, hadmits, hover, -⟩ := (save_new hfresh).1 hsave
    exact absurd ⟨hrange, hadmits, hover⟩ h

end insertion

theorem rows_saveRecord {t : Table OutlookSyncRecord} {rec : OutlookSyncRecord}
    (h : ∀ r ∈ t.rows, r.bookingId ≠ rec.bookingId) : (saveRecord t rec).rows = t.rows ++ [rec] := by
  have hnone : t.find? rec.bookingId = none := Table.find?_eq_none_iff.2 h
  obtain ⟨t', ht'⟩ := Table.insert?_of_find? (a := rec) hnone
  rw [saveRecord, hnone, ht']
  exact (Table.insert?_eq_some_iff.1 ht').2

theorem linked_insert {b : Booking} {rec : OutlookSyncRecord} (hrec : rec.bookingId = b.id)
    (hfresh : s.bookings.find? b.id = none) (hlinked : ∀ r ∈ s.syncMap.rows, s.bookings.find? r.bookingId ≠ none)
    (hbookings : s'.bookings.rows = s.bookings.rows ++ [b]) (hsync : s'.syncMap = saveRecord s.syncMap rec) :
    ∀ r ∈ s'.syncMap.rows, s'.bookings.find? r.bookingId ≠ none := by
  have hinsert : s.bookings.insert? b = some s'.bookings := Table.insert?_eq_some_iff.2 ⟨hfresh, hbookings⟩
  rw [hsync, rows_saveRecord fun r hr he => hlinked r hr (by rw [he, hrec]; exact hfresh)]
  intro r hr
  rw [Table.find?_insert? hinsert]
  rcases List.mem_append.1 hr with hr | hr
  · split
    · simp
    · exact hlinked r hr
  · simp [List.mem_singleton.1 hr, hrec]

theorem mirrors_insert {b : Booking} {rec : OutlookSyncRecord} (hrec : rec.bookingId = b.id)
    (hfresh : s.bookings.find? b.id = none) (hlinked : ∀ r ∈ s.syncMap.rows, s.bookings.find? r.bookingId ≠ none)
    (hactive : b.status ≠ .cancelled) (hbookings : s'.bookings.rows = s.bookings.rows ++ [b])
    (hsync : s'.syncMap = saveRecord s.syncMap rec) (eventId : String) :
    mirrors s' eventId = mirrors s eventId ++ if rec.graphId = eventId then [b] else [] := by
  have hunknown : ∀ r ∈ s.syncMap.rows, r.bookingId ≠ b.id := fun r hr he => hlinked r hr (he ▸ hfresh)
  have hrows : s'.syncMap.rows = s.syncMap.rows ++ [rec] := by
    rw [hsync]
    exact rows_saveRecord fun r hr => hrec ▸ hunknown r hr
  have hold : ∀ x ∈ s.bookings.rows,
      s'.syncMap.rows.any (ties eventId x) = s.syncMap.rows.any (ties eventId x) := fun x hx => by
    have hne : rec.bookingId ≠ x.id := fun he =>
      Table.find?_eq_none_iff.1 hfresh x hx (by rw [key_booking, ← he, hrec])
    simp [hrows, ties, hne]
  have hnew : s'.syncMap.rows.any (ties eventId b) = decide (rec.graphId = eventId) := by
    have hnone : s.syncMap.rows.any (ties eventId b) = false := by
      rw [List.any_eq_false]
      intro r hr
      simp [ties, hunknown r hr]
    simp [hrows, hnone, ties, hrec]
  unfold mirrors
  rw [hbookings, List.filter_append]
  congr 1
  · exact List.filter_congr fun x hx => by rw [hold x hx]
  · by_cases he : rec.graphId = eventId
    · simp [hnew, he, hactive]
    · simp [hnew, he]

/-! ### Runs -/

variable {external : String → Prop} {w : Watched}

theorem notify_live {resourceId : Uuid} {ev : EventDetails} (hlinked : Linked w)
    (hshown : observe g w.state n = some (.live resourceId ev)) :
    Linked (step g w (.notify n)) ∧
      (step g w (.notify n)).seen = Function.update w.seen n.eventId (some (fetched g ev)) ∧
      ∀ eventId, (mirrors (step g w (.notify n)).state eventId).map window =
        (mirrors w.state eventId).map window ++ if n.eventId = eventId ∧
          Free g w.state (externalBooking g w.state resourceId ev n.now) then [fetched g ev] else [] := by
  have hstate : (step g w (.notify n)).state =
      (insertExternal g w.state resourceId n.eventId ev n.now).toOption.getD w.state := by
    show (handleNotification g w.state n).toOption.getD w.state = _
    rw [handle_eq, hshown]
  have hseen : (step g w (.notify n)).seen = Function.update w.seen n.eventId (some (fetched g ev)) := by
    simp only [step, hshown]
  by_cases hfree : Free g w.state (externalBooking g w.state resourceId ev n.now)
  · obtain ⟨s', hs', hrows, hsync⟩ := insertExternal_of_free n.eventId hfree
    rw [hs', Except.toOption, Option.getD_some] at hstate
    have hfresh : w.state.bookings.find? (externalBooking g w.state resourceId ev n.now).inserted.id = none :=
      g.runtime.uuidNew_fresh w.state.bookings
    refine ⟨?_, hseen, fun eventId => ?_⟩
    · rw [Linked, hstate]
      exact linked_insert rfl hfresh hlinked hrows hsync
    · rw [hstate, mirrors_insert rfl hfresh hlinked (by simp [externalBooking, Booking.inserted]) hrows hsync eventId,
        List.map_append]
      congr 1
      by_cases he : n.eventId = eventId
      · rw [if_pos he, if_pos ⟨he, hfree⟩]
        rfl
      · rw [if_neg he, if_neg fun h => he h.1]
        rfl
  · rw [insertExternal_of_not_free hfree] at hstate
    refine ⟨by rw [Linked, hstate]; exact hlinked, hseen, fun eventId => ?_⟩
    rw [hstate]
    simp [hfree]

theorem notify_state (h : ∀ resourceId ev, observe g w.state n ≠ some (.live resourceId ev)) :
    (step g w (.notify n)).state = w.state := by
  show (handleNotification g w.state n).toOption.getD w.state = _
  rw [handle_eq]
  cases hshown : observe g w.state n with
  | none => rfl
  | some shown =>
    cases shown with
    | gone => rfl
    | live resourceId ev => exact absurd hshown (h resourceId ev)

theorem linked_step (hlinked : Linked w) (e : Event) : Linked (step g w e) := by
  cases e with
  | change eventId event => exact hlinked
  | notify n =>
    by_cases h : ∃ resourceId ev, observe g w.state n = some (.live resourceId ev)
    · obtain ⟨resourceId, ev, hshown⟩ := h
      exact (notify_live hlinked hshown).1
    · rw [Linked, notify_state fun resourceId ev hshown => h ⟨resourceId, ev, hshown⟩]
      exact hlinked

theorem reconciled_update {w' : Watched} {eventId : String} {known : Option (Instant × Instant)}
    (hrec : Reconciled external w) (hseen : w'.seen = Function.update w.seen eventId known)
    (hother : ∀ e, e ≠ eventId → (mirrors w'.state e).map window = (mirrors w.state e).map window) :
    Reconciled external w' ↔ (external eventId → (mirrors w'.state eventId).map window = known.toList) := by
  constructor
  · intro h hext
    have := h eventId hext
    rwa [hseen, Function.update_self] at this
  · intro h e hext
    by_cases he : e = eventId
    · subst he
      rw [hseen, Function.update_self]
      exact h hext
    · rw [hseen, Function.update_of_ne he, hother e he]
      exact hrec e hext

theorem reconciled_step_iff (hlinked : Linked w) (hrec : Reconciled external w) (e : Event) :
    Reconciled external (step g w e) ↔ NothingNew g external w e := by
  cases e with
  | change eventId event => exact iff_of_true hrec trivial
  | notify n =>
    simp only [NothingNew]
    cases hshown : observe g w.state n with
    | none =>
      have hstate := notify_state (w := w) (n := n) fun resourceId ev h => by
        rw [hshown] at h
        cases h
      have hseen : (step g w (.notify n)).seen = w.seen := by simp only [step, hshown]
      refine iff_of_true ?_ fun _ => trivial
      rw [Reconciled, hstate, hseen]
      exact hrec
    | some shown =>
      cases shown with
      | gone =>
        have hstate : (step g w (.notify n)).state = w.state := notify_state fun resourceId ev h => by
          rw [hshown] at h
          cases h
        have hseen : (step g w (.notify n)).seen = Function.update w.seen n.eventId none := by simp only [step, hshown]
        rw [reconciled_update hrec hseen fun e _ => by rw [hstate], hstate]
        simp only [Option.toList_none, List.map_eq_nil_iff]
      | live resourceId ev =>
        obtain ⟨-, hseen, hmirrors⟩ := notify_live hlinked hshown
        rw [reconciled_update hrec hseen fun e he => by rw [hmirrors e, if_neg fun h => he h.1.symm, List.append_nil],
          hmirrors]
        refine imp_congr_right fun _ => ?_
        by_cases hfree : Free g w.state (externalBooking g w.state resourceId ev n.now)
        · simp [hfree]
        · simp [hfree]

/-- **Reconciled exactly as long as there is nothing new.** From any state in which the bookings are in line with what
has been seen, they are in line all along a run exactly if no notification of it reports that an event that has a
booking is gone or has another window, or a new event whose window is taken. -/
theorem reconciled_iff {es : List Event} (hlinked : Linked w) (hrec : Reconciled external w) :
    AllSteps (step g) (NothingNew g external) w es ↔ ∀ p q, es = p ++ q → Reconciled external (run (step g) w p) :=
  allSteps_iff_forall_prefix (I := fun w => Linked w ∧ Reconciled external w) (D := fun _ => True) (fun _ h => h.2)
    (fun _ e h _ hC => ⟨linked_step h.1 e, (reconciled_step_iff h.1 h.2 e).2 hC⟩)
    (fun _ e h _ hP => (reconciled_step_iff h.1 h.2 e).1 hP) ⟨hlinked, hrec⟩ fun _ _ => trivial

/-! ### A mailbox without events -/

def longerId (t : Table Booking) : Uuid :=
  String.ofList (List.replicate ((t.rows.map fun b => b.id.length).sum + 1) '0')

theorem longerId_fresh (t : Table Booking) : t.find? (longerId t) = none := by
  rw [Table.find?_eq_none_iff]
  intro b hb he
  have hle : b.id.length ≤ (t.rows.map fun b => b.id.length).sum :=
    List.single_le_sum (fun _ _ => Nat.zero_le _) _ (List.mem_map_of_mem hb)
  have hlength : b.id.length = (t.rows.map fun b => b.id.length).sum + 1 := by
    rw [← key_booking, he, longerId, String.length_ofList, List.length_replicate]
  omega

/-- The times of the two windows below. -/
def graphTimes : List (String × Instant) :=
  [("2026-03-02T09:00:00.0000000", 1772442000000), ("2026-03-02T10:00:00.0000000", 1772445600000),
    ("2026-03-02T11:00:00.0000000", 1772449200000)]

def mailbox : GraphSetup where
  runtime := {
    equalFold := fun a b => a == b
    timeParse := fun layout text =>
      if layout = "2006-01-02T15:04:05.0000000" then (graphTimes.find? fun p => p.1 == text).map Prod.snd
      else none
    uuidNew := longerId
    uuidNew_fresh := longerId_fresh }
  tenantId := "t1"
  mailboxUpn := "room@example.com"
  mailboxes := [{ resourceId := "r1", mailboxUpn := "room@example.com" }]
  admits := fun _ => true

def fresh : Watched := ⟨⟨.empty, .empty, fun _ => none⟩, fun _ => none⟩

def meeting : EventDetails := { start := "2026-03-02T09:00:00.0000000", finish := "2026-03-02T10:00:00.0000000" }
def moved : EventDetails := { start := "2026-03-02T10:00:00.0000000", finish := "2026-03-02T11:00:00.0000000" }

theorem reconciled_iff_fresh :
    AllSteps (step mailbox) (NothingNew mailbox fun _ => True) fresh
        [.change "e" (some meeting), .notify { changeType := "created", eventId := "e" }] ↔
      ∀ p q, [.change "e" (some meeting), .notify { changeType := "created", eventId := "e" }] = p ++ q →
        Reconciled (fun _ => True) (run (step mailbox) fresh p) :=
  reconciled_iff (fun _ h => absurd h List.not_mem_nil) fun _ _ => rfl

/-- The event is deleted, or moved to the next hour: its booking stays, in the second case beside a new one. -/
theorem reported_change_missed :
    ¬ Reconciled (fun _ => True) (run (step mailbox) fresh [.change "e" (some meeting),
        .notify { changeType := "created", eventId := "e" }, .change "e" none,
        .notify { changeType := "deleted", eventId := "e" }]) ∧
      ¬ Reconciled (fun _ => True) (run (step mailbox) fresh [.change "e" (some meeting),
        .notify { changeType := "created", eventId := "e" }, .change "e" (some moved),
        .notify { changeType := "updated", eventId := "e" }]) := by
  constructor
  · intro h
    have := h "e" trivial
    revert this
    decide +kernel
  · intro h
    have := h "e" trivial
    revert this
    decide +kernel

end BookingSystem.Runs.MirroredEvents
