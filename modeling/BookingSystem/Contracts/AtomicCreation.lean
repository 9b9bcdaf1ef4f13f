import BookingSystem.Service.Creation

/-!
# Creation is all or nothing

The rows of one creation go through two connections: the booking and its services through the transaction of the
request, the steps of its chain through the pool. Whatever fails, either all of them are durable afterwards or none is
(`creation_all_or_nothing`): a step refers to a booking that the pool does not see yet, so no step is ever saved, and
the error rolls the booking back. In particular a booking that a rule with levels applies to is never created
(`nothing_of_chain`).
-/

namespace BookingSystem.Contracts.AtomicCreation

open Base Service
open Model (Uuid Instant BookingStatus)
open Model.RequestTx (TxFaults)

def withServices (lines : Table ServiceLine) (id : Uuid) (services : List ServiceRequest) : Table ServiceLine :=
  (services.map (ServiceRequest.line id)).foldl attach lines

/-- Each requested service has its line, as it was requested last, and no other line has changed. -/
structure Attached (id : Uuid) (services : List ServiceRequest) (before after : Table ServiceLine) : Prop where
  requested : ∀ p s q, services = p ++ s :: q → (∀ s' ∈ q, s'.serviceId ≠ s.serviceId) →
    after.find? (id, s.serviceId) =
      some { bookingId := id, serviceId := s.serviceId, quantity := s.quantity, notes := s.notes }
  others : ∀ k : Uuid × Uuid, (k.1 = id → ∀ s ∈ services, s.serviceId ≠ k.2) → after.find? k = before.find? k

/-- **All or nothing**: nothing has changed, or the booking, the lines of its services and all steps that were saved are
durable. -/
def AllOrNothing (id : Uuid) (services : List ServiceRequest) (saved : List Step) (before after : Rows) : Prop :=
  after = before ∨ ((∃ b : Booking, b.id = id ∧ after.bookings.rows = before.bookings.rows ++ [b]) ∧
    Attached id services before.lines after.lines ∧ ∀ st ∈ saved, st ∈ after.steps.rows)

/-- Steps refer to bookings that are there, as the foreign key has it. -/
def StepsRefer (r : Rows) : Prop := ∀ st ∈ r.steps.rows, (r.bookings.find? st.bookingId).isSome

/-! ### The lines of the services -/

theorem find?_attach (t : Table ServiceLine) (l : ServiceLine) (k : Uuid × Uuid) :
    (attach t l).find? k = if (l.bookingId, l.serviceId) = k then some l else t.find? k := by
  cases hinsert : t.insert? l with
  | some t' =>
    rw [attach, hinsert]
    exact Table.find?_insert? hinsert k
  | none =>
    obtain ⟨r, hr⟩ : ∃ r, t.find? (key l) = some r := by
      rw [← Option.ne_none_iff_exists']
      intro hnone
      obtain ⟨t', ht'⟩ := Table.insert?_of_find? hnone
      rw [hinsert] at ht'
      cases ht'
    rw [attach, hinsert, Option.getD_none]
    by_cases hk : key l = k
    · rw [Table.find?_save_of_key hk (hk ▸ hr), if_pos (show (l.bookingId, l.serviceId) = k from hk)]
    · rw [Table.find?_save_of_ne hk, if_neg (show ¬ (l.bookingId, l.serviceId) = k from hk)]

theorem withServices_cons (lines : Table ServiceLine) (id : Uuid) (s : ServiceRequest)
    (services : List ServiceRequest) :
    withServices lines id (s :: services) = withServices (attach lines (s.line id)) id services := rfl

theorem attached_withServices (lines : Table ServiceLine) (id : Uuid) (services : List ServiceRequest) :
    Attached id services lines (withServices lines id services) := by
  induction services generalizing lines with
  | nil => exact ⟨fun p s q h => by simp at h, fun _ _ => rfl⟩
  | cons x services ih =>
    obtain ⟨hrequested, hothers⟩ := ih (attach lines (x.line id))
    rw [withServices_cons]
    refine ⟨fun p s q hservices hlast => ?_, fun k hk => ?_⟩
    · cases p with
      | nil =>
        obtain ⟨rfl, rfl⟩ := List.cons.inj hservices
        rw [hothers _ fun _ => hlast, find?_attach]
        exact if_pos rfl
      | cons y p => exact hrequested p s q (List.cons.inj hservices).2 hlast
    · rw [hothers k fun hid s hs => hk hid s (List.mem_cons_of_mem _ hs), find?_attach, if_neg]
      rintro rfl
      exact hk rfl x List.mem_cons_self rfl

/-! ### What a session may look like -/

variable (rows : Rows) (id : Uuid)

/-- Nothing was written. -/
structure Untouched (s : Session) : Prop where
  durable : s.rows = rows
  own : s.own = rows.pinned
  saved : s.saved = []

/-- The booking is in the transaction, with these lines. -/
structure Booked (lines : Table ServiceLine) (s : Session) : Prop where
  durable : s.rows = rows
  booked : ∃ b : Booking, b.id = id ∧ s.own.bookings.rows = rows.bookings.rows ++ [b]
  lines : s.own.lines = lines
  saved : s.saved = []

/-- After an error nothing of the transaction will be kept. -/
def Spared (e : CallError) (s : Session) : Prop :=
  s.rows = rows ∧ (s.own = rows.pinned ∨ s.aborted = true ∨ ∃ message, e = .internal message)

variable {rows id} {c : CreateSetup} {broken : ℕ → Bool}

theorem Untouched.spared {s : Session} (h : Untouched rows s) (e : CallError) : Spared rows e s :=
  ⟨h.durable, .inl h.own⟩

theorem Untouched.of_eq {s s' : Session} (h : Untouched rows s) (hrows : s'.rows = s.rows) (hown : s'.own = s.own)
    (hsaved : s'.saved = s.saved) : Untouched rows s' := ⟨hrows.trans h.durable, hown.trans h.own, hsaved.trans h.saved⟩

/-! ### The checks only read -/

/-- A program that leaves the session untouched, with an error or without. -/
def Reads {α : Type} (rows : Rows) (m : Req α) : Prop :=
  Prog.Triple (Untouched rows) m (fun _ => Untouched rows) (fun _ => Untouched rows)

section reads

variable {α β : Type}

theorem reads_bind {m : Req α} {f : α → Req β} (hm : Reads rows m) (hf : ∀ a, Reads rows (f a)) :
    Reads rows (m >>= f) := Prog.triple_bind hm hf

theorem reads_pure (a : α) : Reads rows (pure a : Req α) := Prog.triple_pure fun _ hs => hs

theorem reads_lift (x : Except CallError α) : Reads rows (Prog.lift x) :=
  Prog.triple_lift (fun _ _ _ hs => hs) fun _ _ _ hs => hs

theorem reads_query (f : Pinned → α) : Reads rows (query broken f) :=
  triple_query (fun _ hs => hs.of_eq rfl rfl rfl) fun _ _ hs => hs.of_eq rfl rfl rfl

theorem reads_poolQuery (x : Except CallError α) : Reads rows (poolQuery broken x) :=
  triple_poolQuery (fun _ _ hs _ => hs.of_eq rfl rfl rfl) fun _ _ hs => hs.of_eq rfl rfl rfl

theorem reads_mapError {g : CallError → CallError} {m : Req α} (hm : Reads rows m) : Reads rows (Prog.mapError g m) :=
  Prog.triple_mapError hm

theorem reads_attempt {m : Req α} (hm : Reads rows m) : Reads rows (Prog.attempt m) := by
  have hattempt : Prog.Triple (Untouched rows) (Prog.attempt m)
      (fun x s => (∀ a, x = .ok a → Untouched rows s) ∧ ∀ e, x = .error e → Untouched rows s)
      fun _ => Untouched rows := Prog.triple_attempt hm
  refine hattempt.mono (fun _ hs => hs) (fun x s hs => ?_) fun _ _ hs => hs
  cases x with
  | ok a => exact hs.1 a rfl
  | error e => exact hs.2 e rfl

end reads

theorem reads_checkSlotOn (resource : Option Resource) (input : ValidationInput) :
    Reads rows (checkSlotOn c broken resource input) := by
  unfold checkSlotOn
  split
  · exact reads_bind (reads_mapError (reads_query _)) fun _ =>
      reads_bind (reads_mapError (reads_query _)) fun _ => reads_lift _
  · split
    · exact reads_bind (reads_mapError (reads_query _)) fun _ => reads_lift _
    · exact reads_pure _

theorem reads_privilegeOn (resource : Option Resource) (input : ValidationInput) :
    Reads rows (privilegeOn c broken resource input) :=
  reads_bind (reads_attempt (reads_query _)) fun _ =>
    reads_bind (reads_attempt (reads_poolQuery _)) fun _ => reads_pure _

theorem reads_validateOn (input : ValidationInput) : Reads rows (validateOn c broken input) :=
  reads_bind (reads_mapError (reads_poolQuery _)) fun _ =>
    reads_bind (reads_attempt (reads_poolQuery _)) fun _ =>
      reads_bind (reads_lift _) fun _ =>
        reads_bind (reads_checkSlotOn _ _) fun _ =>
          reads_bind (reads_privilegeOn _ _) fun _ => reads_bind (reads_lift _) fun _ => reads_pure _

/-! ### The rows that are written -/

/-- The `Save` of a booking whose id is new. -/
theorem triple_saveBooking {b : Booking} (hid : b.id = id) (hfresh : rows.bookings.find? id = none) :
    Prog.Triple (Untouched rows) (Prog.mapError persistError (saveBooking broken c.admits b))
      (fun _ => Booked rows id rows.lines) (Spared rows) := by
  refine Prog.triple_mapError (Prog.triple_bind
    (Q := fun current s => current = true ∧ Booked rows id rows.lines s) (triple_exec ?_ ?_) fun current => ?_)
  · intro s current own hs hf
    rw [hs.own, Rows.pinned] at hf
    simp only [hid, hfresh, Option.any_none, Bool.false_eq_true, if_false] at hf
    cases hsave : save c.admits rows.bookings b with
    | error e =>
      rw [hsave] at hf
      cases hf
    | ok t =>
      rw [hsave] at hf
      obtain ⟨rfl, rfl⟩ := Prod.mk.inj (Except.ok.inj hf)
      refine ⟨rfl, hs.durable, ?_, rfl, hs.saved⟩
      obtain ⟨-, ⟨r, hr, -⟩ | ⟨-, -, -, hinsert⟩⟩ := save_cases hsave
      · rw [hid, hfresh] at hr
        cases hr
      · exact ⟨b.inserted, hid, (Table.insert?_eq_some_iff.1 hinsert).2⟩
  · exact fun s e hs => ⟨hs.durable, .inr (.inl rfl)⟩
  · refine Prog.triple_lift (fun _ s _ hs => hs.2) fun e s hx hs => ?_
    rw [hs.1] at hx
    cases hx

theorem Booked.spared {lines : Table ServiceLine} {s s' : Session} (h : Booked rows id lines s)
    (hrows : s'.rows = s.rows) (what : String) (e : CallError) : Spared rows (wrapInternal what e) s' :=
  ⟨hrows.trans h.durable, .inr (.inr ⟨what, rfl⟩)⟩

theorem triple_services (services : List ServiceRequest) :
    Prog.Triple (Booked rows id rows.lines)
      (services.forM fun s => Prog.mapError (wrapInternal ("could not attach service " ++ s.serviceId))
        (addServiceToBooking broken c.admitsLine (s.line id)))
      (fun _ => Booked rows id (withServices rows.lines id services)) (Spared rows) := by
  have hloop := Prog.triple_forM (E := Spared rows)
    (I := fun rest s => ∃ lines, withServices lines id rest = withServices rows.lines id services ∧
      Booked rows id lines s)
    (f := fun s => Prog.mapError (wrapInternal ("could not attach service " ++ s.serviceId))
      (addServiceToBooking broken c.admitsLine (s.line id))) services fun x rest => by
    refine Prog.triple_mapError (triple_exec ?_ ?_)
    · rintro s ⟨⟩ own ⟨lines, hlines, hs⟩ hf
      simp only [bind_eq_ok, require_eq_ok, pure_eq_ok, Prod.mk.injEq, true_and] at hf
      obtain ⟨-, -, -, -, rfl⟩ := hf
      refine ⟨attach lines (x.line id), hlines, hs.durable, hs.booked, ?_, hs.saved⟩
      rw [← hs.lines]
    · rintro s e ⟨lines, -, hs⟩
      exact hs.spared (by rfl) _ e
  exact hloop.mono (fun s hs => ⟨rows.lines, rfl, hs⟩) (fun _ s hs => by
    obtain ⟨lines, hlines, hs⟩ := hs
    rw [← hlines]
    exact hs) fun _ _ hs => hs

theorem bookingId_of_mem_stepsFor {tenantId bookingId : Uuid} {rule : Rule} {now : Instant} {newId : ℕ → Uuid}
    {st : Step} (h : st ∈ stepsFor tenantId bookingId rule now newId) : st.bookingId = bookingId := by
  obtain ⟨p, -, rfl⟩ := List.mem_map.1 h
  rfl

/-- No rule with levels applies to the resource, if there is one. -/
def ChainFree (c : CreateSetup) (tenantId : Uuid) (resource : Option Resource) : Prop :=
  ∀ res rule, resource = some res → matchRule (c.rules tenantId) res = some rule → rule.levels = []

section chains

variable {b : Booking} {lines : Table ServiceLine} (hid : b.id = id) (hfresh : rows.bookings.find? id = none)
  (hrefer : StepsRefer rows)
include hid hfresh hrefer

theorem triple_saveStep_of_new {st : Step} (hst : st.bookingId = b.id) (what : String) :
    Prog.Triple (Booked rows id lines) (saveStep broken c.admitsStep st) (fun _ _ => False)
      fun e => Spared rows (wrapInternal what e) := by
  rw [hid] at hst
  refine triple_saveStep (fun s hs => ?_) (fun s hs r hr heq => ?_) fun s e hs => hs.spared rfl _ e
  · rw [hs.durable, hst, hfresh]
  · have hknown := hrefer r (hs.durable ▸ hr)
    rw [heq, hst, hfresh] at hknown
    cases hknown

/-- The chain of a booking that is not durable yet: without levels nothing happens, with levels the first step fails. -/
theorem triple_materialize (res : Resource) (stepId : ℕ → Uuid) :
    Prog.Triple (Booked rows id lines) (Prog.mapError (wrapInternal "could not process approval chain")
        (materialize c broken b res stepId))
      (fun levels s => levels = 0 ∧ ChainFree c b.tenantId (some res) ∧ Booked rows id lines s) (Spared rows) := by
  refine Prog.triple_mapError (Prog.triple_bind
    (Q := fun rules s => rules = c.rules b.tenantId ∧ Booked rows id lines s) (triple_poolQuery ?_ ?_) fun rules => ?_)
  · exact fun s rules hs hrules =>
      ⟨(Except.ok.inj hrules).symm, hs.durable, hs.booked, hs.lines, hs.saved⟩
  · exact fun s e hs => hs.spared rfl _ e
  · refine Prog.triple_of_pre (fun s hs => hs.1) fun hrules => ?_
    subst hrules
    refine Prog.Triple.mono (P := Booked rows id lines) ?_ (fun s hs => hs.2) (fun _ _ hs => hs) fun _ _ hs => hs
    cases hrule : matchRule (c.rules b.tenantId) res with
    | none =>
      refine Prog.triple_pure fun s hs => ⟨rfl, fun res' rule hres hmatch => ?_, hs⟩
      rw [← Option.some.inj hres, hrule] at hmatch
      cases hmatch
    | some rule =>
      cases hsteps : stepsFor b.tenantId b.id rule c.now stepId with
      | nil =>
        have hlevels : rule.levels = [] := by simpa [stepsFor] using hsteps
        simp only [hsteps, hlevels, List.length_nil]
        refine Prog.triple_bind (Prog.triple_pure fun _ hs => hs) fun _ =>
          Prog.triple_pure fun s hs => ⟨rfl, fun res' rule' hres hmatch => ?_, hs⟩
        rw [← Option.some.inj hres, hrule] at hmatch
        rw [← Option.some.inj hmatch, hlevels]
      | cons st rest =>
        have hst : st.bookingId = b.id := bookingId_of_mem_stepsFor (hsteps ▸ List.mem_cons_self)
        simp only [hsteps]
        refine Prog.triple_bind (Q := fun _ _ => False) ?_ fun _ => Prog.triple_false
        rw [List.forM_eq_forM, List.forM_cons]
        exact Prog.triple_bind (triple_saveStep_of_new hid hfresh hrefer hst _) fun _ => Prog.triple_false

theorem triple_processChain (resource : Option Resource) (stepId : ℕ → Uuid) :
    Prog.Triple (Booked rows id lines) (processChain c broken b resource stepId)
      (fun _ s => ChainFree c b.tenantId resource ∧ Booked rows id lines s) (Spared rows) := by
  cases resource with
  | none => exact Prog.triple_pure fun s hs => ⟨fun _ _ hres => (by cases hres), hs⟩
  | some res =>
    refine Prog.triple_bind (triple_materialize hid hfresh hrefer res stepId) fun levels => ?_
    split
    · rename_i hlevels
      refine Prog.triple_of_pre (fun s hs => hs.1) fun hzero => ?_
      exact absurd hlevels.1 (by rw [hzero]; exact lt_irrefl 0)
    · exact Prog.triple_pure fun s hs => hs.2

end chains

theorem triple_persist {b : Booking} (hid : b.id = id) (hfresh : rows.bookings.find? id = none)
    (hrefer : StepsRefer rows) (vres : ValidationResult) (services : List ServiceRequest) (stepId : ℕ → Uuid) :
    Prog.Triple (Untouched rows) (persist c broken b vres services stepId)
      (fun _ s => ChainFree c b.tenantId vres.resource ∧ Booked rows id (withServices rows.lines id services) s)
      (Spared rows) := by
  subst hid
  exact Prog.triple_bind (triple_saveBooking rfl hfresh) fun _ => Prog.triple_bind (triple_services services) fun _ =>
    Prog.triple_bind (triple_processChain rfl hfresh hrefer vres.resource stepId) fun _ =>
      Prog.triple_pure fun _ hs => hs

theorem Reads.spared {α : Type} {m : Req α} (h : Reads rows m) :
    Prog.Triple (Untouched rows) m (fun _ => Untouched rows) (Spared rows) :=
  h.mono (fun _ hs => hs) (fun _ _ hs => hs) fun e _ hs => hs.spared e

theorem triple_executeRequest {req : CreateRequest} (hfresh : rows.bookings.find? id = none) (hrefer : StepsRefer rows)
    (stepId : ℕ → Uuid) :
    Prog.Triple (Untouched rows) (executeRequest c broken req id stepId)
      (fun _ => Booked rows id (withServices rows.lines id req.services)) (Spared rows) :=
  Prog.triple_bind (reads_lift _).spared fun _ => Prog.triple_bind (reads_lift _).spared fun _ =>
    Prog.triple_bind (reads_validateOn _).spared fun vres =>
      (triple_persist rfl hfresh hrefer vres req.services stepId).mono (fun _ hs => hs) (fun _ _ hs => hs.2)
        fun _ _ hs => hs

/-! ### The request -/

theorem createBooking_cases {req : CreateRequest} {stepId : ℕ → Uuid} {Q : Session → Prop}
    (h : Prog.Triple (Untouched rows) (executeRequest c broken req id stepId) (fun _ => Q) (Spared rows))
    (hQ : ∀ s, Q s → s.rows = rows) (auditSpoils laterFails : Bool) :
    let s := ((executeRequest c broken req id stepId).on { rows := rows, own := rows.pinned }).2
    let r := createBooking c broken req id stepId auditSpoils laterFails { rows := rows, own := rows.pinned }
    s.rows = rows ∧ (r.1 = true → r.2.aborted = false → s.own = rows.pinned ∨ Q s) := by
  obtain ⟨hok, herror⟩ := h { rows := rows, own := rows.pinned } ⟨rfl, rfl, rfl⟩
  simp only [createBooking]
  generalize (executeRequest c broken req id stepId).on { rows := rows, own := rows.pinned } = r at hok herror ⊢
  obtain ⟨e | result, s⟩ := r
  · obtain ⟨hrows, hspared⟩ := herror e rfl
    refine ⟨hrows, fun hreturned haborted => ?_⟩
    obtain hown | hspoiled | ⟨message, rfl⟩ := hspared
    · exact .inl hown
    · simp [show s.aborted = true from hspoiled] at haborted
    · simp [CallError.httpStatus] at hreturned
  · have hwritten := hok result rfl
    exact ⟨hQ s hwritten, fun _ _ => .inr hwritten⟩

theorem createBooking_durable {req : CreateRequest} {stepId : ℕ → Uuid} {Q : Session → Prop}
    (h : Prog.Triple (Untouched rows) (executeRequest c broken req id stepId) (fun _ => Q) (Spared rows))
    (hQ : ∀ s, Q s → s.rows = rows) (faults : TxFaults) (auditSpoils laterFails : Bool) :
    let s := ((executeRequest c broken req id stepId).on { rows := rows, own := rows.pinned }).2
    let after := runInRequestTx faults (createBooking c broken req id stepId auditSpoils laterFails) rows
    after = rows ∨ Q s ∧ after = { rows with bookings := s.own.bookings, lines := s.own.lines } := by
  obtain ⟨hrows, hcommit⟩ := createBooking_cases h hQ auditSpoils laterFails
  intro s after
  obtain hafter | hafter | ⟨hreturned, haborted, hafter⟩ := runInRequestTx_cases faults
    (createBooking c broken req id stepId auditSpoils laterFails) rows
  · exact .inl hafter
  · exact .inl (hafter.trans hrows)
  · have hafter' : after = { rows with bookings := s.own.bookings, lines := s.own.lines } := by
      rw [show after = _ from hafter]
      simp only [createBooking, hrows]
      rfl
    obtain hown | hwritten := hcommit hreturned haborted
    · left
      rw [hafter', show s.own = rows.pinned from hown]
      rfl
    · exact .inr ⟨hwritten, hafter'⟩

/-- **Creation is all or nothing.** Whichever statements fail, whatever the validator finds, and whether the audit entry
or what comes after it fails the request or the commit fails: afterwards nothing has changed, or the booking, its
service lines and every step that was saved are durable. -/
theorem creation_all_or_nothing (faults : TxFaults) (c : CreateSetup) (broken : ℕ → Bool) (req : CreateRequest)
    (stepId : ℕ → Uuid) (auditSpoils laterFails : Bool) (hfresh : rows.bookings.find? id = none)
    (hrefer : StepsRefer rows) :
    AllOrNothing id req.services
      (createBooking c broken req id stepId auditSpoils laterFails { rows := rows, own := rows.pinned }).2.saved rows
      (runInRequestTx faults (createBooking c broken req id stepId auditSpoils laterFails) rows) := by
  have htriple : Prog.Triple (Untouched rows) (executeRequest c broken req id stepId)
      (fun _ => Booked rows id (withServices rows.lines id req.services)) (Spared rows) :=
    triple_executeRequest hfresh hrefer stepId
  obtain hsame | ⟨hbooked, hafter⟩ :=
    createBooking_durable htriple (fun _ hs => hs.durable) faults auditSpoils laterFails
  · exact .inl hsame
  · rw [hafter]
    refine .inr ⟨hbooked.booked, hbooked.lines ▸ attached_withServices _ _ _, fun st hst => ?_⟩
    have hnone : st ∈ ([] : List Step) := hbooked.saved ▸ hst
    cases hnone

/-! ### A booking with a service -/

/-- A database that admits every row, one room, and nothing that restricts its use. -/
def oneRoom : CreateSetup where
  admits := fun _ => true
  admitsLine := fun _ => true
  admitsStep := fun _ => true
  policy := {
    strings := { equalFold := fun a b => a == b, toUpper := fun s => s, trimSpace := fun s => s }
    user := fun _ => none
    groups := fun _ => none
    isDateHoliday := fun _ => .ok false }
  resources := ⟨[{ id := "r1", tenantId := "t1" }], by simp⟩
  rules := fun _ => []
  now := 0

def lunch : CreateRequest where
  tenantId := "t1"
  resourceId := "r1"
  userId := "u1"
  start := 3600000
  finish := 7200000
  services := [{ serviceId := "coffee", quantity := 2 }, { serviceId := "cake", quantity := 8, notes := "no nuts" }]

def noRows : Rows := { bookings := .empty, lines := .empty, steps := .empty }

def orderLunch (broken : ℕ → Bool) : Session → Bool × Session :=
  createBooking oneRoom broken lunch "b1" toString false false

/-- The booking and its two lines are durable when nothing fails, and nothing is when the second line cannot be
written. -/
theorem lunch_all_or_nothing :
    AllOrNothing "b1" lunch.services (orderLunch (fun _ => false) { rows := noRows, own := noRows.pinned }).2.saved
        noRows (runInRequestTx {} (orderLunch fun _ => false) noRows) ∧
      ((runInRequestTx {} (orderLunch fun _ => false) noRows).bookings.find? "b1").isSome ∧
      (runInRequestTx {} (orderLunch fun _ => false) noRows).lines.rows =
        [⟨"b1", "coffee", 2, ""⟩, ⟨"b1", "cake", 8, "no nuts"⟩] ∧
      (runInRequestTx {} (orderLunch fun n => n == 7) noRows).bookings.rows = [] ∧
      (runInRequestTx {} (orderLunch fun n => n == 7) noRows).lines.rows = [] :=
  ⟨creation_all_or_nothing {} oneRoom (fun _ => false) lunch toString false false rfl nofun, by decide +kernel,
    by decide +kernel, by decide +kernel, by decide +kernel⟩

/-! ### Bookings that need a chain -/

theorem triple_validateOn_resource (input : ValidationInput) :
    Prog.Triple (Untouched rows) (validateOn c (fun _ => false) input)
      (fun vres s => vres.resource = c.policy.resource c.resources input.resourceId ∧ Untouched rows s)
      (fun _ => Untouched rows) := by
  refine Prog.triple_bind (reads_mapError (reads_poolQuery _)) fun _ => ?_
  refine Prog.triple_bind (Q := fun looked s =>
    looked = .ok (c.policy.resource c.resources input.resourceId) ∧ Untouched rows s) ?_ fun looked => ?_
  · intro s hs
    refine ⟨fun looked h => ?_, nofun⟩
    obtain rfl := Except.ok.inj h
    exact ⟨rfl, hs.of_eq rfl rfl rfl⟩
  · refine Prog.triple_of_pre (fun s hs => hs.1) fun hlooked => ?_
    subst hlooked
    refine Prog.Triple.mono (P := Untouched rows) ?_ (fun s hs => hs.2) (fun _ _ hs => hs) fun _ _ hs => hs
    exact Prog.triple_bind (reads_lift _) fun _ => Prog.triple_bind (reads_checkSlotOn _ _) fun _ =>
      Prog.triple_bind (reads_privilegeOn _ _) fun _ => Prog.triple_bind (reads_lift _) fun _ =>
        Prog.triple_pure fun s hs => ⟨rfl, hs⟩

theorem executeRequest_of_levels {req : CreateRequest} (hfresh : rows.bookings.find? id = none)
    (hrefer : StepsRefer rows)
    (hchain : ¬ ChainFree c req.tenantId (c.policy.resource c.resources req.resourceId)) (stepId : ℕ → Uuid) :
    Prog.Triple (Untouched rows) (executeRequest c (fun _ => false) req id stepId) (fun _ _ => False)
      (Spared rows) := by
  refine Prog.triple_bind (reads_lift _).spared fun _ => Prog.triple_bind (reads_lift _).spared fun _ => ?_
  refine Prog.triple_bind ((triple_validateOn_resource req.input).mono (fun _ hs => hs) (fun _ _ hs => hs)
    fun e _ hs => hs.spared e) fun vres => ?_
  refine Prog.triple_of_pre (fun s hs => hs.1) fun hresource => ?_
  exact (triple_persist rfl hfresh hrefer vres req.services stepId).mono (fun _ hs => hs.2)
    (fun _ s hs => hchain (hresource ▸ hs.1)) fun _ _ hs => hs

/-- **Chains are never created.** When a rule with levels applies to its resource no booking is created in a request. -/
theorem nothing_of_chain (faults : TxFaults) {req : CreateRequest} (stepId : ℕ → Uuid) (auditSpoils laterFails : Bool)
    (hfresh : rows.bookings.find? id = none) (hrefer : StepsRefer rows)
    (hchain : ¬ ChainFree c req.tenantId (c.policy.resource c.resources req.resourceId)) :
    runInRequestTx faults (createBooking c (fun _ => false) req id stepId auditSpoils laterFails) rows = rows := by
  obtain hsame | ⟨hfalse, -⟩ := createBooking_durable (Q := fun _ => False)
    (executeRequest_of_levels hfresh hrefer hchain stepId) (fun _ hs => hs.elim) faults auditSpoils laterFails
  · exact hsame
  · exact hfalse.elim

end BookingSystem.Contracts.AtomicCreation
