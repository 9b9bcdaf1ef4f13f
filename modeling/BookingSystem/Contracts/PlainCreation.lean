import BookingSystem.Contracts.AtomicCreation

/-!
# Creations in which no statement fails

What `ExecuteRequest` does when the connections work. The validator changes nothing and decides as its rules do on the
rows that the transaction sees; a chain is processed exactly if it has no levels. So a creation goes through exactly if
the request is accepted and the database takes the row, and then this row is all that is new (`executeRequest_run`).
-/

namespace BookingSystem.Contracts.PlainCreation

open Base Service Contracts.AtomicCreation
open Model (Uuid Instant BookingStatus)

/-! ### Programs that only count -/

/-- The program ends so, and changes nothing but the number of statements. -/
def Yields {α : Type} (m : Req α) (s : Session) (x : Except CallError α) : Prop :=
  ∃ n, m.on s = (x, { s with ran := n })

section yields

variable {α β : Type} {s : Session}

theorem yields_lift (x : Except CallError α) : Yields (Prog.lift x) s x := ⟨s.ran, rfl⟩

theorem yields_pure (a : α) : Yields (pure a : Req α) s (.ok a) := ⟨s.ran, rfl⟩

theorem yields_query (h : s.aborted = false) (f : Pinned → α) :
    Yields (query (fun _ => false) f) s (.ok (f s.own)) :=
  ⟨s.ran + 1, by simp [query, exec, h]⟩

theorem yields_poolQuery (x : Except CallError α) : Yields (poolQuery (fun _ => false) x) s x := ⟨s.ran + 1, rfl⟩

theorem yields_attempt {m : Req α} {x : Except CallError α} (h : Yields m s x) :
    Yields (Prog.attempt m) s (.ok x) := by
  obtain ⟨n, h⟩ := h
  exact ⟨n, by simp [Prog.attempt, h]⟩

theorem yields_mapError {m : Req α} {x : Except CallError α} {g : CallError → CallError} (h : Yields m s x)
    (hg : x.mapError g = x) : Yields (Prog.mapError g m) s x := by
  obtain ⟨n, h⟩ := h
  exact ⟨n, by simp [Prog.mapError, h, hg]⟩

theorem yields_bind {m : Req α} {f : α → Req β} {x : Except CallError α} {g : α → Except CallError β}
    (hm : Yields m s x) (hf : ∀ a n, x = .ok a → Yields (f a) { s with ran := n } (g a)) :
    Yields (m >>= f) s (x >>= g) := by
  obtain ⟨n, hm⟩ := hm
  cases x with
  | error e => exact ⟨n, by rw [Prog.on_bind, hm]; rfl⟩
  | ok a =>
    obtain ⟨n', hf⟩ := hf a n rfl
    exact ⟨n', by rw [Prog.on_bind, hm]; exact hf⟩

theorem yields_ok_bind {m : Req α} {f : α → Req β} {a : α} {y : Except CallError β} (hm : Yields m s (.ok a))
    (hf : ∀ n, Yields (f a) { s with ran := n } y) : Yields (m >>= f) s y := by
  obtain ⟨n, hm⟩ := hm
  obtain ⟨n', hf⟩ := hf n
  exact ⟨n', by rw [Prog.on_bind, hm]; exact hf⟩

/-- The program ends with an error. -/
def Fails (m : Req α) (s : Session) : Prop := ∃ e s', m.on s = (.error e, s')

theorem fails_bind {m : Req α} (h : Fails m s) (f : α → Req β) : Fails (m >>= f) s := by
  obtain ⟨e, s', h⟩ := h
  exact ⟨e, s', by rw [Prog.on_bind, h]⟩

theorem fails_bind_of {m : Req α} {f : α → Req β} {a : α} {s' : Session} (hm : m.on s = (.ok a, s'))
    (hf : Fails (f a) s') : Fails (m >>= f) s := by
  obtain ⟨e, s'', hf⟩ := hf
  exact ⟨e, s'', by rw [Prog.on_bind, hm]; exact hf⟩

theorem fails_mapError {m : Req α} (h : Fails m s) (g : CallError → CallError) : Fails (Prog.mapError g m) s := by
  obtain ⟨e, s', h⟩ := h
  exact ⟨g e, s', by simp only [Prog.mapError, Prog.on_of, h]; rfl⟩

theorem on_bind_of {m : Req α} {f : α → Req β} {a : α} {s' : Session} (hm : m.on s = (.ok a, s')) :
    (m >>= f).on s = (f a).on s' := by
  rw [Prog.on_bind, hm]

end yields

variable {c : CreateSetup} {s : Session}

theorem yields_checkSlotOn (h : s.aborted = false) (resource : Option Resource) (input : ValidationInput) :
    Yields (checkSlotOn c (fun _ => false) resource input) s
      (checkSlot c.resources s.own.bookings resource input) := by
  unfold checkSlotOn
  split
  · exact yields_ok_bind (yields_mapError (yields_query h _) rfl) fun _ =>
      yields_ok_bind (yields_mapError (yields_query (by exact h) _) rfl) fun _ => yields_lift _
  · rename_i hshared
    split
    · exact yields_ok_bind (yields_mapError (yields_query h _) rfl) fun _ => yields_lift _
    · rename_i hexclude
      have hfilter : resource.filter Resource.isShared = none := by
        cases resource with
        | none => rfl
        | some r => simpa [Option.filter] using hshared
      have hpass : checkSlot c.resources s.own.bookings resource input = .ok () := by
        simp [checkSlot, hfilter, require, hexclude]
      rw [hpass]
      exact yields_pure ()

theorem yields_privilegeOn (h : s.aborted = false) (resource : Option Resource) (input : ValidationInput) :
    Yields (privilegeOn c (fun _ => false) resource input) s (.ok (privilegeFor c.policy resource input)) :=
  yields_ok_bind (yields_attempt (yields_query h _)) fun _ =>
    yields_ok_bind (yields_attempt (yields_poolQuery (.ok ()))) fun _ => yields_pure _

/-- Without failures the statements of the validator decide as the rules do. -/
theorem yields_validateOn (h : s.aborted = false) (input : ValidationInput) :
    Yields (validateOn c (fun _ => false) input) s (validate c.policy c.resources s.own.bookings input) := by
  have hholiday : (checkHoliday c.policy input.start).mapError (asInternal "system error verifying calendar dates") =
      checkHoliday c.policy input.start := by
    unfold checkHoliday
    cases c.policy.isDateHoliday input.start with
    | error e => rfl
    | ok isHoliday => cases isHoliday <;> rfl
  refine yields_bind (yields_mapError (yields_poolQuery _) hholiday) fun _ _ _ => ?_
  refine yields_ok_bind (yields_attempt (yields_poolQuery _)) fun _ => ?_
  refine yields_bind (yields_lift _) fun _ _ _ => ?_
  refine yields_bind (yields_checkSlotOn (by exact h) _ _) fun _ _ _ => ?_
  refine yields_ok_bind (yields_privilegeOn (by exact h) _ _) fun _ => ?_
  exact yields_bind (yields_lift _) fun _ _ _ => yields_pure _

/-! ### Writing without failures -/

def booked (s : Session) (t : Table Booking) (n : ℕ) : Session :=
  { s with own := { s.own with bookings := t }, ran := n }

section writes

variable {broken : ℕ → Bool} {b : Booking} (h : s.aborted = false) (hran : broken s.ran = false)
  (hnew : s.own.bookings.find? b.id = none)
include h hran hnew

theorem saveBooking_ok {t : Table Booking} (hsave : save c.admits s.own.bookings b = .ok t) :
    (saveBooking broken c.admits b).on s = (.ok (), booked s t (s.ran + 1)) := by
  have hexec : (exec broken fun own : Pinned =>
      if (own.bookings.find? b.id).any fun r => r.version != b.version then .ok (false, own)
      else (save c.admits own.bookings b).map fun t => (true, { own with bookings := t })).on s =
        (.ok true, booked s t (s.ran + 1)) := by
    simp only [exec, Prog.on_of, h, hran, hnew, Option.any_none, Bool.or_self, Bool.false_eq_true, if_false, hsave]
    simp only [Except.map, booked, h]
  rw [saveBooking, on_bind_of hexec]
  rfl

/-- A `Save` that the database refuses spoils the transaction. -/
theorem saveBooking_error {e : CallError} (hsave : save c.admits s.own.bookings b = .error e) :
    (saveBooking broken c.admits b).on s = (.error e, { s with aborted := true, ran := s.ran + 1 }) := by
  rw [saveBooking, Prog.on_bind]
  simp only [exec, Prog.on_of, h, hran, hnew, Option.any_none, Bool.or_self, Bool.false_eq_true, if_false, hsave]
  rfl

end writes

/-- A step of a booking that is not durable is not saved. -/
theorem fails_saveStep {st : Step} (hunknown : s.rows.bookings.find? st.bookingId = none) (hrefer : StepsRefer s.rows) :
    Fails (saveStep (fun _ => false) c.admitsStep st) s := by
  have htriple : Prog.Triple (fun x => x = s) (saveStep (fun _ => false) c.admitsStep st) (fun _ _ => False)
      fun _ _ => True := by
    refine triple_saveStep ?_ ?_ fun _ _ _ => trivial
    · rintro x rfl
      exact hunknown
    · rintro x rfl r hr heq
      have hknown := hrefer r hr
      rw [heq, hunknown] at hknown
      cases hknown
  obtain ⟨hok, -⟩ := htriple s rfl
  rcases hon : (saveStep (fun _ => false) c.admitsStep st).on s with ⟨e | u, s'⟩
  · exact ⟨e, s', hon⟩
  · exact (hok u (by rw [hon])).elim

/-- The chain of a booking that is not durable yet: nothing without levels, an error with them. -/
theorem yields_processChain {b : Booking} {resource : Option Resource} (hfree : ChainFree c b.tenantId resource)
    (stepId : ℕ → Uuid) : Yields (processChain c (fun _ => false) b resource stepId) s (.ok false) := by
  cases resource with
  | none => exact yields_pure false
  | some res =>
    refine yields_ok_bind (a := 0) (yields_mapError (yields_ok_bind (yields_poolQuery _) fun _ => ?_) rfl) fun _ => ?_
    · cases hrule : matchRule (c.rules b.tenantId) res with
      | none => exact yields_pure 0
      | some rule =>
        have hlevels := hfree res rule rfl hrule
        simp only [stepsFor, hlevels, List.zipIdx_nil, List.map_nil, List.length_nil]
        exact yields_ok_bind (yields_pure _) fun _ => yields_pure 0
    · rw [if_neg fun hwait => lt_irrefl 0 hwait.1]
      exact yields_pure false

theorem fails_processChain {b : Booking} {resource : Option Resource} (hunknown : s.rows.bookings.find? b.id = none)
    (hrefer : StepsRefer s.rows) (hfree : ¬ ChainFree c b.tenantId resource) (stepId : ℕ → Uuid) :
    Fails (processChain c (fun _ => false) b resource stepId) s := by
  simp only [ChainFree, not_forall] at hfree
  obtain ⟨res, rule, rfl, hrule, hlevels⟩ := hfree
  refine fails_bind (fails_mapError ?_ _) _
  have hrules : (poolQuery (fun _ => false) (.ok (c.rules b.tenantId))).on s =
      (.ok (c.rules b.tenantId), { s with ran := s.ran + 1 }) := rfl
  refine fails_bind_of hrules ?_
  simp only [hrule]
  refine fails_bind ?_ _
  cases hsteps : stepsFor b.tenantId b.id rule c.now stepId with
  | nil => exact absurd (by simpa [stepsFor] using hsteps) hlevels
  | cons st rest =>
    have hst : st.bookingId = b.id := bookingId_of_mem_stepsFor (hsteps ▸ List.mem_cons_self)
    rw [List.forM_eq_forM, List.forM_cons]
    exact fails_bind (fails_saveStep (by rw [hst]; exact hunknown) (by exact hrefer)) _

section persist

variable {b : Booking} {vres : ValidationResult} (h : s.aborted = false) (hnew : s.own.bookings.find? b.id = none)
  (stepId : ℕ → Uuid)
include h hnew

theorem persistSave_ok {t : Table Booking} (hsave : save c.admits s.own.bookings b = .ok t) :
    (Prog.mapError persistError (saveBooking (fun _ => false) c.admits b)).on s = (.ok (), booked s t (s.ran + 1)) := by
  simp only [Prog.mapError, Prog.on_of]
  rw [saveBooking_ok h (by rfl) hnew hsave]
  rfl

theorem persist_ok {t : Table Booking} (hsave : save c.admits s.own.bookings b = .ok t)
    (hfree : ChainFree c b.tenantId vres.resource) :
    ∃ result n, (persist c (fun _ => false) b vres [] stepId).on s = (.ok result, booked s t n) := by
  obtain ⟨n, hchain⟩ := yields_processChain (s := booked s t (s.ran + 1)) hfree stepId
  refine ⟨⟨b.id, b.status, vres.requiresApproval || false, b.redirectUrl⟩, n, ?_⟩
  rw [persist, on_bind_of (persistSave_ok h hnew hsave), List.forM_eq_forM, List.forM_nil,
    on_bind_of (Prog.on_pure _ _), on_bind_of hchain]
  rfl

theorem fails_persist (hunknown : s.rows.bookings.find? b.id = none) (hrefer : StepsRefer s.rows)
    (hnot : ¬ ((∃ t, save c.admits s.own.bookings b = .ok t) ∧ ChainFree c b.tenantId vres.resource)) :
    Fails (persist c (fun _ => false) b vres [] stepId) s := by
  cases hsave : save c.admits s.own.bookings b with
  | error e => exact fails_bind (fails_mapError ⟨e, _, saveBooking_error h rfl hnew hsave⟩ _) _
  | ok t =>
    refine fails_bind_of (persistSave_ok h hnew hsave) (fails_bind_of (Prog.on_pure _ _) (fails_bind ?_ _))
    exact fails_processChain (s := booked s t (s.ran + 1)) hunknown hrefer
      (fun hfree => hnot ⟨⟨t, hsave⟩, hfree⟩) stepId

end persist

/-- What `ExecuteRequest` asks of a request without services before it writes. -/
def Accepts (c : CreateSetup) (t : Table Booking) (req : CreateRequest) (vres : ValidationResult) : Prop :=
  checkRequest c req = .ok () ∧ checkLimit c req.tenantId req.userId = .ok () ∧
    validate c.policy c.resources t req.input = .ok vres ∧ ChainFree c req.tenantId vres.resource

variable (c) in
/-- **A creation without failures.** It goes through exactly if the request is accepted and the database takes the row,
and then this row is all that is new. -/
theorem executeRequest_run (h : s.aborted = false) (req : CreateRequest) {id : Uuid} (stepId : ℕ → Uuid)
    (hservices : req.services = []) (hnew : s.own.bookings.find? id = none)
    (hunknown : s.rows.bookings.find? id = none) (hrefer : StepsRefer s.rows) :
    (∃ vres t result n, Accepts c s.own.bookings req vres ∧
        save c.admits s.own.bookings (newBooking c id req vres) = .ok t ∧
        (executeRequest c (fun _ => false) req id stepId).on s = (.ok result, booked s t n)) ∨
      ((¬ ∃ vres t, Accepts c s.own.bookings req vres ∧
          save c.admits s.own.bookings (newBooking c id req vres) = .ok t) ∧
        Fails (executeRequest c (fun _ => false) req id stepId) s) := by
  cases hrequest : checkRequest c req with
  | error e =>
    refine .inr ⟨?_, fails_bind ⟨e, s, by rw [Prog.on_lift, hrequest]⟩ _⟩
    rintro ⟨vres, t, ⟨h', -⟩, -⟩
    rw [hrequest] at h'
    cases h'
  | ok u =>
    cases hlimit : checkLimit c req.tenantId req.userId with
    | error e =>
      refine .inr ⟨?_, fails_bind_of (by rw [Prog.on_lift, hrequest])
        (fails_bind ⟨e, s, by rw [Prog.on_lift, hlimit]⟩ _)⟩
      rintro ⟨vres, t, ⟨-, h', -⟩, -⟩
      rw [hlimit] at h'
      cases h'
    | ok u' =>
      have hchecked : (executeRequest c (fun _ => false) req id stepId).on s =
          (validateOn c (fun _ => false) req.input >>= fun vres =>
            persist c (fun _ => false) (newBooking c id req vres) vres [] stepId).on s := by
        rw [executeRequest, on_bind_of (a := u) (by rw [Prog.on_lift, hrequest]),
          on_bind_of (a := u') (by rw [Prog.on_lift, hlimit]), hservices]
      simp only [Fails, hchecked]
      obtain ⟨n, hvalidate⟩ := yields_validateOn h req.input
      cases hv : validate c.policy c.resources s.own.bookings req.input with
      | error e =>
        rw [hv] at hvalidate
        refine .inr ⟨?_, fails_bind ⟨e, _, hvalidate⟩ _⟩
        rintro ⟨vres, t, ⟨-, -, h', -⟩, -⟩
        rw [hv] at h'
        cases h'
      | ok vres =>
        rw [hv] at hvalidate
        rw [on_bind_of hvalidate]
        by_cases hok : (∃ t, save c.admits s.own.bookings (newBooking c id req vres) = .ok t) ∧
            ChainFree c req.tenantId vres.resource
        · obtain ⟨⟨t, hsave⟩, hfree⟩ := hok
          obtain ⟨result, n', hpersist⟩ := persist_ok (s := { s with ran := n }) (b := newBooking c id req vres) h hnew
            stepId hsave hfree
          exact .inl ⟨vres, t, result, n', ⟨hrequest, hlimit, hv, hfree⟩, hsave, hpersist⟩
        · refine .inr ⟨?_, fails_persist (s := { s with ran := n }) (b := newBooking c id req vres) h hnew stepId
            hunknown hrefer hok⟩
          rintro ⟨vres', t, ⟨-, -, h', hfree⟩, hsave⟩
          obtain rfl := Except.ok.inj (hv.symm.trans h')
          exact hok ⟨⟨t, hsave⟩, hfree⟩

end BookingSystem.Contracts.PlainCreation
