import BookingSystem.Runs.Restricted

/-!
# Answers to the booking form

Every room asks its own questions. `create` validates the answers against the room, an edit only the answers it
brings along. So the stored answers fit the room of the booking in a run whose edits either bring answers along when
they move a booking, or move it to a room that its stored answers fit already (`answers_fit_room`).
-/

namespace BookingSystem.Runs

open Base Model Model.BookingsService Effects

/-- The answers fit the questions: each required one has a non-empty answer, and no other key is there. -/
def FitsFields (fields : List CustomField) (stored : Option FieldValues) : Prop :=
  (∀ f ∈ fields, f.required = true → isEmptyAnswer (getKey (stored.getD []) f.fieldKey) = false) ∧
    ∀ p ∈ stored.getD [], ∃ f ∈ fields, f.fieldKey = p.1

/-- The answers of the booking fit its room. -/
def FitsRoom (env : Env) (b : Booking) : Prop :=
  ∃ r, env.resource b.tenantId b.resourceId = some r ∧ FitsFields r.customFields b.customFieldValues

/-- The same rooms with the same questions. -/
def SameFields (env env' : Env) : Prop :=
  ∀ tenantId id, (env'.resource tenantId id).map (·.customFields) = (env.resource tenantId id).map (·.customFields)

/-- A required question that is called like a member of every object has an answer of its own; no answer can be kept
under `__proto__`. -/
def OwnAnswers (fields : List CustomField) (values : FieldValues) : Prop :=
  ∀ f ∈ fields, f.required = true → f.fieldKey ∈ inheritedNames →
    f.fieldKey ≠ "__proto__" ∧ (getKey values f.fieldKey).isSome = true

/-- An edit that moves the booking without bringing answers along moves it to a room that its answers fit; and the
answers that it brings along leave no question of the room to a member of every object. -/
structure EditFitting (env : Env) (dto : UpdateBookingDto) (b : Booking) : Prop where
  moves : dto.customFieldValues = none → ∀ r, dto.resourceId = some r.id → r.id ≠ b.resourceId →
    env.resource b.tenantId r.id = some r → FitsFields r.customFields b.customFieldValues
  own : ∀ incoming, dto.customFieldValues = some incoming → ∀ r,
    env.resource b.tenantId (dto.resourceId.getD b.resourceId) = some r →
      OwnAnswers r.customFields (mergeKeys (b.customFieldValues.getD []) incoming)

/-- The answers of a new booking leave no question of the room to a member of every object. -/
def CreateFitting (env : Env) (tenantId : Uuid) (dto : CreateBookingDto) : Prop :=
  ∀ r, env.resource tenantId dto.resourceId = some r → OwnAnswers r.customFields (dto.customFieldValues.getD [])

/-- No required question is left to a member of every object, and an edit moves bookings without new answers only to
rooms that the stored answers fit. -/
def KeepsAnswers (st : Store) (e : Event) : Prop :=
  match e.op with
  | .create tenantId _ dto _ => CreateFitting e.env tenantId dto
  | .createSeries tenantId _ dto _ _ _ => CreateFitting e.env tenantId dto
  | .update tenantId _ _ id dto => ∀ b, findBooking st.bookings tenantId id = some b → EditFitting e.env dto b
  | .updateSeries tenantId _ _ id dto => ∀ b, InSeries st.bookings tenantId id b → EditFitting e.env dto b
  | _ => True

/-! ### Keys of an object -/

section Keys

variable {α : Type} (values : List (String × α)) (k k' : String) (v : α)

theorem getKey_cons (p : String × α) : getKey (p :: values) k = if p.1 = k then some p.2 else getKey values k := by
  unfold getKey
  by_cases h : p.1 = k
  · rw [List.find?_cons_of_pos (by simpa using h), if_pos h]
    rfl
  · rw [List.find?_cons_of_neg (by simpa using h), if_neg h]

theorem getKey_map : getKey (values.map fun p => if p.1 == k then (k, v) else p) k' =
    if k = k' then (if values.any (·.1 == k) then some v else none) else getKey values k' := by
  induction values with
  | nil => simp [getKey]
  | cons p values ih =>
    rw [List.map_cons, getKey_cons, getKey_cons, ih]
    by_cases hp : p.1 = k
    · by_cases hk : k = k' <;> simp [hp, hk]
    · by_cases hk : k = k'
      · subst hk
        have hbeq : (p.1 == k) = false := by simpa using hp
        rw [if_neg (by simp [hp]), if_pos rfl, if_pos rfl, List.any_cons, hbeq, Bool.false_or]
      · simp [hp, hk]

theorem getKey_setKey : getKey (setKey values k v) k' = if k = k' then some v else getKey values k' := by
  unfold setKey
  split
  · rename_i hany
    rw [getKey_map, if_pos hany]
  · rename_i hany
    rw [Bool.not_eq_true] at hany
    by_cases hk : k = k'
    · subst hk
      have hnone : List.find? (fun p => p.1 == k) values = none := by simpa using hany
      simp [getKey, List.find?_append, hnone]
    · simp [getKey, List.find?_append, hk]

variable {values k v}

theorem mem_setKey {p : String × α} (h : p ∈ setKey values k v) : p.1 = k ∨ p ∈ values := by
  unfold setKey at h
  split at h
  · obtain ⟨q, hq, rfl⟩ := List.mem_map.1 h
    split
    · exact .inl rfl
    · exact .inr hq
  · rw [List.mem_append, List.mem_singleton] at h
    rcases h with h | rfl
    · exact .inr h
    · exact .inl rfl

end Keys

theorem isSome_mergeKeys {k : String} (incoming stored : FieldValues) (h : (getKey stored k).isSome = true) :
    (getKey (mergeKeys stored incoming) k).isSome = true := by
  unfold mergeKeys
  induction incoming generalizing stored with
  | nil => exact h
  | cons p incoming ih =>
    refine ih _ ?_
    rw [getKey_setKey]
    split
    · rfl
    · exact h

theorem getKey_ownKeys {cleaned : Cleaned} {k : String} {v : FieldValue} (h : getKey cleaned k = some (.own v)) :
    getKey (ownKeys cleaned) k = some v := by
  induction cleaned with
  | nil => cases h
  | cons p cleaned ih =>
    rw [getKey_cons] at h
    unfold ownKeys at ih ⊢
    obtain ⟨k', raw⟩ := p
    split at h
    · rename_i hk
      obtain rfl := Option.some.inj h
      rw [List.filterMap_cons, getKey_cons, if_pos hk]
    · rename_i hk
      cases raw with
      | own w =>
        rw [List.filterMap_cons, getKey_cons, if_neg hk]
        exact ih h
      | inherited => exact ih h

theorem mem_ownKeys {cleaned : Cleaned} {p : String × FieldValue} (h : p ∈ ownKeys cleaned) :
    ∃ raw, (p.1, raw) ∈ cleaned := by
  obtain ⟨⟨k, raw⟩, hmem, hp⟩ := List.mem_filterMap.1 h
  cases raw with
  | own v =>
    obtain rfl := Option.some.inj hp
    exact ⟨_, hmem⟩
  | inherited => cases hp

/-! ### Validation -/

variable {incoming : FieldValues} {fields : List CustomField} {f : CustomField} {cleaned acc : Cleaned}

/-- The object has the answer of `incoming` to a question, and it is not empty. -/
def Filled (incoming : FieldValues) (cleaned : Cleaned) (k : String) : Prop :=
  ∃ v, getKey incoming k = some v ∧ isEmptyAnswer (some v) = false ∧ getKey cleaned k = some (.own v)

/-- The answers of `cleaned` are those of `acc`, and answers to some of the questions. -/
structure Answers (incoming : FieldValues) (fields : List CustomField) (acc cleaned : Cleaned) : Prop where
  keeps : ∀ k, Filled incoming acc k → Filled incoming cleaned k
  required : OwnAnswers fields incoming → ∀ f ∈ fields, f.required = true → Filled incoming cleaned f.fieldKey
  defined : ∀ p ∈ cleaned, p ∈ acc ∨ ∃ f ∈ fields, f.fieldKey = p.1

theorem Answers.nil (incoming : FieldValues) (acc : Cleaned) : Answers incoming [] acc acc :=
  ⟨fun _ h => h, by simp, fun _ h => .inl h⟩

theorem Answers.cons {mid : Cleaned} (h₁ : Answers incoming [f] acc mid) (h₂ : Answers incoming fields mid cleaned) :
    Answers incoming (f :: fields) acc cleaned where
  keeps k h := h₂.keeps k (h₁.keeps k h)
  required hown g hg hreq := by
    rcases List.mem_cons.1 hg with rfl | hg
    · refine h₂.keeps _ (h₁.required (fun e he => hown e ?_) g (by simp) hreq)
      rw [List.mem_singleton.1 he]
      exact List.mem_cons_self
    · exact h₂.required (fun e he => hown e (List.mem_cons_of_mem _ he)) g hg hreq
  defined p hp := by
    rcases h₂.defined p hp with hp | ⟨g, hg, hkey⟩
    · rcases h₁.defined p hp with hp | ⟨g, hg, hkey⟩
      · exact .inl hp
      · exact .inr ⟨g, by simpa using .inl (by simpa using hg), hkey⟩
    · exact .inr ⟨g, List.mem_cons_of_mem _ hg, hkey⟩

theorem answers_assignKey {raw : Raw} (hraw : lookupKey incoming f.fieldKey = some raw)
    (hfull : isEmptyRaw (some raw) = false) : Answers incoming [f] acc (assignKey acc f.fieldKey raw) where
  keeps k hk := by
    obtain ⟨v, hv, hvfull, hacc⟩ := hk
    refine ⟨v, hv, hvfull, ?_⟩
    unfold assignKey
    split
    · exact hacc
    · rw [getKey_setKey]
      split
      · rename_i heq
        rw [heq, lookupKey, hv] at hraw
        rw [Option.some.inj hraw]
      · exact hacc
  required hown g hg hreq := by
    obtain rfl := List.mem_singleton.1 hg
    have hinh : "__proto__" ∈ inheritedNames := by decide
    have hproto : g.fieldKey ≠ "__proto__" := fun h => (hown g (by simp) hreq (h ▸ hinh)).1 h
    rw [lookupKey] at hraw
    cases hv : getKey incoming g.fieldKey with
    | some v =>
      rw [hv] at hraw
      obtain rfl := Option.some.inj hraw
      exact ⟨v, hv, hfull, by rw [assignKey, if_neg hproto, getKey_setKey, if_pos rfl]⟩
    | none =>
      rw [hv] at hraw
      dsimp only at hraw
      split at hraw
      · rename_i hname
        have hsome := (hown g (by simp) hreq (by simpa using hname)).2
        rw [hv] at hsome
        cases hsome
      · cases hraw
  defined p hp := by
    unfold assignKey at hp
    split at hp
    · exact .inl hp
    · rcases mem_setKey hp with hkey | hp
      · exact .inr ⟨f, by simp, hkey.symm⟩
      · exact .inl hp

theorem answers_skip (hf : f.required = false) : Answers incoming [f] acc acc where
  keeps _ h := h
  required _ g hg hreq := by
    rw [List.mem_singleton.1 hg, hf] at hreq
    cases hreq
  defined _ h := .inl h

/-- One turn of the loop of `validateCustomFields`. -/
def answerField (incoming : FieldValues) (cleaned : Cleaned) (defn : CustomField) : Except HttpError Cleaned :=
  let raw := lookupKey incoming defn.fieldKey
  if defn.required && isEmptyRaw raw then
    let name := match defn.label with
      | some l => if l = "" then defn.fieldKey else l
      | none => defn.fieldKey
    .error (.badRequest ("\"" ++ name ++ "\" is required"))
  else
    match raw with
    | some v => if isEmptyRaw raw then .ok cleaned else .ok (assignKey cleaned defn.fieldKey v)
    | none => .ok cleaned

theorem validateCustomFields_eq (r : Resource) (incoming : FieldValues) :
    validateCustomFields r incoming = r.customFields.foldlM (answerField incoming) [] := rfl

theorem answers_answerField (h : answerField incoming acc f = .ok cleaned) : Answers incoming [f] acc cleaned := by
  unfold answerField at h
  dsimp only at h
  split at h
  · cases h
  · rename_i hreq
    rw [Bool.and_eq_true, not_and_or, Bool.not_eq_true, Bool.not_eq_true] at hreq
    cases hraw : lookupKey incoming f.fieldKey with
    | none =>
      rw [hraw] at h hreq
      obtain rfl := Except.ok.inj h
      rcases hreq with hreq | hempty
      · exact answers_skip hreq
      · cases hempty
    | some raw =>
      rw [hraw] at h hreq
      dsimp only at h
      split at h
      · rename_i hempty
        obtain rfl := Except.ok.inj h
        rcases hreq with hreq | hempty'
        · exact answers_skip hreq
        · rw [hempty] at hempty'
          cases hempty'
      · rename_i hempty
        obtain rfl := Except.ok.inj h
        exact answers_assignKey hraw (by simpa using hempty)

theorem answers_foldlM (h : fields.foldlM (answerField incoming) acc = .ok cleaned) :
    Answers incoming fields acc cleaned := by
  induction fields generalizing acc with
  | nil =>
    rw [List.foldlM_nil, pure_eq_ok] at h
    subst h
    exact .nil incoming acc
  | cons f fields ih =>
    rw [List.foldlM_cons, bind_eq_ok] at h
    obtain ⟨mid, hmid, h⟩ := h
    exact .cons (answers_answerField hmid) (ih h)

/-- **Validation.** What it lets through answers every required question, unless it is left to a member of every object,
and only the questions of the room. -/
theorem fits_of_answered {r : Resource} {stored : Option FieldValues} (hown : OwnAnswers r.customFields incoming)
    (h : Answered r incoming stored) : FitsFields r.customFields stored := by
  obtain ⟨cleaned, hval, rfl⟩ := h
  rw [validateCustomFields_eq] at hval
  obtain ⟨-, hreq, hdef⟩ := answers_foldlM hval
  have hstored : (toColumn cleaned).getD [] = ownKeys cleaned := by
    unfold toColumn
    split
    · rename_i hempty
      rw [List.isEmpty_iff.1 hempty]
      rfl
    · rfl
  unfold FitsFields
  rw [hstored]
  refine ⟨fun f hf hfreq => ?_, fun p hp => ?_⟩
  · obtain ⟨v, -, hfull, hget⟩ := hreq hown f hf hfreq
    rwa [getKey_ownKeys hget]
  · obtain ⟨raw, hraw⟩ := mem_ownKeys hp
    rcases hdef _ hraw with hnil | hfield
    · cases hnil
    · exact hfield

/-- A question with the name of a member passes without an answer. -/
example :
    let constructor : CustomField := { fieldKey := "constructor", required := true }
    let r : Resource := { id := "r", tenantId := "t", customFields := [constructor] }
    (validateCustomFields r []).map toColumn = .ok (some []) := by
  decide

theorem OwnAnswers.of_fits {values : FieldValues} (hown : OwnAnswers fields values) {stored : Option FieldValues}
    (h : FitsFields fields stored) (incoming : FieldValues) :
    OwnAnswers fields (mergeKeys (stored.getD []) incoming) := by
  intro f hf hreq hname
  have hfull := h.1 f hf hreq
  refine ⟨(hown f hf hreq hname).1, isSome_mergeKeys incoming _ ?_⟩
  cases hget : getKey (stored.getD []) f.fieldKey with
  | some v => rfl
  | none =>
    rw [hget] at hfull
    cases hfull

/-! ### One call -/

/-- The answers of every booking fit its room. -/
def AllFit (env : Env) (bookings : Table Booking) : Prop := ∀ b ∈ bookings.rows, FitsRoom env b

section Calls

variable {env : Env} {now : Instant} {st st' : Store} {tenantId userId : Uuid}

theorem allFit_create {fresh : Fresh} {dto : CreateBookingDto} {row : Booking} (h : AllFit env st.bookings)
    (hC : CreateFitting env tenantId dto) (hc : create env now fresh tenantId userId dto st = .ok (st', row)) :
    AllFit env st'.bookings := by
  obtain ⟨slot, hadm, hins⟩ := create_inserts hc
  obtain ⟨-, hrows⟩ := Table.insert?_eq_some_iff.1 hins
  intro b hb
  rw [hrows, List.mem_append, List.mem_singleton] at hb
  rcases hb with hb | rfl
  · exact h b hb
  · obtain ⟨-, hrid, -⟩ := Env.resource_eq_some.1 hadm.resource
    refine ⟨slot.resource, ?_, fits_of_answered (hC _ hadm.resource) hadm.answers⟩
    rw [hadm.tenantId, hadm.resourceId, hrid]
    exact hadm.resource

/-- What an edit does to a booking as far as the answers go. -/
structure KeepsFitting (env : Env) (dto : UpdateBookingDto) (b b' : Booking) : Prop where
  tenantId : b'.tenantId = b.tenantId
  target : dto.resourceId.getD b'.resourceId = dto.resourceId.getD b.resourceId
  same : dto.customFieldValues = none → b'.customFieldValues = b.customFieldValues
  edited : b'.customFieldValues = b.customFieldValues ∨ b'.resourceId = dto.resourceId.getD b.resourceId
  fits : FitsRoom env b → FitsRoom env b'

theorem KeepsFitting.refl (dto : UpdateBookingDto) (b : Booking) : KeepsFitting env dto b b :=
  ⟨rfl, rfl, fun _ => rfl, .inl rfl, id⟩

variable {role : String} {id : Uuid} {dto : UpdateBookingDto}

theorem KeepsFitting.edit {s b saved : Booking} {dto' : UpdateBookingDto} {bookings : Table Booking}
    (h : KeepsFitting env dto s b) (hedit : EditFitting env dto s)
    (hdto : dto'.resourceId = dto.resourceId ∧ dto'.customFieldValues = dto.customFieldValues)
    (he : Edited env tenantId userId role id dto' bookings b saved) : KeepsFitting env dto s saved := by
  have hten : saved.tenantId = s.tenantId := he.tenantId_eq.trans h.tenantId
  have hbten : b.tenantId = tenantId := (findBooking_eq_some.1 he.found).2
  have hsaved : saved.resourceId = dto.resourceId.getD b.resourceId := hdto.1 ▸ he.target
  have htarget : dto.resourceId.getD saved.resourceId = dto.resourceId.getD s.resourceId := by
    rw [← h.target, hsaved]
    cases dto.resourceId <;> rfl
  rcases he.answers with ⟨hnone, hsame⟩ | ⟨incoming, hsome, hans⟩
  · rw [hdto.2] at hnone
    refine ⟨hten, htarget, fun _ => hsame.trans (h.same hnone), .inl (hsame.trans (h.same hnone)), fun hs => ?_⟩
    obtain ⟨rb, hrb, hfb⟩ := h.fits hs
    unfold FitsRoom
    rw [he.tenantId_eq, hsame]
    rcases he.room with hroom | ⟨r, hname, hr, hrid⟩
    · rw [hroom]
      exact ⟨rb, hrb, hfb⟩
    · rw [hrid, h.same hnone]
      rw [hdto.1] at hname
      by_cases hmoved : r.id = s.resourceId
      · -- back in the room the booking was in at first, which the answers fit
        obtain ⟨rs, hrs, hfs⟩ := hs
        refine ⟨rs, ?_, hfs⟩
        rw [h.tenantId, hmoved]
        exact hrs
      · rw [← hbten, h.tenantId] at hr
        refine ⟨r, ?_, hedit.moves hnone r hname hmoved hr⟩
        rw [h.tenantId]
        exact hr
  · rw [hdto.2] at hsome
    refine ⟨hten, htarget, fun hnone => absurd (hsome.symm.trans hnone) nofun, .inr (hsaved.trans h.target),
      fun hs => ?_⟩
    obtain ⟨rb, hrb, hfb⟩ := h.fits hs
    obtain ⟨r, hr⟩ : ∃ r, env.resource s.tenantId saved.resourceId = some r := by
      rw [← h.tenantId]
      rcases he.room with hroom | ⟨r, -, hr, hrid⟩
      · exact ⟨rb, by rw [hroom]; exact hrb⟩
      · exact ⟨r, by rw [hrid, hbten]; exact hr⟩
    have hown := hedit.own incoming hsome r (by rw [← h.target, ← hsaved]; exact hr)
    have hown' : OwnAnswers r.customFields (mergeKeys (b.customFieldValues.getD []) incoming) := by
      rcases h.edited with hfirst | hagain
      · rw [hfirst]
        exact hown
      · -- the booking was edited before, so it is in the room already and its answers fit it
        have hroom : saved.resourceId = b.resourceId := by rw [hsaved, h.target, hagain]
        rw [hroom, ← h.tenantId] at hr
        obtain rfl := Option.some.inj (hrb.symm.trans hr)
        exact hown.of_fits hfb incoming
    refine ⟨r, by rw [hten]; exact hr, fits_of_answered hown' (hans r ?_)⟩
    rw [← hbten, h.tenantId]
    exact hr

theorem allFit_rewrites (h : AllFit env st.bookings)
    (hrew : Table.Rewrites (KeepsFitting env dto) st.bookings st'.bookings) : AllFit env st'.bookings := by
  intro b' hb'
  obtain ⟨b, hb, hR⟩ := hrew.back (Table.find?_of_mem hb')
  exact hR.fits (h b (Table.mem_of_find? hb))

/-- **One call.** A call that keeps the answers in their rooms leaves all of them fitting. -/
theorem allFit_step {e : Event} (h : AllFit e.env st.bookings) (he : Books e) (hC : KeepsAnswers st e) :
    AllFit e.env (step st e).bookings := by
  obtain ⟨env, now, op⟩ := e
  cases op with
  | create tenantId userId dto fresh =>
    exact settle_induction (P := fun s : Store => AllFit env s.bookings) h fun r hr => allFit_create h hC hr
  | createSeries tenantId userId dto recurrenceId occurrences fresh =>
    refine settle_induction (P := fun s : Store => AllFit env s.bookings) h fun r hr => ?_
    refine createSeries_ok (P := fun s : Store => AllFit env s.bookings) hr h fun _ _ _ _ _ hrid hanswers hP hc => ?_
    refine allFit_create hP (fun r hr' => ?_) hc
    rw [hrid] at hr'
    rw [hanswers]
    exact hC r hr'
  | update tenantId userId role id dto =>
    refine settle_induction (P := fun s : Store => AllFit env s.bookings) h fun r hr => ?_
    exact allFit_rewrites h (update_rewrites (KeepsFitting.refl dto) hr
      fun b hb he => (KeepsFitting.refl dto b).edit (hC b hb) ⟨rfl, rfl⟩ he).1
  | updateSeries tenantId userId role id dto =>
    refine settle_induction (P := fun s : Store => AllFit env s.bookings) h fun r hr => ?_
    exact allFit_rewrites h (updateSeries_rewrites (KeepsFitting.refl dto) hr
      fun s _ _ _ _ hs hdto he hR => hR.edit (hC s hs) hdto he).1
  | _ => exact absurd he (by simp [Books])

end Calls

/-! ### Every run -/

theorem SameFields.symm {env env' : Env} (h : SameFields env env') : SameFields env' env :=
  fun tenantId id => (h tenantId id).symm

theorem allFit_congr {env env' : Env} (hsame : SameFields env env') {bookings : Table Booking}
    (h : AllFit env bookings) : AllFit env' bookings := by
  intro b hb
  obtain ⟨r, hr, hfits⟩ := h b hb
  have hfields := hsame b.tenantId b.resourceId
  rw [hr, Option.map_some, Option.map_eq_some_iff] at hfields
  obtain ⟨r', hr', heq⟩ := hfields
  refine ⟨r', hr', ?_⟩
  rw [heq]
  exact hfits

/-- **Answers fit the room.** With the questions of the rooms fixed, in a run from the empty store whose calls leave no
required question to a member of every object, and whose edits, when they move a booking without bringing answers along,
move it to a room that its stored answers fit, every booking that is not settled has a non-empty answer to each required
question of its room and no other key. -/
theorem answers_fit_room {env : Env} {es : List Event} (hes : ∀ e ∈ es, Books e ∧ SameFields env e.env)
    (hC : AllSteps step KeepsAnswers Store.empty es) :
    ∀ p r, es = p ++ r → ∀ b ∈ (run Store.empty p).bookings.rows, b.status ∉ terminalStatuses → FitsRoom env b := by
  rintro p r rfl b hb -
  have hp : AllFit env (run Store.empty p).bookings := by
    refine run_invariant (I := fun st : Store => AllFit env st.bookings)
      (C := fun st e => KeepsAnswers st e ∧ Books e ∧ SameFields env e.env) ?_ (fun b hb => by cases hb) ?_
    · rintro st e h ⟨hkeep, hcall, hsame⟩
      exact allFit_congr hsame.symm (allFit_step (allFit_congr hsame h) hcall hkeep)
    · rw [allSteps_iff] at hC ⊢
      rintro p' e' r' rfl
      exact ⟨hC p' e' (r' ++ r) (by simp), hes e' (by simp)⟩
  exact hp b hb

/-! ### A room with a question -/

def theatreOffice : Env :=
  office ⟨[{ id := "r", tenantId := "t" },
    { id := "theatre", tenantId := "t", customFields := [{ fieldKey := "seating", required := true }] },
    { id := "studio", tenantId := "t", customFields := [{ fieldKey := "seating", required := true }] }],
    by decide⟩ .empty .empty

def bookAndMoveOn (target : Uuid) : List Event :=
  [⟨theatreOffice, 0, requestRoom⟩, ⟨theatreOffice, 1, .update "t" "u" "Officer" "b" { resourceId := some target }⟩]

/-- The theatre is booked with its seating, and the booking is moved. -/
def bookSeatedAndMoveOn (target : Uuid) : List Event :=
  let dto : CreateBookingDto :=
    { resourceId := "theatre"
      startTime := 3600000
      endTime := 7200000
      customFieldValues := some [("seating", .text "rows")] }
  [⟨theatreOffice, 0, .create "t" "u" dto ⟨"b", fun i => "s" ++ toString i, "token"⟩⟩,
    ⟨theatreOffice, 1, .update "t" "u" "Officer" "b" { resourceId := some target }⟩]

/-- The booking is moved to a room that asks the same. -/
theorem answers_fit_room_studio : ∃ b, (run Store.empty (bookSeatedAndMoveOn "studio")).bookings.find? "b" = some b ∧
    b.resourceId = "studio" ∧ FitsRoom theatreOffice b := by
  refine ⟨_, rfl, rfl, answers_fit_room ?_ ?_ (bookSeatedAndMoveOn "studio") [] rfl _
    (Table.mem_of_find? (k := "b") rfl) (by decide)⟩
  · simp [bookSeatedAndMoveOn, Books, SameFields]
  · have hasked : ∀ r ∈ theatreOffice.resources.rows, ∀ f ∈ r.customFields, f.fieldKey ∉ inheritedNames := by decide
    refine ⟨fun r hr f hf _ hname => ?_, fun b hb => ⟨fun _ r hroom _ hr => ?_, fun _ hcf => by cases hcf⟩, trivial⟩
    · exact absurd hname (hasked r (Env.resource_eq_some.1 hr).1 f hf)
    have hstored : ∀ b ∈ findBooking (run Store.empty ((bookSeatedAndMoveOn "studio").take 1)).bookings "t" "b",
        ∀ r ∈ theatreOffice.resource b.tenantId "studio", FitsFields r.customFields b.customFieldValues := by
      unfold FitsFields
      decide
    rw [← Option.some.inj hroom] at hr
    exact hstored b hb r hr

/-- The booking is moved to the theatre without saying anything about the seating. -/
theorem answers_lost_by_move :
    ¬ ∀ (env : Env) (es : List Event), (∀ e ∈ es, Books e ∧ SameFields env e.env) →
      ∀ p r, es = p ++ r → ∀ b ∈ (run Store.empty p).bookings.rows, b.status ∉ terminalStatuses → FitsRoom env b := by
  intro h
  have hall := h theatreOffice (bookAndMoveOn "theatre") (by simp [bookAndMoveOn, Books, requestRoom, SameFields])
    (bookAndMoveOn "theatre") [] rfl
  have hmoved : ∃ b ∈ (run Store.empty (bookAndMoveOn "theatre")).bookings.rows, b.status ∉ terminalStatuses ∧
      ∀ r ∈ theatreOffice.resource b.tenantId b.resourceId, ∃ f ∈ r.customFields, f.required = true ∧
        isEmptyAnswer (getKey (b.customFieldValues.getD []) f.fieldKey) = true := by decide
  obtain ⟨b, hb, hopen, hempty⟩ := hmoved
  obtain ⟨r, hr, hreq, -⟩ := hall b hb hopen
  obtain ⟨f, hf, hfreq, hfempty⟩ := hempty r hr
  rw [hreq f hf hfreq] at hfempty
  cases hfempty

end BookingSystem.Runs
