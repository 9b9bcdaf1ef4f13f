import BookingSystem.Base.Run
import BookingSystem.Model.Idempotency

/-!
# One execution for a key

The requests of one scope (key, caller and path) run the handler once and replay its response, and a cached response
stands for writes that are durable or whose transaction is still open, as long as the requests of the scope do not look
the key up while one of them is between its own lookup and the cache, the key is free when one of them caches its
response, and neither a statement nor the `COMMIT` of a request that was answered with a 2xx fails (`runs_once`).
-/

namespace BookingSystem.Concurrency.IdempotencyKeys

open Base Model Model.Idempotency

variable {ι : Type} [DecidableEq ι] (req : ι → Request) (σ : Scope)

/-- The request has been answered with the 2xx response by the handler; its writes are durable, or its transaction is
still open. -/
def Stands (st : State ι) (r : ι) (response : Response) : Prop :=
  response.ok = true ∧
    (st.phase r = .answered response ∨ st.phase r = .kept response ∨ st.phase r = .finished response true)

/-- **One execution.** At most one request of the scope stands for a 2xx response of the handler; every request of the
scope that is through with a 2xx is that one or replays its response; and every response cached for the scope is its
response. -/
structure RunsOnce (st : State ι) : Prop where
  once : ∀ r r' response response', (req r).scope = some σ → (req r').scope = some σ → Stands st r response →
    Stands st r' response' → r = r'
  durable : ∀ r response d, (req r).scope = some σ → st.phase r = .finished response d → response.ok = true → d = true
  replays : ∀ r response, (req r).scope = some σ → st.phase r = .replayed response →
    ∃ r', (req r').scope = some σ ∧ Stands st r' response
  cached : ∀ row ∈ st.cache.rows, row.scope = σ → (req row.producer).scope = some σ ∧
    Stands st row.producer row.response

/-- The key is used within its life time: whenever a request of the scope looks it up or the scheduler prunes, no
response cached for the scope has expired. -/
def InLifetime (st : State ι) (e : Event ι) : Prop :=
  match e with
  | .lookup r now _ => (req r).scope = some σ → ∀ row ∈ st.cache.rows, row.scope = σ → now < row.expiresAt
  | .prune now => ∀ row ∈ st.cache.rows, row.scope = σ → now ≤ row.expiresAt
  | _ => True

/-- A request that is between its lookup and the cache. -/
def Active (st : State ι) (r : ι) : Prop :=
  st.phase r = .missed ∨ ∃ response, response.ok = true ∧ st.phase r = .answered response

/-- No request of the scope gets in the way of another one, or of itself: at a lookup no other one is active, and the
lookup does not fail over a cached response; a 2xx is cached under a key that is free; and it is committed. -/
def Undisturbed (st : State ι) (e : Event ι) : Prop :=
  match e with
  | .lookup r _ ok => (req r).scope = some σ → st.phase r = .ready →
    (∀ r', (req r').scope = some σ → ¬ Active st r') ∧ (ok = true ∨ ∀ row ∈ st.cache.rows, row.scope ≠ σ)
  | .insert r _ ok => (req r).scope = some σ → ∀ response, st.phase r = .answered response → response.ok = true →
    ok = true ∧ st.cache.find? σ.key = none
  | .commit r ok => (req r).scope = some σ → ∀ response, st.phase r = .kept response → response.ok = true → ok = true
  | _ => True

/-! ### The invariant -/

/-- The request is through with the cache. -/
def Stored (st : State ι) (r : ι) (response : Response) : Prop :=
  response.ok = true ∧ (st.phase r = .kept response ∨ st.phase r = .finished response true)

/-- What holds between the steps: the cached responses of the scope are those of the requests that are through with the
cache, and an active request is alone. -/
structure Inv (st : State ι) : Prop where
  cached : ∀ row ∈ st.cache.rows, row.scope = σ → (req row.producer).scope = some σ ∧
    Stored st row.producer row.response
  stored : ∀ r response, (req r).scope = some σ → Stored st r response →
    ∃ row ∈ st.cache.rows, row.scope = σ ∧ row.producer = r
  durable : ∀ r response d, (req r).scope = some σ → st.phase r = .finished response d → response.ok = true → d = true
  replays : ∀ r response, (req r).scope = some σ → st.phase r = .replayed response →
    ∃ r', (req r').scope = some σ ∧ Stored st r' response
  alone : ∀ r r', (req r).scope = some σ → (req r').scope = some σ → Active st r → Active st r' → r = r'
  first : ∀ r, (req r).scope = some σ → Active st r → ∀ row ∈ st.cache.rows, row.scope ≠ σ

variable {req σ} {st : State ι} {response : Response} {now : Instant} {r : ι} {ok : Bool}

omit [DecidableEq ι] in
theorem Stored.stands (h : Stored st r response) : Stands st r response := ⟨h.1, .inr h.2⟩

omit [DecidableEq ι] in
theorem Stands.active_or_stored (h : Stands st r response) : Active st r ∨ Stored st r response := by
  rcases h.2 with hp | hp
  · exact .inl (.inr ⟨response, h.1, hp⟩)
  · exact .inr ⟨h.1, hp⟩

omit [DecidableEq ι] in
theorem Inv.runsOnce (h : Inv req σ st) : RunsOnce req σ st := by
  refine ⟨fun r r' response response' hr hr' hs hs' => ?_, h.durable, fun r response hr hp => ?_, fun row hrow hs => ?_⟩
  · rcases hs.active_or_stored with ha | hst <;> rcases hs'.active_or_stored with ha' | hst'
    · exact h.alone r r' hr hr' ha ha'
    · obtain ⟨row, hrow, hscope, -⟩ := h.stored r' response' hr' hst'
      exact absurd hscope (h.first r hr ha row hrow)
    · obtain ⟨row, hrow, hscope, -⟩ := h.stored r response hr hst
      exact absurd hscope (h.first r' hr' ha' row hrow)
    · obtain ⟨row, hrow, hscope, rfl⟩ := h.stored r response hr hst
      obtain ⟨row', hrow', hscope', rfl⟩ := h.stored r' response' hr' hst'
      rw [Table.eq_of_key hrow hrow' (by rw [key_cachedResponse, key_cachedResponse, hscope, hscope'])]
  · obtain ⟨r', hr', hst⟩ := h.replays r response hr hp
    exact ⟨r', hr', hst.stands⟩
  · obtain ⟨hr, hst⟩ := h.cached row hrow hs
    exact ⟨hr, hst.stands⟩

omit [DecidableEq ι] in
theorem inv_init : Inv req σ (init ι) where
  cached row hrow := nomatch hrow
  stored r response _ hs := by rcases hs.2 with hp | hp <;> cases hp
  durable r response d _ hp := by cases hp
  replays r response _ hp := by cases hp
  alone r r' _ _ ha := by rcases ha with hp | ⟨response, -, hp⟩ <;> cases hp
  first r _ ha := by rcases ha with hp | ⟨response, -, hp⟩ <;> cases hp

section goto

variable (st) (r : ι) (phase : Phase)

@[simp] theorem goto_cache : (st.goto r phase).cache = st.cache := rfl

@[simp] theorem goto_phase_self : (st.goto r phase).phase r = phase := Function.update_self ..

theorem goto_phase_of_ne {r' : ι} (h : r' ≠ r) : (st.goto r phase).phase r' = st.phase r' := Function.update_of_ne h ..

variable {st r phase} in
theorem phase_of_goto {r' : ι} {before : Phase} (h : (st.goto r phase).phase r' = before) (hne : phase ≠ before) :
    st.phase r' = before := by
  by_cases he : r' = r
  · subst he
    rw [goto_phase_self] at h
    exact absurd h hne
  · rwa [goto_phase_of_ne _ _ _ he] at h

end goto

omit [DecidableEq ι] in
theorem Inv.congr {st' : State ι} (h : Inv req σ st)
    (hphase : ∀ r, (req r).scope = some σ → st'.phase r = st.phase r)
    (hcache : ∀ row, row.scope = σ → (row ∈ st'.cache.rows ↔ row ∈ st.cache.rows)) : Inv req σ st' := by
  have hstored {r : ι} {response : Response} (hr : (req r).scope = some σ) :
      Stored st' r response ↔ Stored st r response := by rw [Stored, Stored, hphase r hr]
  have hactive {r : ι} (hr : (req r).scope = some σ) : Active st' r ↔ Active st r := by
    rw [Active, Active, hphase r hr]
  refine ⟨fun row hrow hs => ?_, fun r response hr hs => ?_, fun r response d hr hp => ?_, fun r response hr hp => ?_,
    fun r r' hr hr' ha ha' => ?_, fun r hr ha row hrow hs => ?_⟩
  · obtain ⟨hr, hst⟩ := h.cached row ((hcache row hs).1 hrow) hs
    exact ⟨hr, (hstored hr).2 hst⟩
  · obtain ⟨row, hrow, hscope, hprod⟩ := h.stored r response hr ((hstored hr).1 hs)
    exact ⟨row, (hcache row hscope).2 hrow, hscope, hprod⟩
  · exact h.durable r response d hr (by rw [← hphase r hr, hp])
  · obtain ⟨r', hr', hst⟩ := h.replays r response hr (by rw [← hphase r hr, hp])
    exact ⟨r', hr', (hstored hr').2 hst⟩
  · exact h.alone r r' hr hr' ((hactive hr).1 ha) ((hactive hr').1 ha')
  · exact h.first r hr ((hactive hr).1 ha) row ((hcache row hs).1 hrow) hs

/-- A request of the scope goes on, and the table stays: what it has stored stays. -/
theorem Inv.goto {phase : Phase} (h : Inv req σ st) (hr : (req r).scope = some σ)
    (hstored : ∀ response, Stored (st.goto r phase) r response ↔ Stored st r response)
    (hdurable : ∀ response d, phase = .finished response d → response.ok = true → d = true)
    (hreplays : ∀ response, phase = .replayed response → ∃ r', (req r').scope = some σ ∧ Stored st r' response)
    (hactive : Active (st.goto r phase) r → (∀ r', (req r').scope = some σ → Active st r' → r' = r) ∧ ∀ row ∈ st.cache.rows, row.scope ≠ σ) :
    Inv req σ (st.goto r phase) := by
  have hsame (r' : ι) (response : Response) : Stored (st.goto r phase) r' response ↔ Stored st r' response := by
    by_cases hr' : r' = r
    · subst hr'
      exact hstored response
    · rw [Stored, Stored, goto_phase_of_ne _ _ _ hr']
  have hother {r' : ι} (hr' : r' ≠ r) : Active (st.goto r phase) r' ↔ Active st r' := by
    rw [Active, Active, goto_phase_of_ne _ _ _ hr']
  refine ⟨fun row hrow hs => ?_, fun r' response hr' hs => ?_, fun r' response d hr' hp => ?_,
    fun r' response hr' hp => ?_, fun r₁ r₂ hr₁ hr₂ ha₁ ha₂ => ?_, fun r' hr' ha => ?_⟩
  · obtain ⟨hrow', hst⟩ := h.cached row hrow hs
    exact ⟨hrow', (hsame _ _).2 hst⟩
  · exact h.stored r' response hr' ((hsame _ _).1 hs)
  · by_cases he : r' = r
    · subst he
      rw [goto_phase_self] at hp
      exact hdurable response d hp
    · rw [goto_phase_of_ne _ _ _ he] at hp
      exact h.durable r' response d hr' hp
  · by_cases he : r' = r
    · subst he
      rw [goto_phase_self] at hp
      obtain ⟨r₂, hr₂, hst⟩ := hreplays response hp
      exact ⟨r₂, hr₂, (hsame _ _).2 hst⟩
    · rw [goto_phase_of_ne _ _ _ he] at hp
      obtain ⟨r₂, hr₂, hst⟩ := h.replays r' response hr' hp
      exact ⟨r₂, hr₂, (hsame _ _).2 hst⟩
  · by_cases h₁ : r₁ = r <;> by_cases h₂ : r₂ = r
    · exact h₁.trans h₂.symm
    · subst h₁
      exact ((hactive ha₁).1 r₂ hr₂ ((hother h₂).1 ha₂)).symm
    · subst h₂
      exact (hactive ha₂).1 r₁ hr₁ ((hother h₁).1 ha₁)
    · exact h.alone r₁ r₂ hr₁ hr₂ ((hother h₁).1 ha₁) ((hother h₂).1 ha₂)
  · by_cases he : r' = r
    · subst he
      exact (hactive ha).2
    · exact h.first r' hr' ((hother he).1 ha)

/-! ### The steps of a request -/

omit [DecidableEq ι] in
theorem hit_eq_some {scope : Scope} (h : st.hit scope now = some response) :
    ∃ row ∈ st.cache.rows, row.scope = scope ∧ row.response = response := by
  simp only [State.hit, Option.map_eq_some_iff, Option.filter_eq_some_iff, Bool.and_eq_true, decide_eq_true_eq] at h
  obtain ⟨row, ⟨hrow, hscope, -⟩, hresponse⟩ := h
  exact ⟨row, Table.mem_of_find? hrow, hscope, hresponse⟩

omit [DecidableEq ι] in
theorem hit_of_mem {row : CachedResponse ι} (hrow : row ∈ st.cache.rows) (hnow : now < row.expiresAt) :
    st.hit row.scope now = some row.response := by
  have hfind := Table.find?_of_mem hrow
  rw [key_cachedResponse] at hfind
  simp [State.hit, hfind, hnow]

/-- A lookup of the scope: what is cached is replayed, and a miss means that nothing is cached. -/
theorem inv_lookup (h : Inv req σ st) (hr : (req r).scope = some σ) (hready : st.phase r = .ready)
    (hlife : InLifetime req σ st (.lookup r now ok)) (hund : Undisturbed req σ st (.lookup r now ok)) :
    Inv req σ (lookup req st r now ok) := by
  obtain ⟨halone, hok⟩ := hund hr hready
  have hstored (phase : Phase) (hkept : ∀ response, phase ≠ .kept response)
      (hfin : ∀ response, phase ≠ .finished response true) (response : Response) :
      Stored (st.goto r phase) r response ↔ Stored st r response := by
    rw [Stored, Stored, goto_phase_self, hready]
    refine iff_of_false ?_ ?_
    · rintro ⟨-, hp | hp⟩
      · exact hkept _ hp
      · exact hfin _ hp
    · rintro ⟨-, hp | hp⟩ <;> cases hp
  unfold lookup
  rw [hr]
  simp only
  split
  · rename_i response hhit
    obtain ⟨row, hrow, hscope, rfl⟩ := hit_eq_some (Option.filter_eq_some_iff.1 hhit).1
    obtain ⟨hprod, hst⟩ := h.cached row hrow hscope
    refine h.goto hr (hstored _ (fun _ => nofun) fun _ => nofun) (fun _ _ => nofun) (fun response hp => ?_) fun ha => ?_
    · obtain rfl := Phase.replayed.inj hp
      exact ⟨row.producer, hprod, hst⟩
    · rw [Active, goto_phase_self] at ha
      rcases ha with hp | ⟨_, -, hp⟩ <;> cases hp
  · rename_i hmiss
    refine h.goto hr (hstored _ (fun _ => nofun) fun _ => nofun) (fun _ _ => nofun) (fun _ => nofun) fun _ =>
      ⟨fun r' hr' ha => absurd ha (halone r' hr'), fun row hrow hscope => ?_⟩
    -- a row of the scope has not expired and holds a 2xx, so the lookup would have found it
    subst hscope
    have hcode : row.response.ok = true := (h.cached row hrow rfl).2.1
    rw [hit_of_mem hrow (hlife hr row hrow rfl)] at hmiss
    have hnonzero : row.response.code ≠ 0 := by
      simp only [Response.ok, Bool.and_eq_true, decide_eq_true_eq] at hcode
      omega
    rcases hok with rfl | hno
    · simp [hnonzero] at hmiss
    · exact hno row hrow rfl

theorem inv_handle (h : Inv req σ st) (hr : (req r).scope = some σ) (hmissed : st.phase r = .missed) :
    Inv req σ (st.goto r (.answered response)) := by
  have hactive : Active st r := .inl hmissed
  refine h.goto hr (fun response' => ?_) (fun _ _ => nofun) (fun _ => nofun) fun _ =>
    ⟨fun r' hr' ha => h.alone r' r hr' hr ha hactive, h.first r hr hactive⟩
  rw [Stored, Stored, goto_phase_self, hmissed]
  refine iff_of_false ?_ ?_ <;> rintro ⟨-, hp | hp⟩ <;> cases hp

theorem inv_kept_of_not_ok (h : Inv req σ st) (hr : (req r).scope = some σ)
    (hanswered : st.phase r = .answered response) (hok : response.ok = false) :
    Inv req σ (st.goto r (.kept response)) := by
  refine h.goto hr (fun response' => ?_) (fun _ _ => nofun) (fun _ => nofun) fun ha => ?_
  · rw [Stored, Stored, goto_phase_self, hanswered]
    refine iff_of_false ?_ ?_
    · rintro ⟨hok', hp | hp⟩
      · obtain rfl := Phase.kept.inj hp
        rw [hok] at hok'
        cases hok'
      · cases hp
    · rintro ⟨-, hp | hp⟩ <;> cases hp
  · rw [Active, goto_phase_self] at ha
    rcases ha with hp | ⟨_, -, hp⟩ <;> cases hp

omit [DecidableEq ι] in
theorem Inv.not_stored {r' : ι} (h : Inv req σ st) (hr : (req r).scope = some σ) (hactive : Active st r)
    (hr' : (req r').scope = some σ) : ¬ Stored st r' response := by
  intro hst
  obtain ⟨row, hrow, hscope, -⟩ := h.stored r' response hr' hst
  exact h.first r hr hactive row hrow hscope

/-- A 2xx is cached under the free key: from now on it is stored. -/
theorem inv_kept_of_ok (h : Inv req σ st) (hr : (req r).scope = some σ) (hanswered : st.phase r = .answered response)
    (hok : response.ok = true) (hfree : st.cache.find? σ.key = none) :
    Inv req σ ((st.insert ⟨σ, response, now + ttlMs, r⟩).goto r (.kept response)) := by
  have hactive : Active st r := .inr ⟨response, hok, hanswered⟩
  obtain ⟨cache', hins⟩ := Table.insert?_of_find? (t := st.cache) (a := ⟨σ, response, now + ttlMs, r⟩) hfree
  have hrows : cache'.rows = st.cache.rows ++ [⟨σ, response, now + ttlMs, r⟩] := (Table.insert?_eq_some_iff.1 hins).2
  have hstate : st.insert ⟨σ, response, now + ttlMs, r⟩ = { st with cache := cache' } := by
    rw [State.insert, hins]
    rfl
  rw [hstate]
  have hself : Stored (State.goto { st with cache := cache' } r (.kept response)) r response :=
    ⟨hok, .inl (goto_phase_self ..)⟩
  have hquiet {r' : ι} (hr' : (req r').scope = some σ) :
      ¬ Active (State.goto { st with cache := cache' } r (.kept response)) r' := by
    intro ha
    by_cases he : r' = r
    · subst he
      rw [Active, goto_phase_self] at ha
      rcases ha with hp | ⟨_, -, hp⟩ <;> cases hp
    · rw [Active, goto_phase_of_ne _ _ _ he] at ha
      exact he (h.alone r' r hr' hr ha hactive)
  refine ⟨fun row hrow hs => ?_, fun r' response' hr' hs => ?_, fun r' response' d hr' hp => ?_,
    fun r' response' hr' hp => ?_, fun r₁ _ hr₁ _ ha₁ => absurd ha₁ (hquiet hr₁),
    fun r' hr' ha => absurd ha (hquiet hr')⟩
  · rw [goto_cache, hrows, List.mem_append, List.mem_singleton] at hrow
    rcases hrow with hrow | rfl
    · exact absurd hs (h.first r hr hactive row hrow)
    · exact ⟨hr, hself⟩
  · by_cases he : r' = r
    · subst he
      exact ⟨⟨σ, response, now + ttlMs, r'⟩, by rw [goto_cache, hrows]; simp, rfl, rfl⟩
    · rw [Stored, goto_phase_of_ne _ _ _ he] at hs
      exact absurd hs (h.not_stored hr hactive hr')
  · exact h.durable r' response' d hr' (phase_of_goto hp nofun)
  · obtain ⟨r₂, hr₂, hst⟩ := h.replays r' response' hr' (phase_of_goto hp nofun)
    exact absurd hst (h.not_stored hr hactive hr₂)

theorem inv_close (h : Inv req σ st) (hr : (req r).scope = some σ) (hkept : st.phase r = .kept response)
    (hcommit : response.ok = true → ok = true) : Inv req σ (close st r response ok) := by
  have hdurable : response.ok = true → (ok && decide (response.code < 500)) = true := by
    intro hok
    have hcode := hok
    simp only [Response.ok, Bool.and_eq_true, decide_eq_true_eq] at hcode
    have : response.code < 500 := by omega
    simp [hcommit hok, this]
  refine h.goto hr (fun response' => ?_) (fun response' d hp hok => ?_) (fun _ => nofun) fun ha => ?_
  · rw [Stored, Stored, goto_phase_self, hkept]
    refine and_congr_right fun hok => ?_
    constructor
    · rintro (hp | hp)
      · cases hp
      · exact .inl (by rw [(Phase.finished.inj hp).1])
    · rintro (hp | hp)
      · obtain rfl := Phase.kept.inj hp
        exact .inr (by rw [hdurable hok])
      · cases hp
  · obtain ⟨rfl, rfl⟩ := Phase.finished.inj hp
    exact hdurable hok
  · rw [Active, goto_phase_self] at ha
    rcases ha with hp | ⟨_, -, hp⟩ <;> cases hp

/-! ### All steps -/

theorem inv_goto_other {phase : Phase} (h : Inv req σ st) (hr : (req r).scope ≠ some σ) :
    Inv req σ (st.goto r phase) := by
  refine h.congr (fun r' hr' => goto_phase_of_ne _ _ _ ?_) fun _ _ => Iff.rfl
  rintro rfl
  exact hr hr'

omit [DecidableEq ι] in
theorem inv_insert_other {row : CachedResponse ι} (h : Inv req σ st) (hrow : row.scope ≠ σ) :
    Inv req σ (st.insert row) := by
  refine h.congr (fun _ _ => rfl) fun row' hrow' => ?_
  unfold State.insert
  cases hins : st.cache.insert? row with
  | none => rfl
  | some cache' =>
    simp only [Option.getD_some, (Table.insert?_eq_some_iff.1 hins).2, List.mem_append, List.mem_singleton,
      or_iff_left_iff_imp]
    rintro rfl
    exact absurd hrow' hrow

theorem inv_prune (h : Inv req σ st) (hlife : InLifetime req σ st (.prune now)) :
    Inv req σ (step req st (.prune now)) := by
  refine h.congr (fun _ _ => rfl) fun row hrow => ?_
  simp only [step, List.mem_filter, decide_eq_true_eq, and_iff_left_iff_imp]
  exact fun hmem => hlife row hmem hrow

theorem inv_lookup_other (h : Inv req σ st) (hr : (req r).scope ≠ some σ) : Inv req σ (lookup req st r now ok) := by
  unfold lookup
  split
  · exact inv_goto_other h hr
  · split <;> exact inv_goto_other h hr

theorem inv_offer_other (h : Inv req σ st) (hr : (req r).scope ≠ some σ) :
    Inv req σ (offer req st r response now ok) := by
  unfold offer
  split
  · exact inv_goto_other h hr
  · rename_i scope hscope
    split
    · refine inv_goto_other (inv_insert_other h fun hσ => hr ?_) hr
      rw [hscope]
      exact congrArg some hσ
    · exact inv_goto_other h hr

theorem inv_offer (h : Inv req σ st) (hr : (req r).scope = some σ) (hanswered : st.phase r = .answered response)
    (hund : Undisturbed req σ st (.insert r now ok)) : Inv req σ (offer req st r response now ok) := by
  unfold offer
  rw [hr]
  simp only
  cases hok : response.ok with
  | false =>
    simp only [Bool.false_and, Bool.false_eq_true, if_false]
    exact inv_kept_of_not_ok h hr hanswered hok
  | true =>
    obtain ⟨rfl, hfree⟩ := hund hr response hanswered hok
    simp only [Bool.and_self, if_true]
    exact inv_kept_of_ok h hr hanswered hok hfree

/-- **One step** keeps the invariant. -/
theorem inv_step {e : Event ι} (h : Inv req σ st) (hlife : InLifetime req σ st e) (hund : Undisturbed req σ st e) :
    Inv req σ (step req st e) := by
  cases e with
  | prune now => exact inv_prune h hlife
  | lookup r now ok =>
    simp only [step]
    split
    · rename_i hready
      by_cases hr : (req r).scope = some σ
      · exact inv_lookup h hr hready hlife hund
      · exact inv_lookup_other h hr
    · exact h
  | handle r response =>
    simp only [step]
    split
    · rename_i hmissed
      by_cases hr : (req r).scope = some σ
      · exact inv_handle h hr hmissed
      · exact inv_goto_other h hr
    · exact h
  | insert r now ok =>
    simp only [step]
    split
    · rename_i response hanswered
      by_cases hr : (req r).scope = some σ
      · exact inv_offer h hr hanswered hund
      · exact inv_offer_other h hr
    · exact h
  | commit r ok =>
    simp only [step]
    split
    · rename_i response hkept
      by_cases hr : (req r).scope = some σ
      · exact inv_close h hr hkept (hund hr response hkept)
      · exact inv_goto_other h hr
    · exact h

/-- **A key runs its request once.** In every run of any number of requests in which the key is used within its life
time and no request of the scope gets in the way of another, at every moment: at most one request of the scope has
executed the handler with a 2xx, every other one that is answered with a 2xx replays that response, and a cached
response belongs to a request whose writes are durable or whose transaction is still open. -/
theorem runs_once (req : ι → Request) (σ : Scope) (es : List (Event ι))
    (h : AllSteps (step req) (fun st e => InLifetime req σ st e ∧ Undisturbed req σ st e) (init ι) es) :
    ∀ p q, es = p ++ q → RunsOnce req σ (run (step req) (init ι) p) := by
  rintro p q rfl
  refine Inv.runsOnce (run_invariant ?_ inv_init (allSteps_append.1 h).1)
  rintro st e hinv ⟨hlife, hund⟩
  exact inv_step hinv hlife hund

/-! ### Two retries -/

def retry : Bool → Request := fun _ =>
  { idempotencyKey := "k", tenantId := some "t1", userId := "u1", path := "/api/v1/bookings" }

def retryScope : Scope := ⟨"k", "t1", "u1", "/api/v1/bookings"⟩

def booked (id : String) : Response := ⟨201, id⟩

def oneAfterTheOther : List (Event Bool) :=
  [.lookup false 0 true, .handle false (booked "a"), .insert false 1 true, .commit false true, .lookup true 2 true]

theorem runs_once_retry :
    (run (step retry) (init Bool) oneAfterTheOther).phase true = .replayed (booked "a") ∧
      ∀ p q, oneAfterTheOther = p ++ q → RunsOnce retry retryScope (run (step retry) (init Bool) p) := by
  refine ⟨by decide, runs_once retry retryScope oneAfterTheOther ?_⟩
  refine ⟨⟨fun _ row hrow => (nomatch hrow), fun _ _ => ⟨fun r _ ha => ?_, .inl rfl⟩⟩, ⟨trivial, trivial⟩,
    ⟨trivial, fun _ _ _ _ => ⟨rfl, rfl⟩⟩, ⟨trivial, fun _ _ _ _ => rfl⟩,
    ⟨fun _ row hrow _ => ?_, fun _ _ => ⟨fun r _ ha => ?_, .inl rfl⟩⟩, trivial⟩
  · rcases ha with hp | ⟨_, -, hp⟩ <;> cases hp
  · obtain rfl : row = ⟨retryScope, booked "a", 1 + ttlMs, false⟩ := List.mem_singleton.1 hrow
    decide
  · cases r <;> rcases ha with hp | ⟨_, -, hp⟩ <;> cases hp

def atTheSameTime : List (Event Bool) :=
  [.lookup false 0 true, .lookup true 0 true, .handle false (booked "a"), .handle true (booked "b"),
    .insert false 1 true, .insert true 1 true, .commit false true, .commit true true]

theorem two_retries_book_twice :
    ¬ ∀ p q, atTheSameTime = p ++ q → RunsOnce retry retryScope (run (step retry) (init Bool) p) := by
  intro h
  have honce := (h atTheSameTime [] (by simp)).once false true (booked "a") (booked "b") rfl rfl
    ⟨rfl, .inr (.inr (by decide))⟩ ⟨rfl, .inr (.inr (by decide))⟩
  cases honce

end BookingSystem.Concurrency.IdempotencyKeys
