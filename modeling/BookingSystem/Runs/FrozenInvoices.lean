import BookingSystem.Base.Run
import BookingSystem.Model.Invoices

/-!
# Issued invoices

An invoice that is issued or paid should keep its figures, and every invoice should add up. The first statement of a
rollup writes over invoices of any status and the second one leaves out those that are no drafts, so both hold as long
as no rollup finds other sums for an invoice that is no draft (`sound_of_unchanged`).
-/

namespace BookingSystem.Runs.FrozenInvoices

open Base Model.Invoices
open Model.AuditChain (PgUuid)

/-- The total is the sum of the subtotal and the tax. -/
def AddsUp (i : Invoice) : Prop := i.total = .cents i.subtotal + i.tax

instance (i : Invoice) : Decidable (AddsUp i) := by unfold AddsUp; infer_instance

def figures (i : Invoice) : ℤ × Numeric × Numeric × ℕ := (i.subtotal, i.tax, i.total, i.lineCount)

/-- What may become of an invoice: if it is issued or paid it stays so, with its figures. -/
def Frozen (i j : Invoice) : Prop := i.status ≠ .draft → j.status ≠ .draft ∧ j.id = i.id ∧ figures j = figures i

instance (i j : Invoice) : Decidable (Frozen i j) := by unfold Frozen; infer_instance

def opened (activity : Activity) : Store := ⟨activity, .empty⟩

/-- **Issued invoices are frozen and all invoices add up**, after a run and at every point of it. -/
def Sound (activity : Activity) (es : List Event) : Prop :=
  ∀ p q, es = p ++ q →
    (∀ i ∈ (run step (opened activity) p).invoices.rows, AddsUp i) ∧
      Table.Evolves Frozen (run step (opened activity) p).invoices (run step (opened activity) es).invoices

/-- The sums of an invoice that is no draft are those of the month's activity in its cost centre, if there is any. -/
def Agrees (a : Activity) (tenantId : PgUuid) (m : Month) (i : Invoice) : Prop :=
  i.tenantId = tenantId → i.periodStart = m.start → i.status ≠ .draft → i.costCentre ∈ a.centres tenantId m →
    a.subtotal tenantId m i.costCentre = i.subtotal ∧ a.lineCount tenantId m i.costCentre = i.lineCount

/-- **A rollup that changes no issued invoice**: for each invoice of the tenant and month that is no draft and whose
cost centre has activity, the sums are still those that the invoice states. -/
def Unchanged (s : Store) : Event → Prop
  | .rollup req => ∀ tenantId ∈ req.tenantId,
      ∀ m ∈ parseMonth (if req.month = "" then req.thisMonth else req.month),
        ∀ i ∈ s.invoices.rows, Agrees s.activity tenantId m i
  | .setStatus _ | .change _ => True

instance (a : Activity) (tenantId : PgUuid) (m : Month) (i : Invoice) : Decidable (Agrees a tenantId m i) := by
  unfold Agrees; infer_instance

instance (s : Store) (e : Event) : Decidable (Unchanged s e) := by
  cases e <;> unfold Unchanged <;> infer_instance

/-! ### One invoice -/

theorem frozen_refl (i : Invoice) : Frozen i i := fun h => ⟨h, rfl, rfl⟩

theorem frozen_trans (i j k : Invoice) (hij : Frozen i j) (hjk : Frozen j k) : Frozen i k := by
  intro hi
  obtain ⟨hj, hid, hfig⟩ := hij hi
  obtain ⟨hk, hid', hfig'⟩ := hjk hj
  exact ⟨hk, hid'.trans hid, hfig'.trans hfig⟩

theorem taxed_addsUp {rate : Rate} {i j : Invoice} (h : taxed rate i = some j) : AddsUp j := by
  simp only [taxed, Option.bind_eq_bind, Option.bind_eq_some_iff, Option.pure_def, Option.some.injEq] at h
  obtain ⟨tax, -, total, htotal, rfl⟩ := h
  unfold totalOf at htotal
  show total = Numeric.cents i.subtotal + tax
  split at htotal
  · rename_i c hc
    rw [hc]
    split at htotal
    · exact (Option.some.inj htotal).symm
    · cases htotal
  · rename_i hnan
    rw [hnan]
    exact (Option.some.inj htotal).symm

/-! ### The first statement -/

section rollup

variable {a : Activity} {tenantId : PgUuid} {m : Month} {newId : String → PgUuid} {t t' : Table Invoice}
  {centre : String}

theorem upsert_cases (h : upsert a tenantId m newId t centre = some t') :
    (∃ i, t.find? (tenantId, centre, m.start) = some i ∧ t' = t.save { i with
        subtotal := a.subtotal tenantId m centre
        lineCount := a.lineCount tenantId m centre
        periodEnd := m.stop }) ∨
      ∃ i, i.tenantId = tenantId ∧ i.periodStart = m.start ∧ i.status = .draft ∧ t.insert? i = some t' := by
  unfold upsert at h
  split at h
  · split at h
    · rename_i i hi
      exact .inl ⟨i, hi, (Option.some.inj h).symm⟩
    · exact .inr ⟨_, rfl, rfl, rfl, h⟩
  · cases h

/-- The state of the invoices between the two statements: none that is no draft has changed, their sums are those of the
activity, and those of other months add up. -/
structure Midway (a : Activity) (tenantId : PgUuid) (m : Month) (t₀ t : Table Invoice) : Prop where
  evolves : Table.Evolves Frozen t₀ t
  agrees : ∀ i ∈ t.rows, Agrees a tenantId m i
  addsUp : ∀ i ∈ t.rows, isDraftOf tenantId m i = false → AddsUp i

theorem midway_upsert {t₀ : Table Invoice} (hmid : Midway a tenantId m t₀ t) (hcentre : centre ∈ a.centres tenantId m)
    (h : upsert a tenantId m newId t centre = some t') : Midway a tenantId m t₀ t' := by
  rcases upsert_cases h with ⟨i, hi, rfl⟩ | ⟨i, htenant, hstart, hdraft, hinsert⟩
  · have hkey := Table.key_of_find? hi
    obtain ⟨rfl, rfl, hstart⟩ : i.tenantId = tenantId ∧ i.costCentre = centre ∧ i.periodStart = m.start := by
      simpa using hkey
    -- the sums that are written over an invoice that is no draft are its own
    have hsame : i.status ≠ .draft →
        a.subtotal i.tenantId m i.costCentre = i.subtotal ∧ a.lineCount i.tenantId m i.costCentre = i.lineCount :=
      fun hsealed => hmid.agrees i (Table.mem_of_find? hi) rfl hstart hsealed hcentre
    refine ⟨hmid.evolves.trans frozen_trans (Table.evolves_save frozen_refl (hstart ▸ hi) fun hsealed => ?_),
      fun j hj => ?_, fun j hj hother => ?_⟩
    · exact ⟨hsealed, rfl, by simp [figures, hsame hsealed]⟩
    · rcases Table.mem_save.1 hj with ⟨rfl, -⟩ | ⟨hj, -⟩
      · exact fun _ _ _ _ => ⟨rfl, rfl⟩
      · exact hmid.agrees j hj
    · rcases Table.mem_save.1 hj with ⟨rfl, -⟩ | ⟨hj, -⟩
      · have hsealed : i.status ≠ .draft := by simpa [isDraftOf, hstart] using hother
        have hadds := hmid.addsUp i (Table.mem_of_find? hi) hother
        rw [AddsUp] at hadds ⊢
        simpa [(hsame hsealed).1] using hadds
      · exact hmid.addsUp j hj hother
  · have hrows := (Table.insert?_eq_some_iff.1 hinsert).2
    refine ⟨hmid.evolves.trans frozen_trans (Table.evolves_insert? frozen_refl hinsert), fun j hj => ?_,
      fun j hj hother => ?_⟩
    · rw [hrows, List.mem_append, List.mem_singleton] at hj
      rcases hj with hj | rfl
      · exact hmid.agrees j hj
      · exact fun _ _ hsealed => absurd hdraft hsealed
    · rw [hrows, List.mem_append, List.mem_singleton] at hj
      rcases hj with hj | rfl
      · exact hmid.addsUp j hj hother
      · simp [isDraftOf, htenant, hstart, hdraft] at hother

theorem midway_upserts {t₀ : Table Invoice} {centres : List String} (hmid : Midway a tenantId m t₀ t)
    (hcentres : ∀ c ∈ centres, c ∈ a.centres tenantId m)
    (h : centres.foldlM (upsert a tenantId m newId) t = some t') : Midway a tenantId m t₀ t' := by
  induction centres generalizing t with
  | nil =>
    obtain rfl := Option.some.inj h
    exact hmid
  | cons c centres ih =>
    rw [List.foldlM_cons, Option.bind_eq_bind, Option.bind_eq_some_iff] at h
    obtain ⟨t₁, h₁, h₂⟩ := h
    have hmid₁ := midway_upsert hmid (hcentres c List.mem_cons_self) h₁
    exact ih hmid₁ (fun c' hc' => hcentres c' (List.mem_cons_of_mem _ hc')) h₂

/-! ### The second statement -/

theorem midway_applyTax {t₀ : Table Invoice} {rate : Rate} (hmid : Midway a tenantId m t₀ t)
    (h : applyTax rate tenantId m t = some t') : Table.Evolves Frozen t₀ t' ∧ ∀ i ∈ t'.rows, AddsUp i := by
  unfold applyTax at h
  split at h
  · rename_i hall
    obtain rfl := Option.some.inj h
    constructor
    · refine hmid.evolves.trans frozen_trans (Table.evolves_update frozen_refl _ fun i _ hdraft hsealed => ?_)
      simp only [isDraftOf, Bool.and_eq_true, beq_iff_eq] at hdraft
      exact absurd hdraft.2 hsealed
    · intro j hj
      rw [Table.rows_update, List.mem_map] at hj
      obtain ⟨i, hi, rfl⟩ := hj
      by_cases hdraft : isDraftOf tenantId m i = true
      · have hsome := List.all_eq_true.1 hall i hi
        rw [hdraft, Bool.not_true, Bool.false_or, Option.isSome_iff_exists] at hsome
        obtain ⟨j, hj⟩ := hsome
        rw [if_pos hdraft, hj]
        exact taxed_addsUp hj
      · rw [if_neg hdraft]
        exact hmid.addsUp i hi (by simpa using hdraft)
  · cases h

end rollup

/-! ### Runs -/

variable {s : Store}

theorem rollup_sound {req : RollupRequest} {r : Store × RollupReply} (hadds : ∀ i ∈ s.invoices.rows, AddsUp i)
    (hC : Unchanged s (.rollup req)) (h : runRollup s req = .ok r) :
    Table.Evolves Frozen s.invoices r.1.invoices ∧ ∀ i ∈ r.1.invoices.rows, AddsUp i := by
  simp only [runRollup, bind_eq_ok, found_eq_ok, pure_eq_ok] at h
  obtain ⟨tid, htid, m, hm, -, -, t₁, h₁, t₂, h₂, rfl⟩ := h
  have hstart : Midway s.activity tid m s.invoices s.invoices :=
    ⟨.refl frozen_refl _, hC tid htid m hm, fun i hi _ => hadds i hi⟩
  exact midway_applyTax (midway_upserts hstart (fun _ hc => hc) h₁) h₂

theorem setStatus_sound {req : StatusRequest} {r : Store × Unit} (hadds : ∀ i ∈ s.invoices.rows, AddsUp i)
    (h : setStatus s req = .ok r) :
    Table.Evolves Frozen s.invoices r.1.invoices ∧ ∀ i ∈ r.1.invoices.rows, AddsUp i := by
  simp only [setStatus, bind_eq_ok, found_eq_ok, pure_eq_ok] at h
  obtain ⟨-, -, tid, -, uid, -, rfl⟩ := h
  have hmark : ∀ i : Invoice, Frozen i (req.marking.mark req.now i) ∧
      (AddsUp i → AddsUp (req.marking.mark req.now i)) := fun i => by
    cases req.marking <;> exact ⟨fun _ => ⟨by simp [Marking.mark], rfl, rfl⟩, id⟩
  refine ⟨Table.evolves_update frozen_refl (req.marking.key_mark req.now) fun i _ _ => (hmark i).1, fun j hj => ?_⟩
  rw [Table.rows_update, List.mem_map] at hj
  obtain ⟨i, hi, rfl⟩ := hj
  split
  · exact (hmark i).2 (hadds i hi)
  · exact hadds i hi

theorem step_sound {e : Event} (hadds : ∀ i ∈ s.invoices.rows, AddsUp i) (hC : Unchanged s e) :
    Table.Evolves Frozen s.invoices (step s e).invoices ∧ ∀ i ∈ (step s e).invoices.rows, AddsUp i := by
  have hsame : Table.Evolves Frozen s.invoices s.invoices ∧ ∀ i ∈ s.invoices.rows, AddsUp i :=
    ⟨.refl frozen_refl _, hadds⟩
  cases e with
  | rollup req =>
    exact settle_induction (P := fun s' : Store => Table.Evolves Frozen s.invoices s'.invoices ∧ ∀ i ∈ s'.invoices.rows,
      AddsUp i) hsame fun r hr => rollup_sound hadds hC hr
  | setStatus req =>
    exact settle_induction (P := fun s' : Store => Table.Evolves Frozen s.invoices s'.invoices ∧ ∀ i ∈ s'.invoices.rows,
      AddsUp i) hsame fun r hr => setStatus_sound hadds hr
  | change activity => exact hsame

/-- **Frozen and adding up.** Over every run whose rollups find no other sums for an invoice that is issued or paid, all
invoices add up at every point, and what is issued never changes. -/
theorem sound_of_unchanged {activity : Activity} {es : List Event}
    (h : AllSteps step Unchanged (opened activity) es) : Sound activity es := by
  rintro p q rfl
  obtain ⟨hp, hq⟩ := allSteps_append.1 h
  have hadds : ∀ i ∈ (run step (opened activity) p).invoices.rows, AddsUp i :=
    run_invariant (I := fun s => ∀ i ∈ s.invoices.rows, AddsUp i) (fun s e hs hC => (step_sound hs hC).2)
      (fun i hi => absurd hi List.not_mem_nil) hp
  refine ⟨hadds, ?_⟩
  have htrans : ∀ s s' s'' : Store, Table.Evolves Frozen s.invoices s'.invoices →
      Table.Evolves Frozen s'.invoices s''.invoices → Table.Evolves Frozen s.invoices s''.invoices :=
    fun _ _ _ h h' => h.trans frozen_trans h'
  rw [run_append]
  exact run_related (R := fun s s' : Store => Table.Evolves Frozen s.invoices s'.invoices)
    (fun s => .refl frozen_refl _) htrans (fun s e hs hC => (step_sound hs hC).2)
    (fun s e hs hC => (step_sound hs hC).1) hadds hq

/-! ### One invoice, rolled up twice -/

def uuid (d : Fin 16) : PgUuid := ⟨List.replicate 32 d, rfl⟩

def charging (price : ℤ) : Activity where
  bookings := ⟨[⟨uuid 2, uuid 1, none, 19723 * dayMs, .confirmed⟩], by decide⟩
  bookingServices := ⟨[⟨uuid 2, uuid 3, 1⟩], by decide⟩
  services := ⟨[⟨uuid 3, some price⟩], by simp⟩

def january : RollupRequest := { tenantId := some (uuid 1), month := "2024-01", newId := fun _ => uuid 4 }

def issuing : List Event :=
  [.rollup january, .setStatus { tenantId := some (uuid 1), id := (uuid 4).text, marking := .issue }]

theorem sound_of_unchanged_issuing : Sound (charging 10000) (issuing ++ [.rollup january]) :=
  sound_of_unchanged ⟨by decide +kernel, by decide +kernel, by decide +kernel, trivial⟩

/-- A later rollup finds another price: the issued invoice states 200.00 with a total of 100.00. -/
theorem issued_overwritten :
    ¬ Sound (charging 10000) (issuing ++ [.change (charging 20000), .rollup january]) := by
  intro h
  have hadds := (h _ [] (List.append_nil _).symm).1
  revert hadds
  decide +kernel

end BookingSystem.Runs.FrozenInvoices
