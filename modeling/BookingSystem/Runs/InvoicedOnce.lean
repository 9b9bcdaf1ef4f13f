import BookingSystem.Base.Grouping
import BookingSystem.Base.Run
import BookingSystem.Model.Rollup

/-!
# Nothing is invoiced twice

A rollup collects all lines of its period, those of issued invoices among them, and draws up drafts for them. A line
stays on one invoice as long as no rollup collects a line that has been issued and stands on an invoice that is not
replaced, and no invoice with a line that stands on another one leaves its draft (`invoiced_once`).
-/

namespace BookingSystem.Runs.InvoicedOnce

open Base Model.Rollup
open Model (Uuid)

/-! ### Histories -/

/-- The lines of invoices that are no drafts. -/
def sealedLines (t : Table Invoice) : List Uuid :=
  (t.rows.filter fun i => decide (i.status ≠ .draft)).flatMap Invoice.sources

/-- The store, with the lines that have stood on an invoice that was no draft. -/
structure History where
  store : Store
  issued : List Uuid

def track (h : History) (e : Event) : History :=
  ⟨step h.store e, h.issued ++ sealedLines (step h.store e).invoices⟩

def opened (activity : Activity) : History := ⟨⟨activity, .empty⟩, []⟩

def charging (line : Uuid) (t : Table Invoice) : List Invoice := t.rows.filter fun i => decide (line ∈ i.sources)

/-- **Nothing is invoiced twice**: a line is on one invoice of a period that is no draft, and on one invoice at all once
it has been issued. -/
def Once (h : History) : Prop :=
  ∀ line, (∀ period, ((charging line h.store.invoices).filter fun i =>
      decide (i.period = period ∧ i.status ≠ .draft)).length ≤ 1) ∧
    (line ∈ h.issued → (charging line h.store.invoices).length ≤ 1)

/-- **The calls that keep it so.** No line that a rollup collects has been issued and stands on an invoice that is not
replaced; an invoice that leaves its draft has no line that stands on another one. -/
def Fresh (h : History) : Event → Prop
  | .rollup req => ∀ r ∈ collected h.store.activity req, r.id ∈ h.issued →
      ∀ i ∈ charging r.id h.store.invoices, isDraftOf req.tenantId req.period i = true
  | .setStatus req => req.status ≠ .draft → ∀ i ∈ h.store.invoices.rows, i.id = req.id → i.tenantId = req.tenantId →
      ∀ line ∈ i.sources, ∀ j ∈ charging line h.store.invoices, j = i
  | .remove _ _ | .change _ => True

instance (h : History) (e : Event) : Decidable (Fresh h e) := by
  cases e <;> unfold Fresh <;> infer_instance

/-! ### Buckets -/

def lineIds (buckets : Buckets) : List Uuid := buckets.flatMap fun b => b.2.map JoinedRow.id

def bucketOf (r : JoinedRow) : String := r.departmentId.getD "__none__"

theorem bucketed_eq (rows : List JoinedRow) : bucketed rows = grouped bucketOf (unseen JoinedRow.id [] rows) := by
  have hinv : ∀ (buckets : Buckets) (seen : List Uuid), (rows.foldl bucketRow (buckets, seen)).1 =
      (unseen JoinedRow.id seen rows).foldl (fun gs r => pushRow gs (bucketOf r) r) buckets := by
    induction rows with
    | nil => exact fun _ _ => rfl
    | cons r rows ih =>
      intro buckets seen
      rw [List.foldl_cons, bucketRow, unseen]
      split
      · exact ih buckets seen
      · exact ih _ _
  exact hinv [] []

theorem bucketed_spec (rows : List JoinedRow) :
    (lineIds (bucketed rows)).Nodup ∧ ∀ line, line ∈ lineIds (bucketed rows) ↔ ∃ r ∈ rows, r.id = line := by
  have hperm : (lineIds (bucketed rows)).Perm ((unseen JoinedRow.id [] rows).map JoinedRow.id) := by
    rw [lineIds, bucketed_eq, ← List.map_flatMap]
    exact (flatMap_grouped bucketOf _).map JoinedRow.id
  refine ⟨hperm.nodup_iff.2 (nodup_unseen _ _ _), fun line => hperm.mem_iff.trans ?_⟩
  constructor
  · intro hline
    obtain ⟨r, hr, rfl⟩ := List.mem_map.1 hline
    exact ⟨r, (mem_of_unseen hr).1, rfl⟩
  · rintro ⟨r, hr, rfl⟩
    have hfirst : ∃ r' ∈ unseen JoinedRow.id [] rows, r'.id = r.id := exists_unseen hr List.not_mem_nil
    exact List.mem_map.2 hfirst

theorem sources_draftOf (req : RollupRequest) (n : ℕ) (b : String × List JoinedRow) :
    (draftOf req n b).sources = b.2.map JoinedRow.id := by
  simp only [Invoice.sources, draftOf, List.map_map]
  rfl

/-- The drafts of a rollup. -/
def drafts (req : RollupRequest) (buckets : Buckets) (n : ℕ) : List Invoice :=
  (buckets.zipIdx n).map fun b => draftOf req b.2 b.1

theorem mem_lineIds_of_drafts {req : RollupRequest} {buckets : Buckets} {n : ℕ} {line : Uuid} {i : Invoice}
    (hi : i ∈ drafts req buckets n) (hline : line ∈ i.sources) : line ∈ lineIds buckets := by
  obtain ⟨b, hb, rfl⟩ := List.mem_map.1 hi
  rw [sources_draftOf] at hline
  exact List.mem_flatMap.2 ⟨b.1, List.fst_mem_of_mem_zipIdx hb, hline⟩

/-- Two drafts of a rollup share no line. -/
theorem draft_unique {req : RollupRequest} {buckets : Buckets} {n : ℕ} {line : Uuid} {i j : Invoice}
    (hnodup : (lineIds buckets).Nodup) (hi : i ∈ drafts req buckets n) (hj : j ∈ drafts req buckets n)
    (hline : line ∈ i.sources) (hline' : line ∈ j.sources) : i = j := by
  induction buckets generalizing n with
  | nil => exact absurd hi List.not_mem_nil
  | cons b buckets ih =>
    rw [lineIds, List.flatMap_cons, List.nodup_append] at hnodup
    obtain ⟨-, hrest, hapart⟩ := hnodup
    have hhead : line ∈ (draftOf req n b).sources → ∀ k ∈ drafts req buckets (n + 1), line ∉ k.sources := by
      intro hb k hk hk'
      rw [sources_draftOf] at hb
      exact hapart line hb line (mem_lineIds_of_drafts hk hk') rfl
    rw [drafts, List.zipIdx_cons, List.map_cons, List.mem_cons] at hi hj
    rcases hi with rfl | hi <;> rcases hj with rfl | hj
    · rfl
    · exact (hhead hline j hj hline').elim
    · exact (hhead hline' i hi hline).elim
    · exact ih hrest hi hj

/-! ### One step -/

theorem mem_charging {line : Uuid} {t : Table Invoice} {i : Invoice} :
    i ∈ charging line t ↔ i ∈ t.rows ∧ line ∈ i.sources := by
  rw [charging, List.mem_filter, decide_eq_true_eq]

/-- What keeps every line on one invoice. -/
structure Inv (h : History) : Prop where
  single : ∀ line ∈ h.issued, ∀ i ∈ charging line h.store.invoices, ∀ j ∈ charging line h.store.invoices, i = j
  sealedIssued : ∀ i ∈ h.store.invoices.rows, i.status ≠ .draft → ∀ line ∈ i.sources, line ∈ h.issued

theorem length_le_one {xs : List Invoice} (hnodup : xs.Nodup) (h : ∀ i ∈ xs, ∀ j ∈ xs, i = j) : xs.length ≤ 1 := by
  rcases xs with _ | ⟨i, _ | ⟨j, xs⟩⟩
  · simp
  · simp
  · rw [h i (by simp) j (by simp)] at hnodup
    simp at hnodup

theorem nodup_rows (t : Table Invoice) : t.rows.Nodup := List.Nodup.of_map _ t.nodup

theorem Inv.once {h : History} (hinv : Inv h) : Once h := by
  intro line
  have hnodup : (charging line h.store.invoices).Nodup := (nodup_rows _).filter _
  refine ⟨fun period => length_le_one (hnodup.filter _) fun i hi j hj => ?_,
    fun hline => length_le_one hnodup (hinv.single line hline)⟩
  rw [List.mem_filter, decide_eq_true_eq] at hi hj
  obtain ⟨hrow, hline⟩ := mem_charging.1 hi.1
  exact hinv.single line (hinv.sealedIssued i hrow hi.2.2 line hline) i hi.1 j hj.1

theorem mem_issued_track {h : History} {e : Event} {line : Uuid} : line ∈ (track h e).issued ↔ line ∈ h.issued ∨
    ∃ i ∈ (step h.store e).invoices.rows, i.status ≠ .draft ∧ line ∈ i.sources := by
  simp only [track, sealedLines, List.mem_append, List.mem_flatMap, List.mem_filter, decide_eq_true_eq, and_assoc]

theorem Inv.fewer {h : History} {e : Event} (hinv : Inv h)
    (hrows : ∀ i ∈ (step h.store e).invoices.rows, i ∈ h.store.invoices.rows) : Inv (track h e) := by
  have hissued : ∀ line ∈ (track h e).issued, line ∈ h.issued := by
    intro line hline
    rcases mem_issued_track.1 hline with hline | ⟨i, hi, hsealed, hline⟩
    · exact hline
    · exact hinv.sealedIssued i (hrows i hi) hsealed line hline
  have hcharging : ∀ {line i}, i ∈ charging line (track h e).store.invoices → i ∈ charging line h.store.invoices := by
    intro line i hi
    obtain ⟨hrow, hline⟩ := mem_charging.1 hi
    exact mem_charging.2 ⟨hrows i hrow, hline⟩
  exact ⟨fun line hline i hi j hj => hinv.single line (hissued line hline) i (hcharging hi) j (hcharging hj),
    fun i hi hsealed line hline => mem_issued_track.2 (.inr ⟨i, hi, hsealed, hline⟩)⟩

theorem runRollup_rows {s : Store} {req : RollupRequest} {r : Store × List Invoice} (h : runRollup s req = .ok r) :
    r.1.invoices.rows = (s.invoices.rows.filter fun i => !isDraftOf req.tenantId req.period i) ++
      drafts req (bucketed (collected s.activity req)) 0 := by
  simp only [runRollup, bind_eq_ok, found_eq_ok, pure_eq_ok] at h
  obtain ⟨-, -, -, -, t, ht, rfl⟩ := h
  exact Table.insertAll?_eq_some ht

theorem inv_rollup {h : History} {req : RollupRequest} (hinv : Inv h) (hfresh : Fresh h (.rollup req)) :
    Inv (track h (.rollup req)) := by
  cases hrun : runRollup h.store req with
  | error e => exact hinv.fewer fun i hi => by simpa [step, settle, hrun] using hi
  | ok r =>
    have hrows := runRollup_rows hrun
    have hstore : (track h (.rollup req)).store = r.1 := by simp [track, step, hrun]
    obtain ⟨hnodup, hcollected⟩ := bucketed_spec (collected h.store.activity req)
    have hold : ∀ {i}, i ∈ h.store.invoices.rows.filter (fun i => !isDraftOf req.tenantId req.period i) →
        i ∈ h.store.invoices.rows := List.mem_of_mem_filter
    have hissued : ∀ line ∈ (track h (.rollup req)).issued, line ∈ h.issued := by
      intro line hline
      rcases mem_issued_track.1 hline with hline | ⟨i, hi, hsealed, hline⟩
      · exact hline
      · rw [show step h.store (.rollup req) = r.1 from hstore, hrows, List.mem_append] at hi
        rcases hi with hi | hi
        · exact hinv.sealedIssued i (hold hi) hsealed line hline
        · obtain ⟨b, -, rfl⟩ := List.mem_map.1 hi
          exact (hsealed rfl).elim
    -- a line of a new draft stands on no invoice that stays, if it has been issued
    have hapart : ∀ {line i j}, line ∈ h.issued → line ∈ i.sources → line ∈ j.sources →
        i ∈ h.store.invoices.rows.filter (fun i => !isDraftOf req.tenantId req.period i) →
        j ∈ drafts req (bucketed (collected h.store.activity req)) 0 → i = j := by
      intro line i j hline hi hj hkept hnew
      obtain ⟨row, hrow, rfl⟩ := (hcollected line).1 (mem_lineIds_of_drafts hnew hj)
      have hdraft := hfresh row hrow hline i (mem_charging.2 ⟨hold hkept, hi⟩)
      simp [hdraft] at hkept
    constructor
    · intro line hline i hi j hj
      have hline' := hissued line hline
      rw [hstore, mem_charging, hrows, List.mem_append] at hi hj
      obtain ⟨hi | hi, hiline⟩ := hi <;> obtain ⟨hj | hj, hjline⟩ := hj
      · exact hinv.single line hline' i (mem_charging.2 ⟨hold hi, hiline⟩) j (mem_charging.2 ⟨hold hj, hjline⟩)
      · exact hapart hline' hiline hjline hi hj
      · exact (hapart hline' hjline hiline hj hi).symm
      · exact draft_unique hnodup hi hj hiline hjline
    · exact fun i hi hsealed line hline => mem_issued_track.2 (.inr ⟨i, hi, hsealed, hline⟩)

theorem setStatus_rows {s : Store} {req : StatusRequest} {r : Store × Invoice} (h : setStatus s req = .ok r) :
    ∃ inv ∈ s.invoices.rows, inv.id = req.id ∧ inv.tenantId = req.tenantId ∧
      r.1.invoices = s.invoices.save (marked req inv) := by
  simp only [setStatus, Model.Rollup.get, bind_eq_ok, found_eq_ok, pure_eq_ok, Option.filter_eq_some_iff,
    decide_eq_true_eq] at h
  obtain ⟨inv, ⟨hfind, htenant⟩, rfl⟩ := h
  exact ⟨inv, Table.mem_of_find? hfind, Table.key_of_find? hfind, htenant, rfl⟩

theorem inv_setStatus {h : History} {req : StatusRequest} (hinv : Inv h) (hfresh : Fresh h (.setStatus req)) :
    Inv (track h (.setStatus req)) := by
  cases hrun : setStatus h.store req with
  | error e => exact hinv.fewer fun i hi => by simpa [step, settle, hrun] using hi
  | ok r =>
    obtain ⟨inv, hmem, hid, htenant, hsave⟩ := setStatus_rows hrun
    have hstore : (track h (.setStatus req)).store.invoices = h.store.invoices.save (marked req inv) := by
      simp [track, step, hrun, hsave]
    -- each invoice charges for the lines it charged for before
    have hback : ∀ {i}, i ∈ (track h (.setStatus req)).store.invoices.rows →
        ∃ i₀ ∈ h.store.invoices.rows, i₀.id = i.id ∧ i₀.sources = i.sources ∧
          (i = i₀ ∨ i₀ = inv ∧ i.status = req.status) := by
      intro i hi
      rw [hstore] at hi
      rcases Table.mem_save.1 hi with ⟨rfl, -⟩ | ⟨hi, -⟩
      · exact ⟨inv, hmem, rfl, rfl, .inr ⟨rfl, rfl⟩⟩
      · exact ⟨i, hi, rfl, rfl, .inl rfl⟩
    have hsame : ∀ {i j}, i ∈ (track h (.setStatus req)).store.invoices.rows →
        j ∈ (track h (.setStatus req)).store.invoices.rows → i.id = j.id → i = j :=
      fun hi hj heq => Table.eq_of_key hi hj heq
    constructor
    · intro line hline i hi j hj
      obtain ⟨hi, hiline⟩ := mem_charging.1 hi
      obtain ⟨hj, hjline⟩ := mem_charging.1 hj
      obtain ⟨i₀, hi₀, hiid, hisrc, -⟩ := hback hi
      obtain ⟨j₀, hj₀, hjid, hjsrc, -⟩ := hback hj
      have hci : i₀ ∈ charging line h.store.invoices := mem_charging.2 ⟨hi₀, hisrc ▸ hiline⟩
      have hcj : j₀ ∈ charging line h.store.invoices := mem_charging.2 ⟨hj₀, hjsrc ▸ hjline⟩
      have hij : i₀ = j₀ := by
        rcases mem_issued_track.1 hline with hline | ⟨k, hk, hsealed, hkline⟩
        · exact hinv.single line hline i₀ hci j₀ hcj
        · obtain ⟨k₀, hk₀, -, hksrc, rfl | ⟨rfl, hstatus⟩⟩ := hback hk
          · exact hinv.single line (hinv.sealedIssued k hk₀ hsealed line hkline) i₀ hci j₀ hcj
          · have hone := hfresh (hstatus ▸ hsealed) k₀ hk₀ hid htenant line (hksrc ▸ hkline)
            exact (hone i₀ hci).trans (hone j₀ hcj).symm
      exact hsame hi hj (by rw [← hiid, ← hjid, hij])
    · exact fun i hi hsealed line hline => mem_issued_track.2 (.inr ⟨i, hi, hsealed, hline⟩)

theorem inv_track {h : History} {e : Event} (hinv : Inv h) (hfresh : Fresh h e) : Inv (track h e) := by
  cases e with
  | rollup req => exact inv_rollup hinv hfresh
  | setStatus req => exact inv_setStatus hinv hfresh
  | remove tenantId id =>
    refine hinv.fewer fun i hi => ?_
    refine settle_induction (P := fun s : Store => i ∈ s.invoices.rows → i ∈ h.store.invoices.rows) (fun hi => hi)
      (fun r hr hi => ?_) hi
    simp only [remove, bind_eq_ok, pure_eq_ok] at hr
    obtain ⟨-, -, rfl⟩ := hr
    exact List.mem_of_mem_filter hi
  | change activity => exact hinv.fewer fun i hi => hi

/-! ### Runs -/

/-- **Over every run whose calls keep it so, nothing is invoiced twice**, at any point of it. -/
theorem invoiced_once {activity : Activity} {es : List Event} (h : AllSteps track Fresh (opened activity) es) :
    ∀ p q, es = p ++ q → Once (run track (opened activity) p) := by
  rintro p q rfl
  have hinit : Inv (opened activity) :=
    ⟨fun _ hline => absurd hline List.not_mem_nil, fun _ hi => absurd hi List.not_mem_nil⟩
  exact (run_invariant (I := Inv) (fun _ _ hinv hfresh => inv_track hinv hfresh) hinit (allSteps_append.1 h).1).once

/-! ### January, rolled up twice -/

/-- A confirmed booking in January 2024 with one service. -/
def catering : Activity where
  bookingServices := ⟨[⟨"line", "t", "b", 2, 1500⟩], by decide⟩
  bookings := ⟨[⟨"b", "t", "ann", "Board meeting", 19723 * dayMs, .confirmed⟩], by decide⟩
  userDepartments := ⟨[⟨"ann", "sales"⟩], by decide⟩

def january (n : String) : Event := .rollup { tenantId := "t", period := "2024-01", newId := fun _ => n }

def issuing : List Event := [january "i1", january "i2", .setStatus { tenantId := "t", id := "i2", status := .issued }]

theorem invoiced_once_issuing : Once (run track (opened catering) issuing) := by
  have hfresh : AllSteps track Fresh (opened catering) issuing :=
    ⟨by decide +kernel, by decide +kernel, by decide +kernel, trivial⟩
  exact invoiced_once hfresh issuing [] (List.append_nil _).symm

/-- A rollup after that draws up a second invoice for the line, which is issued too. -/
theorem invoiced_twice :
    ¬ ∀ p q, issuing ++ [january "i3", .setStatus { tenantId := "t", id := "i3", status := .issued }] = p ++ q →
      Once (run track (opened catering) p) := by
  intro h
  have honce := (h _ [] (List.append_nil _).symm "line").1 "2024-01"
  revert honce
  decide +kernel

end BookingSystem.Runs.InvoicedOnce
