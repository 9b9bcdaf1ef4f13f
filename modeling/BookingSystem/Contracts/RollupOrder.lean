import BookingSystem.Runs.InvoicedOnce
import Mathlib.Algebra.BigOperators.Group.List.Basic
import Mathlib.Data.String.Basic

/-!
# The rollup and the order of its rows

The query of the rollup gives one row for each department of the owner of a line, in no particular order, and the loop
keeps the first row of each line. Whatever the order, each line of the period is charged for once (`sources_made`), to
a department of its owner. It is the alphabetically first department for every order, and the invoices are the same for
any two orders, exactly if no owner is in two departments (`functionOfData_iff`).
-/

namespace BookingSystem.Contracts.RollupOrder

open Base Model.Rollup Runs.InvoicedOnce
open Model (Uuid HttpError)

/-! ### What is charged for -/

/-- A line that the period is charged for, and its booking. -/
structure Eligible (a : Activity) (req : RollupRequest) (bs : BookingService) (b : ChargedBooking) : Prop where
  line : bs ∈ a.bookingServices.rows
  tenant : bs.tenantId = req.tenantId
  booking : b ∈ a.bookings.rows
  id : b.id = bs.bookingId
  same : b.tenantId = req.tenantId
  period : ∃ y m : ℕ, parsePeriod req.period = some (y, m) ∧ dateUTC y (m - 1) ≤ b.startTime ∧ b.startTime < dateUTC y m
  status : b.status = .confirmed ∨ b.status = .checkedIn

def memberOf (a : Activity) (userId : Uuid) : List Uuid :=
  (a.userDepartments.rows.filter fun ud => decide (ud.userId = userId)).map UserDepartment.departmentId

/-- The alphabetically first department of a user, if there is any. -/
def FirstDepartment (a : Activity) (userId : Uuid) : Option Uuid → Prop
  | none => memberOf a userId = []
  | some d => d ∈ memberOf a userId ∧ ∀ d' ∈ memberOf a userId, d ≤ d'

/-- No owner of a line that the period is charged for is in two departments. -/
def OneDepartment (a : Activity) (req : RollupRequest) : Prop :=
  ∀ bs b, Eligible a req bs b → ∀ d ∈ memberOf a b.userId, ∀ d' ∈ memberOf a b.userId, d = d'

/-! ### What is made of it -/

def inOrder (req : RollupRequest) (scan : Scan) : RollupRequest := { req with scan }

def made (a : Activity) (req : RollupRequest) : List Invoice := drafts req (bucketed (collected a req)) 0

/-- Two invoices for the same, their lines in some order. -/
structure Alike (i j : Invoice) : Prop where
  department : i.departmentId = j.departmentId
  lines : i.lines.Perm j.lines
  subtotal : i.subtotalCents = j.subtotalCents
  tax : i.taxCents = j.taxCents
  total : i.totalCents = j.totalCents

/-- **The rollup is a function of the data.** The invoices are the same for any two orders of the rows, one for each
department, with each eligible line once; a line is charged to the alphabetically first department of its owner. The
call returns these invoices, or it fails for every order. -/
structure FunctionOfData (a : Activity) (req : RollupRequest) : Prop where
  same : ∀ scan scan', ∀ i ∈ made a (inOrder req scan), ∃ j ∈ made a (inOrder req scan'), Alike i j
  departments : ∀ scan, ((made a (inOrder req scan)).map Invoice.departmentId).Nodup
  once : ∀ scan, ((made a (inOrder req scan)).flatMap Invoice.sources).Nodup ∧
    ∀ line, line ∈ (made a (inOrder req scan)).flatMap Invoice.sources ↔ ∃ bs b, Eligible a req bs b ∧ bs.id = line
  charged : ∀ scan, ∀ i ∈ made a (inOrder req scan), ∀ bs b, Eligible a req bs b → bs.id ∈ i.sources →
    FirstDepartment a b.userId i.departmentId
  outcome : ∀ invoices,
    (∀ scan, ∃ s, runRollup ⟨a, invoices⟩ (inOrder req scan) = .ok (s, made a (inOrder req scan))) ∨
      ∃ e, ∀ scan, runRollup ⟨a, invoices⟩ (inOrder req scan) = .error e

/-! ### Rows -/

section

variable {a : Activity} {req : RollupRequest}

/-- A row of the query is an eligible line with a department of its owner. -/
theorem mem_collected {r : JoinedRow} : r ∈ collected a req ↔ ∃ bs b, Eligible a req bs b ∧
    ∃ d ∈ a.departmentsOf b.userId, r = ⟨bs.id, bs.bookingId, bs.quantity, bs.unitPriceCents, d, b.title⟩ := by
  unfold collected
  cases hp : parsePeriod req.period with
  | none =>
    refine iff_of_false List.not_mem_nil ?_
    rintro ⟨bs, b, h, -⟩
    obtain ⟨y, m, hym, -⟩ := h.period
    rw [hp] at hym
    cases hym
  | some ym =>
    obtain ⟨y, m⟩ := ym
    rw [(req.scan.perm _).mem_iff]
    simp only [Activity.joined, Activity.bookingsOf, List.mem_flatMap, List.mem_map, List.mem_filter, decide_eq_true_eq,
      Bool.and_eq_true, Bool.or_eq_true, beq_iff_eq]
    constructor
    · rintro ⟨bs, ⟨hbs, hten⟩, b, ⟨hb, ⟨⟨⟨hid, hsame⟩, hstart⟩, hstop⟩, hstatus⟩, d, hd, rfl⟩
      exact ⟨bs, b, ⟨hbs, hten, hb, hid, hsame, ⟨y, m, hp, hstart, hstop⟩, hstatus⟩, d, hd, rfl⟩
    · rintro ⟨bs, b, h, d, hd, rfl⟩
      obtain ⟨y', m', hym, hstart, hstop⟩ := h.period
      obtain ⟨rfl, rfl⟩ := Prod.mk.inj (Option.some.inj (hp.symm.trans hym))
      exact ⟨bs, ⟨h.line, h.tenant⟩, b, ⟨h.booking, ⟨⟨⟨h.id, h.same⟩, hstart⟩, hstop⟩, h.status⟩, d, hd, rfl⟩

theorem mem_departmentsOf {userId : Uuid} {d : Option Uuid} :
    d ∈ a.departmentsOf userId ↔ (d = none ∧ memberOf a userId = []) ∨ ∃ d' ∈ memberOf a userId, d = some d' := by
  unfold Activity.departmentsOf memberOf
  cases a.userDepartments.rows.filter fun ud => decide (ud.userId = userId) with
  | nil => simp
  | cons ud uds =>
    constructor
    · intro hd
      obtain ⟨ud', hud', rfl⟩ := List.mem_map.1 hd
      exact .inr ⟨_, List.mem_map_of_mem hud', rfl⟩
    · rintro (⟨-, hnil⟩ | ⟨d', hd', rfl⟩)
      · cases hnil
      · obtain ⟨ud', hud', rfl⟩ := List.mem_map.1 hd'
        exact List.mem_map.2 ⟨ud', hud', rfl⟩

theorem exists_department (a : Activity) (userId : Uuid) : ∃ d, d ∈ a.departmentsOf userId := by
  unfold Activity.departmentsOf
  cases a.userDepartments.rows.filter fun ud => decide (ud.userId = userId) with
  | nil => exact ⟨none, List.mem_singleton_self _⟩
  | cons ud uds => exact ⟨some ud.departmentId, List.mem_cons_self⟩

theorem Eligible.unique {bs bs' : BookingService} {b b' : ChargedBooking} (h : Eligible a req bs b)
    (h' : Eligible a req bs' b') (hid : bs.id = bs'.id) : bs = bs' ∧ b = b' := by
  obtain rfl : bs = bs' := Table.eq_of_key h.line h'.line hid
  exact ⟨rfl, Table.eq_of_key h.booking h'.booking (h.id.trans h'.id.symm)⟩

theorem eligible_inOrder {scan : Scan} {bs : BookingService} {b : ChargedBooking} :
    Eligible a (inOrder req scan) bs b ↔ Eligible a req bs b :=
  ⟨fun ⟨h₁, h₂, h₃, h₄, h₅, h₆, h₇⟩ => ⟨h₁, h₂, h₃, h₄, h₅, h₆, h₇⟩,
    fun ⟨h₁, h₂, h₃, h₄, h₅, h₆, h₇⟩ => ⟨h₁, h₂, h₃, h₄, h₅, h₆, h₇⟩⟩

theorem collected_perm (a : Activity) (req : RollupRequest) (scan scan' : Scan) :
    (collected a (inOrder req scan)).Perm (collected a (inOrder req scan')) := by
  unfold collected inOrder
  dsimp only
  cases parsePeriod req.period with
  | none => exact .nil
  | some ym => exact (scan.perm _).trans (scan'.perm _).symm

/-! ### Invoices -/

theorem mem_made {i : Invoice} : i ∈ made a req → ∃ n k rs, (k, rs) ∈ bucketed (collected a req) ∧
    i = draftOf req n (k, rs) := by
  intro hi
  obtain ⟨⟨⟨k, rs⟩, n⟩, hb, rfl⟩ := List.mem_map.1 hi
  exact ⟨n, k, rs, List.fst_mem_of_mem_zipIdx hb, rfl⟩

theorem exists_made {k : String} {rs : List JoinedRow} (hb : (k, rs) ∈ bucketed (collected a req)) :
    ∃ n, draftOf req n (k, rs) ∈ made a req := by
  obtain ⟨n, hn, heq⟩ := List.mem_iff_getElem.1 hb
  refine ⟨n, List.mem_map.2 ⟨((k, rs), n), ?_, rfl⟩⟩
  rw [List.mem_zipIdx_iff_getElem?]
  simp [List.getElem?_eq_getElem hn, heq]

theorem sources_made (a : Activity) (req : RollupRequest) : ((made a req).flatMap Invoice.sources).Nodup ∧
    ∀ line, line ∈ (made a req).flatMap Invoice.sources ↔ ∃ bs b, Eligible a req bs b ∧ bs.id = line := by
  have hsources : (made a req).flatMap Invoice.sources = lineIds (bucketed (collected a req)) := by
    have hfst := List.zipIdx_map_fst 0 (bucketed (collected a req))
    rw [made, drafts, List.flatMap_map]
    simp only [sources_draftOf]
    conv_rhs => rw [← hfst]
    rw [lineIds, List.flatMap_map]
  obtain ⟨hnodup, hmem⟩ := bucketed_spec (collected a req)
  rw [hsources]
  refine ⟨hnodup, fun line => (hmem line).trans ?_⟩
  constructor
  · rintro ⟨r, hr, rfl⟩
    obtain ⟨bs, b, h, d, -, rfl⟩ := mem_collected.1 hr
    exact ⟨bs, b, h, rfl⟩
  · rintro ⟨bs, b, h, rfl⟩
    obtain ⟨d, hd⟩ := exists_department a b.userId
    exact ⟨_, mem_collected.2 ⟨bs, b, h, d, hd, rfl⟩, rfl⟩

theorem departmentId_draftOf {n : ℕ} {r : JoinedRow} {rs : List JoinedRow}
    (hd : ∀ d ∈ r.departmentId, d ≠ "__none__") : (draftOf req n (bucketOf r, rs)).departmentId = r.departmentId := by
  unfold draftOf bucketOf
  cases h : r.departmentId with
  | none => rfl
  | some d => exact if_neg (hd d h)

theorem mem_bucketed {k : String} {rs : List JoinedRow} {r : JoinedRow} (hb : (k, rs) ∈ bucketed (collected a req))
    (hr : r ∈ rs) : r ∈ collected a req ∧ bucketOf r = k := by
  rw [bucketed_eq] at hb
  obtain ⟨hmem, hk⟩ := mem_rows_of_grouped hb hr
  exact ⟨(mem_of_unseen hmem).1, hk⟩

theorem nodup_departments (a : Activity) (req : RollupRequest) : ((made a req).map Invoice.departmentId).Nodup := by
  have hkeys : ((bucketed (collected a req)).map Prod.fst).Nodup := by
    rw [bucketed_eq]
    exact nodup_grouped
  have hmap : (made a req).map Invoice.departmentId = ((bucketed (collected a req)).map Prod.fst).map fun k =>
      if k = "__none__" then none else some k := by
    have hfst := List.zipIdx_map_fst 0 (bucketed (collected a req))
    rw [made, drafts, List.map_map]
    conv_rhs => rw [← hfst]
    rw [List.map_map, List.map_map]
    rfl
  rw [hmap]
  refine hkeys.map fun k k' heq => ?_
  split at heq <;> split at heq
  · rename_i hk hk'
    rw [hk, hk']
  · cases heq
  · cases heq
  · exact Option.some.inj heq

section

variable (hids : ∀ ud ∈ a.userDepartments.rows, ud.departmentId ≠ "__none__")

include hids

theorem ne_none_of_mem_departmentsOf {userId : Uuid} {o : Option Uuid} (ho : o ∈ a.departmentsOf userId) :
    ∀ d ∈ o, d ≠ "__none__" := by
  rintro d rfl
  obtain ⟨h, -⟩ | ⟨d', hd', heq⟩ := mem_departmentsOf.1 ho
  · cases h
  · obtain ⟨ud, hud, rfl⟩ := List.mem_map.1 hd'
    rw [Option.some.inj heq]
    exact hids ud (List.mem_of_mem_filter hud)

theorem departmentId_of_charged {i : Invoice} (hi : i ∈ made a req) {bs : BookingService} {b : ChargedBooking}
    (h : Eligible a req bs b) (hline : bs.id ∈ i.sources) : i.departmentId ∈ a.departmentsOf b.userId := by
  obtain ⟨n, k, rs, hb, rfl⟩ := mem_made hi
  rw [sources_draftOf] at hline
  obtain ⟨r, hr, hid⟩ := List.mem_map.1 hline
  obtain ⟨hrow, rfl⟩ := mem_bucketed hb hr
  obtain ⟨bs', b', h', d, hd, rfl⟩ := mem_collected.1 hrow
  obtain ⟨rfl, rfl⟩ := h'.unique h hid
  rw [departmentId_draftOf (ne_none_of_mem_departmentsOf hids hd)]
  exact hd

end

/-! ### One department -/

section

variable (hone : OneDepartment a req)

include hone

theorem firstDepartment_of_mem {bs : BookingService} {b : ChargedBooking} (h : Eligible a req bs b) {d : Option Uuid}
    (hd : d ∈ a.departmentsOf b.userId) : FirstDepartment a b.userId d := by
  rcases mem_departmentsOf.1 hd with ⟨rfl, hnil⟩ | ⟨d, hdep, rfl⟩
  · exact hnil
  · exact ⟨hdep, fun d' hdep' => le_of_eq (hone bs b h d hdep d' hdep')⟩

theorem collected_unique {r r' : JoinedRow} (hr : r ∈ collected a req) (hr' : r' ∈ collected a req)
    (hid : r.id = r'.id) : r = r' := by
  obtain ⟨bs, b, h, d, hd, rfl⟩ := mem_collected.1 hr
  obtain ⟨bs', b', h', d', hd', rfl⟩ := mem_collected.1 hr'
  obtain ⟨rfl, rfl⟩ := h.unique h' hid
  have heq : d = d' := by
    rcases mem_departmentsOf.1 hd with ⟨rfl, hnil⟩ | ⟨d, hdep, rfl⟩ <;>
      rcases mem_departmentsOf.1 hd' with ⟨rfl, hnil'⟩ | ⟨d', hdep', rfl⟩
    · rfl
    · rw [hnil] at hdep'
      cases hdep'
    · rw [hnil'] at hdep
      cases hdep
    · rw [hone bs b h d hdep d' hdep']
  rw [heq]

theorem exists_alike (scan scan' : Scan) {i : Invoice} (hi : i ∈ made a (inOrder req scan)) :
    ∃ j ∈ made a (inOrder req scan'), Alike i j := by
  obtain ⟨n, k, rs, hb, rfl⟩ := mem_made hi
  have hone' : OneDepartment a (inOrder req scan) := fun bs b h => hone bs b (eligible_inOrder.1 h)
  have hfirst := unseen_perm (collected_perm a req scan scan') fun r hr r' hr' => collected_unique hone' hr hr'
  rw [bucketed_eq] at hb
  obtain ⟨rs', hb', hrs⟩ := exists_group_of_perm hfirst hb
  rw [← bucketed_eq] at hb'
  obtain ⟨n', hj⟩ := exists_made hb'
  have hlines := hrs.map renderLine
  have hsum := (hlines.map InvoiceLine.lineCents).sum_eq
  exact ⟨_, hj, rfl, hlines, hsum, congrArg req.taxOf hsum, by simp only [draftOf, hsum]; rfl⟩

end

/-! ### The call -/

def kept (invoices : Table Invoice) (req : RollupRequest) : Table Invoice :=
  invoices.deleteWhere (isDraftOf req.tenantId req.period)

theorem runRollup_eq (s : Store) (req : RollupRequest) : runRollup s req =
    if (parsePeriod req.period).isNone then .error (.badRequest "period must be YYYY-MM")
    else if (made s.activity req).all fits then
      match (kept s.invoices req).insertAll? (made s.activity req) with
      | some invoices => .ok ({ s with invoices := invoices }, made s.activity req)
      | none => .error (.internal "duplicate key value violates unique constraint")
    else .error (.internal "integer out of range") := by
  unfold runRollup
  cases parsePeriod req.period with
  | none => rfl
  | some ym =>
    show (require ((made s.activity req).all fits) _ >>= fun _ => _) = _
    cases (made s.activity req).all fits with
    | false => rfl
    | true =>
      show (found ((kept s.invoices req).insertAll? (made s.activity req)) _ >>= fun _ => _) = _
      cases (kept s.invoices req).insertAll? (made s.activity req) <;> rfl

theorem keys_made (a : Activity) (req : RollupRequest) :
    (made a req).map key = (List.range (made a req).length).map req.newId := by
  have hsnd := List.zipIdx_map_snd 0 (bucketed (collected a req))
  rw [made, drafts, List.map_map, List.length_map, List.length_zipIdx, List.range_eq_range', ← hsnd, List.map_map]
  rfl

section

variable (hone : OneDepartment a req)

include hone

theorem length_made (scan scan' : Scan) :
    (made a (inOrder req scan)).length = (made a (inOrder req scan')).length := by
  have hsub : ∀ scan scan', ∀ d ∈ (made a (inOrder req scan)).map Invoice.departmentId,
      d ∈ (made a (inOrder req scan')).map Invoice.departmentId := by
    intro scan scan' d hd
    obtain ⟨i, hi, rfl⟩ := List.mem_map.1 hd
    obtain ⟨j, hj, halike⟩ := exists_alike hone scan scan' hi
    exact List.mem_map.2 ⟨j, hj, halike.department.symm⟩
  have hperm := (List.perm_ext_iff_of_nodup (nodup_departments a (inOrder req scan))
    (nodup_departments a (inOrder req scan'))).2 fun d => ⟨hsub scan scan' d, hsub scan' scan d⟩
  simpa using hperm.length_eq

theorem fits_made (scan scan' : Scan) (h : (made a (inOrder req scan)).all fits = true) :
    (made a (inOrder req scan')).all fits = true := by
  refine List.all_eq_true.2 fun i hi => ?_
  obtain ⟨j, hj, halike⟩ := exists_alike hone scan' scan hi
  rw [fits, halike.subtotal, halike.tax, halike.total]
  exact List.all_eq_true.1 h j hj

/-- The call returns what it draws up for every order, or it fails for every order. -/
theorem outcome_same (invoices : Table Invoice) :
    (∀ scan, ∃ s, runRollup ⟨a, invoices⟩ (inOrder req scan) = .ok (s, made a (inOrder req scan))) ∨
      ∃ e, ∀ scan, runRollup ⟨a, invoices⟩ (inOrder req scan) = .error e := by
  have hfits : ∀ scan, (made a (inOrder req scan)).all fits = (made a req).all fits := fun scan =>
    Bool.eq_iff_iff.2 ⟨fits_made hone scan req.scan, fits_made hone req.scan scan⟩
  have hinsert : ∀ scan, ((kept invoices (inOrder req scan)).insertAll? (made a (inOrder req scan))).isSome =
      ((kept invoices req).insertAll? (made a req)).isSome := by
    intro scan
    rw [Bool.eq_iff_iff, Table.isSome_insertAll?_iff, Table.isSome_insertAll?_iff, List.map_append, List.map_append,
      keys_made, keys_made, length_made hone scan req.scan]
    rfl
  by_cases hp : (parsePeriod req.period).isNone = true
  · refine .inr ⟨.badRequest "period must be YYYY-MM", fun scan => ?_⟩
    rw [runRollup_eq]
    exact if_pos hp
  by_cases hf : (made a req).all fits = true
  · have hf' : ∀ scan, (made a (inOrder req scan)).all fits = true := fun scan => (hfits scan).trans hf
    cases hi : ((kept invoices req).insertAll? (made a req)).isSome with
    | true =>
      refine .inl fun scan => ?_
      obtain ⟨t, ht⟩ := Option.isSome_iff_exists.1 ((hinsert scan).trans hi)
      refine ⟨⟨a, t⟩, ?_⟩
      rw [runRollup_eq]
      refine (if_neg hp).trans ((if_pos (hf' scan)).trans ?_)
      simp only [ht]
    | false =>
      refine .inr ⟨.internal "duplicate key value violates unique constraint", fun scan => ?_⟩
      have hnone := Option.isSome_eq_false_iff.1 ((hinsert scan).trans hi)
      rw [Option.isNone_iff_eq_none] at hnone
      rw [runRollup_eq]
      refine (if_neg hp).trans ((if_pos (hf' scan)).trans ?_)
      simp only [hnone]
  · refine .inr ⟨.internal "integer out of range", fun scan => ?_⟩
    rw [runRollup_eq]
    refine (if_neg hp).trans (if_neg ?_)
    rwa [← hfits scan] at hf

end

/-! ### The first row decides -/

/-- The order that has a row first. -/
def firstScan (r : JoinedRow) : Scan where
  order rows := if r ∈ rows then r :: rows.erase r else rows
  perm rows := by
    split
    · rename_i hr
      exact (List.perm_cons_erase hr).symm
    · exact .refl rows

theorem collected_firstScan {r : JoinedRow} (hr : r ∈ collected a req) :
    ∃ rest, collected a (inOrder req (firstScan r)) = r :: rest := by
  unfold collected at hr ⊢
  rw [show (inOrder req (firstScan r)).period = req.period from rfl]
  cases hp : parsePeriod req.period with
  | none =>
    rw [hp] at hr
    cases hr
  | some ym =>
    obtain ⟨y, m⟩ := ym
    rw [hp] at hr
    exact ⟨_, if_pos ((req.scan.perm _).mem_iff.1 hr)⟩

theorem made_of_first {r : JoinedRow} {rest : List JoinedRow} (hrest : collected a req = r :: rest) :
    ∃ n rs, draftOf req n (bucketOf r, rs) ∈ made a req ∧ r ∈ rs := by
  have hfirst : r ∈ unseen JoinedRow.id [] (collected a req) := by
    rw [hrest, unseen, if_neg List.not_mem_nil]
    exact List.mem_cons_self
  obtain ⟨rs, hb, hr⟩ : ∃ rs, (bucketOf r, rs) ∈ grouped bucketOf (unseen JoinedRow.id [] (collected a req)) ∧
    r ∈ rs := exists_group hfirst
  rw [← bucketed_eq] at hb
  obtain ⟨n, hi⟩ := exists_made hb
  exact ⟨n, rs, hi, hr⟩

theorem exists_charged (hids : ∀ ud ∈ a.userDepartments.rows, ud.departmentId ≠ "__none__")
    {bs : BookingService} {b : ChargedBooking} (h : Eligible a req bs b) {d : Uuid} (hd : d ∈ memberOf a b.userId) :
    ∃ scan, ∃ i ∈ made a (inOrder req scan), bs.id ∈ i.sources ∧ i.departmentId = some d := by
  have hdep : some d ∈ a.departmentsOf b.userId := mem_departmentsOf.2 (.inr ⟨d, hd, rfl⟩)
  obtain ⟨rest, hrest⟩ := collected_firstScan (mem_collected.2 ⟨bs, b, h, some d, hdep, rfl⟩)
  obtain ⟨n, rs, hi, hr⟩ := made_of_first hrest
  refine ⟨_, _, hi, ?_, departmentId_draftOf (ne_none_of_mem_departmentsOf hids hdep)⟩
  rw [sources_draftOf]
  exact List.mem_map_of_mem hr

/-- **The rollup and the order of its rows.** The invoices of a period are a function of the data if and only if no
owner of a line that the period is charged for is in two departments. -/
theorem functionOfData_iff (hids : ∀ ud ∈ a.userDepartments.rows, ud.departmentId ≠ "__none__") :
    FunctionOfData a req ↔ OneDepartment a req := by
  constructor
  · intro h bs b hel d hd d' hd'
    have hle : ∀ d ∈ memberOf a b.userId, ∀ d' ∈ memberOf a b.userId, d ≤ d' := by
      intro d hd d' hd'
      obtain ⟨scan, i, hi, hline, hdep⟩ := exists_charged hids hel hd
      have hfirst := h.charged scan i hi bs b hel hline
      rw [hdep] at hfirst
      exact hfirst.2 d' hd'
    exact le_antisymm (hle d hd d' hd') (hle d' hd' d hd)
  · intro hone
    exact {
      same := fun scan scan' i hi => exists_alike hone scan scan' hi
      departments := fun scan => nodup_departments a (inOrder req scan)
      once := fun scan => by simpa only [eligible_inOrder] using sources_made a (inOrder req scan)
      charged := fun scan i hi bs b hel hline => firstDepartment_of_mem hone hel
        (departmentId_of_charged hids hi (eligible_inOrder.2 hel) hline)
      outcome := outcome_same hone }

end

/-! ### January -/

def january : RollupRequest := { tenantId := "t", period := "2024-01", newId := fun n => "i" ++ toString n }

/-- The owner of the booking is in one department. -/
theorem functionOfData_catering : FunctionOfData catering january := by
  have hmember : ∀ userId, ∀ d ∈ memberOf catering userId, d = "sales" := by
    intro userId d hd
    obtain ⟨ud, hud, rfl⟩ := List.mem_map.1 hd
    rw [List.mem_singleton.1 (List.mem_of_mem_filter hud : ud ∈ [(⟨"ann", "sales"⟩ : UserDepartment)])]
  refine (functionOfData_iff (by decide)).2 fun bs b _ d hd d' hd' => ?_
  rw [hmember _ d hd, hmember _ d' hd']

def twoDepartments : Activity := { catering with userDepartments := ⟨[⟨"ann", "sales"⟩, ⟨"ann", "admin"⟩], by decide⟩ }

/-- In some order the line is charged to the second one of the alphabet. -/
theorem charged_to_second : ¬ ∀ (a : Activity) (req : RollupRequest),
    (∀ ud ∈ a.userDepartments.rows, ud.departmentId ≠ "__none__") → FunctionOfData a req := by
  intro h
  have hids : ∀ ud ∈ twoDepartments.userDepartments.rows, ud.departmentId ≠ "__none__" := by decide
  have hel : Eligible twoDepartments january ⟨"line", "t", "b", 2, 1500⟩
      ⟨"b", "t", "ann", "Board meeting", 19723 * dayMs, .confirmed⟩ :=
    ⟨List.mem_singleton_self _, rfl, List.mem_singleton_self _, rfl, rfl, ⟨2024, 1, by decide +kernel⟩, .inl rfl⟩
  obtain ⟨scan, i, hi, hline, hdep⟩ := exists_charged hids hel (d := "sales") (by decide)
  have hfirst := (h _ january hids).charged scan i hi _ _ hel hline
  rw [hdep] at hfirst
  exact absurd (hfirst.2 "admin" (by decide)) (by decide)

end BookingSystem.Contracts.RollupOrder
