import BookingSystem.Service.Holidays
import Mathlib.Data.List.Induction
import Mathlib.Data.List.Nodup

/-!
# What a synchronisation leaves in the table

One entry of the feed gives the rows of the feed on its date its name, adds the rows that are missing, and takes those
away that are for other regions (`Writes`, `syncEntry_writes`). After the entries `done` the table is as it should be
for them (`Good`), and at the end for the whole feed (`sync_exact`).

A second run finds nothing to add and nothing to take away. It may give a row other names on the way, when a date comes
more than once, and ends with the one it had (`foldl_renamed`).
-/

namespace BookingSystem.Contracts.HolidaySync

open Base Service.Holidays
open Model (Uuid)

/-! ### What is asked for -/

def lastName (feed : List GovHKHoliday) (date : String) : Option String :=
  (feed.reverse.find? fun e => decide (e.date = date)).map GovHKHoliday.name

/-- The tenant's rows of the feed on its dates. -/
def Mine (req : SyncRequest) (h : Holiday) : Prop :=
  h.tenantId = req.tenantId ∧ h.scope = "govhk" ∧ h.holidayDate ∈ req.feed.map GovHKHoliday.date

instance (req : SyncRequest) (h : Holiday) : Decidable (Mine req h) := inferInstanceAs (Decidable (_ ∧ _ ∧ _))

/-- What a synchronisation makes of the table `t`. -/
structure Exact (req : SyncRequest) (t t' : HolidayTable) : Prop where
  one : ∀ e ∈ req.feed, ∀ region ∈ req.targets,
    (t'.rows.map Holiday.slot).count (req.tenantId, e.date, region) = 1
  mine : ∀ h ∈ t'.rows, Mine req h → h.region ∈ req.targets ∧ lastName req.feed h.holidayDate = some h.name
  others : (t'.rows.filter fun h => !decide (Mine req h)) = t.rows.filter fun h => !decide (Mine req h)

theorem lastName_append (feed : List GovHKHoliday) (e : GovHKHoliday) (date : String) :
    lastName (feed ++ [e]) date = if e.date = date then some e.name else lastName feed date := by
  unfold lastName
  rw [List.reverse_append, List.reverse_singleton, List.singleton_append, List.find?_cons]
  by_cases h : e.date = date <;> simp [h]

/-! ### One entry -/

section Entry

variable {req : SyncRequest} {e : GovHKHoliday} {regions regions' : List String} {t : HolidayTable} {h : Holiday}
  {tenantId : Uuid} {news news' : List Holiday} {st st₁ st₂ : Sync}

def renamed (req : SyncRequest) (e : GovHKHoliday) (regions : List String) (h : Holiday) : Holiday :=
  if h.tenantId = req.tenantId ∧ h.holidayDate = e.date ∧ h.region ∈ regions ∧ h.scope = "govhk" then
    { h with name := e.name }
  else h

@[simp] theorem slot_renamed (h : Holiday) : (renamed req e regions h).slot = h.slot := by
  unfold renamed
  split <;> rfl

theorem map_slot_renamed (rows : List Holiday) :
    (rows.map (renamed req e regions)).map Holiday.slot = rows.map Holiday.slot := by
  simp [Function.comp_def]

theorem slot_eq_iff {date region : String} :
    h.slot = (tenantId, date, region) ↔ h.tenantId = tenantId ∧ h.holidayDate = date ∧ h.region = region := by
  simp [Holiday.slot]

theorem renamed_nil (h : Holiday) : renamed req e [] h = h := by
  simp [renamed]

/-- Names that are given one after another. -/
theorem renamed_renamed (h : Holiday) :
    renamed req e regions' (renamed req e regions h) = renamed req e (regions ++ regions') h := by
  unfold renamed
  by_cases hfirst : h.tenantId = req.tenantId ∧ h.holidayDate = e.date ∧ h.region ∈ regions ∧ h.scope = "govhk"
  · have hall : h.tenantId = req.tenantId ∧ h.holidayDate = e.date ∧ h.region ∈ regions ++ regions' ∧
        h.scope = "govhk" :=
      ⟨hfirst.1, hfirst.2.1, List.mem_append_left _ hfirst.2.2.1, hfirst.2.2.2⟩
    rw [if_pos hfirst, if_pos hall]
    split <;> rfl
  · rw [if_neg hfirst]
    by_cases hsecond : h.tenantId = req.tenantId ∧ h.holidayDate = e.date ∧ h.region ∈ regions' ∧ h.scope = "govhk"
    · rw [if_pos hsecond, if_pos]
      exact ⟨hsecond.1, hsecond.2.1, List.mem_append_right _ hsecond.2.2.1, hsecond.2.2.2⟩
    · rw [if_neg hsecond, if_neg]
      rintro ⟨htenant, hdate, hregion, hscope⟩
      rcases List.mem_append.1 hregion with hregion | hregion
      · exact hfirst ⟨htenant, hdate, hregion, hscope⟩
      · exact hsecond ⟨htenant, hdate, hregion, hscope⟩

/-- What the entry does for these regions: it renames, and adds the rows `news`. -/
structure Writes (req : SyncRequest) (e : GovHKHoliday) (regions : List String) (news : List Holiday)
    (st st' : Sync) : Prop where
  rows : st'.holidays.rows = st.holidays.rows.map (renamed req e regions) ++ news
  new : ∀ n ∈ news, (n.tenantId = req.tenantId ∧ n.holidayDate = e.date ∧ n.region ∈ regions) ∧ n.scope = "govhk" ∧
    n.name = e.name ∧ n.slot ∉ st.holidays.rows.map Holiday.slot
  filled : ∀ region ∈ regions, (req.tenantId, e.date, region) ∈ st'.holidays.rows.map Holiday.slot
  imported : st'.imported = st.imported + news.length

theorem Writes.refl (st : Sync) : Writes req e [] [] st st where
  rows := by simp [funext renamed_nil]
  new := by simp
  filled := by simp
  imported := rfl

theorem Writes.trans (h : Writes req e regions news st st₁) (h' : Writes req e regions' news' st₁ st₂) :
    Writes req e (regions ++ regions') (news ++ news') st st₂ where
  rows := by
    have hsame : news.map (renamed req e regions') = news := by
      refine (List.map_congr_left fun n hn => ?_).trans (List.map_id _)
      have hname := (h.new n hn).2.2.1
      unfold renamed
      split
      · rw [← hname]
        rfl
      · rfl
    rw [h'.rows, h.rows, List.map_append, List.map_map, hsame, List.append_assoc]
    congr 1
    exact List.map_congr_left fun r _ => renamed_renamed r
  new := by
    intro n hn
    rcases List.mem_append.1 hn with hn | hn
    · obtain ⟨⟨htenant, hdate, hregion⟩, hrest⟩ := h.new n hn
      exact ⟨⟨htenant, hdate, List.mem_append_left _ hregion⟩, hrest⟩
    · obtain ⟨⟨htenant, hdate, hregion⟩, hscope, hname, hslot⟩ := h'.new n hn
      refine ⟨⟨htenant, hdate, List.mem_append_right _ hregion⟩, hscope, hname, fun hmem => hslot ?_⟩
      rw [h.rows, List.map_append, map_slot_renamed]
      exact List.mem_append_left _ hmem
  filled := by
    intro region hregion
    rcases List.mem_append.1 hregion with hregion | hregion
    · rw [h'.rows, List.map_append, map_slot_renamed]
      exact List.mem_append_left _ (h.filled region hregion)
    · exact h'.filled region hregion
  imported := by
    rw [h'.imported, h.imported, List.length_append]
    omega

theorem findOne_some {date region : String} (hfind : t.findOne tenantId date region = some h) :
    h ∈ t.rows ∧ h.slot = (tenantId, date, region) :=
  ⟨List.mem_of_find?_eq_some hfind, by simpa using List.find?_some hfind⟩

theorem findOne_none {date region : String} (hfind : t.findOne tenantId date region = none) :
    (tenantId, date, region) ∉ t.rows.map Holiday.slot := by
  intro hmem
  obtain ⟨h, hh, hslot⟩ := List.mem_map.1 hmem
  have hnot := List.find?_eq_none.1 hfind h hh
  simp [hslot] at hnot

theorem eq_of_slot {h' : Holiday} (hh : h ∈ t.rows) (hh' : h' ∈ t.rows) (hslot : h.slot = h'.slot) : h = h' :=
  List.inj_on_of_nodup_map t.unique hh hh' hslot

theorem rows_insert? (hid : h.id ∉ t.rows.map Holiday.id) (hslot : h.slot ∉ t.rows.map Holiday.slot) :
    ∃ t', t.insert? h = some t' ∧ t'.rows = t.rows ++ [h] := by
  have hnone : t.table.find? (key h) = none := by
    refine Table.find?_eq_none_iff.2 fun a ha heq => hid ?_
    exact List.mem_map.2 ⟨a, ha, heq⟩
  obtain ⟨table, htable⟩ := Table.insert?_of_find? hnone
  have hrows : table.rows = t.table.rows ++ [h] := (Table.insert?_eq_some_iff.1 htable).2
  have hunique : (table.rows.map Holiday.slot).Nodup := by
    rw [hrows, List.map_append, List.map_singleton]
    refine List.nodup_append.2 ⟨t.unique, List.nodup_singleton _, ?_⟩
    rintro a ha b hb rfl
    rw [List.mem_singleton] at hb
    exact hslot (hb ▸ ha)
  refine ⟨⟨table, hunique⟩, ?_, hrows⟩
  rw [HolidayTable.insert?, htable]
  exact dif_pos hunique

theorem rows_rename {region : String} (hfind : t.findOne req.tenantId e.date region = some h)
    (hscope : h.scope = "govhk") : (t.rename h.id e.name).rows = t.rows.map (renamed req e [region]) := by
  obtain ⟨hh, hslot⟩ := findOne_some hfind
  refine List.map_congr_left fun r hr => ?_
  have hsame : h.id = r.id ↔ r.tenantId = req.tenantId ∧ r.holidayDate = e.date ∧ r.region ∈ [region] ∧
      r.scope = "govhk" := by
    constructor
    · intro hid
      obtain rfl := Table.eq_of_key hh hr hid
      obtain ⟨htenant, hdate, hregion⟩ := slot_eq_iff.1 hslot
      exact ⟨htenant, hdate, List.mem_singleton.2 hregion, hscope⟩
    · rintro ⟨htenant, hdate, hregion, -⟩
      have hslot' := slot_eq_iff.2 ⟨htenant, hdate, List.mem_singleton.1 hregion⟩
      rw [eq_of_slot hh hr (hslot.trans hslot'.symm)]
  exact if_congr (decide_eq_true_iff.trans (eq_comm.trans hsame)) rfl rfl

theorem map_renamed_eq {rows : List Holiday}
    (h : ∀ r ∈ rows, r.tenantId = req.tenantId → r.holidayDate = e.date → r.region ∈ regions → r.scope = "govhk" →
      r.name = e.name) : rows.map (renamed req e regions) = rows := by
  refine (List.map_congr_left fun r hr => ?_).trans (List.map_id _)
  unfold renamed
  split
  · rename_i hcond
    rw [← h r hr hcond.1 hcond.2.1 hcond.2.2.1 hcond.2.2.2]
    rfl
  · rfl

theorem syncRegion_writes (db : Defaults) (req : SyncRequest) (e : GovHKHoliday) (st : Sync) (region : String) :
    ∃ st' news, syncRegion db req e st region = some st' ∧ Writes req e [region] news st st' := by
  unfold syncRegion
  cases hfind : st.holidays.findOne req.tenantId e.date region with
  | some existing =>
    obtain ⟨hexisting, hslot⟩ := findOne_some hfind
    have hrows : (if existing.scope = "govhk" ∧ existing.name ≠ e.name then st.holidays.rename existing.id e.name
        else st.holidays).rows = st.holidays.rows.map (renamed req e [region]) := by
      split
      · rename_i hother
        exact rows_rename hfind hother.1
      · rename_i hsame
        refine (map_renamed_eq fun r hr htenant hdate hregion hscope => ?_).symm
        have hslot' := slot_eq_iff.2 ⟨htenant, hdate, List.mem_singleton.1 hregion⟩
        obtain rfl := eq_of_slot hexisting hr (hslot.trans hslot'.symm)
        by_contra hname
        exact hsame ⟨hscope, hname⟩
    refine ⟨_, [], rfl, ⟨by simpa using hrows, by simp, ?_, rfl⟩⟩
    intro region' hregion'
    rw [List.mem_singleton.1 hregion']
    rw [hrows, map_slot_renamed]
    exact List.mem_map.2 ⟨existing, hexisting, hslot⟩
  | none =>
    have hfree := findOne_none hfind
    obtain ⟨t', hinsert, hrows⟩ := rows_insert? (t := st.holidays)
      (h := { id := db.id st.holidays.rows, tenantId := req.tenantId, createdBy := req.userId, holidayDate := e.date
              name := e.name, scope := "govhk", region := region, isBlocker := true
              createdAt := db.now st.holidays.rows })
      (db.id_new _) hfree
    have hkeep : st.holidays.rows.map (renamed req e [region]) = st.holidays.rows := by
      refine map_renamed_eq fun r hr htenant hdate hregion _ => absurd ?_ hfree
      exact List.mem_map.2 ⟨r, hr, slot_eq_iff.2 ⟨htenant, hdate, List.mem_singleton.1 hregion⟩⟩
    refine ⟨_, [_], by simp only [hinsert]; rfl, ⟨by rw [hkeep]; exact hrows, ?_, ?_, rfl⟩⟩
    · intro n hn
      rw [List.mem_singleton.1 hn]
      exact ⟨⟨rfl, rfl, List.mem_singleton_self _⟩, rfl, rfl, hfree⟩
    · intro region' hregion'
      rw [List.mem_singleton.1 hregion']
      change _ ∈ t'.rows.map Holiday.slot
      rw [hrows]
      simp [Holiday.slot]

theorem syncRegions_write (db : Defaults) (req : SyncRequest) (e : GovHKHoliday) (regions : List String) (st : Sync) :
    ∃ st' news, regions.foldlM (syncRegion db req e) st = some st' ∧ Writes req e regions news st st' := by
  induction regions generalizing st with
  | nil => exact ⟨st, [], rfl, .refl st⟩
  | cons region regions ih =>
    obtain ⟨st₁, news, hfirst, hwrites⟩ := syncRegion_writes db req e st region
    obtain ⟨st₂, news', hrest, hwrites'⟩ := ih st₁
    refine ⟨st₂, news ++ news', ?_, hwrites.trans hwrites'⟩
    rw [List.foldlM_cons, hfirst]
    exact hrest

theorem syncEntry_writes (db : Defaults) (req : SyncRequest) (st : Sync) (e : GovHKHoliday) :
    ∃ st₁ news, Writes req e req.targets news st st₁ ∧
      syncEntry db req st e =
        some { st₁ with holidays := st₁.holidays.deleteWhere (isStale req e.date) } := by
  obtain ⟨st₁, news, hfold, hwrites⟩ := syncRegions_write db req e req.targets st
  refine ⟨st₁, news, hwrites, ?_⟩
  rw [syncEntry, hfold]
  rfl

theorem mem_deleteWhere {p : Holiday → Bool} : h ∈ (t.deleteWhere p).rows ↔ h ∈ t.rows ∧ p h = false := by
  simp [HolidayTable.rows, HolidayTable.deleteWhere, Table.deleteWhere]

theorem isStale_eq_true {date : String} :
    isStale req date h = true ↔
      h.tenantId = req.tenantId ∧ h.holidayDate = date ∧ h.scope = "govhk" ∧ h.region ∉ req.targets := by
  simp [isStale, and_assoc]

end Entry

/-! ### The first run -/

/-- The table is as it should be for the entries `done`. -/
structure Good (req : SyncRequest) (t : HolidayTable) (done : List GovHKHoliday) (st : Sync) : Prop where
  filled : ∀ e ∈ done, ∀ region ∈ req.targets, (req.tenantId, e.date, region) ∈ st.holidays.rows.map Holiday.slot
  named : ∀ h ∈ st.holidays.rows, h.tenantId = req.tenantId → h.scope = "govhk" →
    h.holidayDate ∈ done.map GovHKHoliday.date → h.region ∈ req.targets ∧ lastName done h.holidayDate = some h.name
  others : (st.holidays.rows.filter fun h => !decide (Mine req h)) = t.rows.filter fun h => !decide (Mine req h)

section FirstRun

variable {req : SyncRequest} {t : HolidayTable} {done : List GovHKHoliday} {st : Sync}

/-- Renaming leaves the rows of others alone. -/
theorem filter_map_renamed {e : GovHKHoliday} (he : e ∈ req.feed) (rows : List Holiday) :
    ((rows.map (renamed req e req.targets)).filter fun h => !decide (Mine req h)) =
      rows.filter fun h => !decide (Mine req h) := by
  induction rows with
  | nil => rfl
  | cons r rows ih =>
    have hrow : renamed req e req.targets r = r ∨ Mine req r ∧ Mine req (renamed req e req.targets r) := by
      unfold renamed
      split
      · rename_i hcond
        have hdate : r.holidayDate ∈ req.feed.map GovHKHoliday.date := List.mem_map.2 ⟨e, he, hcond.2.1.symm⟩
        exact .inr ⟨⟨hcond.1, hcond.2.2.2, hdate⟩, ⟨hcond.1, hcond.2.2.2, hdate⟩⟩
      · exact .inl rfl
    rw [List.map_cons]
    rcases hrow with hrow | ⟨hmine, hmine'⟩
    · rw [hrow, List.filter_cons, List.filter_cons, ih]
    · rw [List.filter_cons_of_neg (by simpa using hmine'), List.filter_cons_of_neg (by simpa using hmine), ih]

theorem Good.entry {e : GovHKHoliday} (h : Good req t done st) (db : Defaults) (he : e ∈ req.feed) :
    ∃ st', syncEntry db req st e = some st' ∧ Good req t (done ++ [e]) st' := by
  obtain ⟨st₁, news, hwrites, hentry⟩ := syncEntry_writes db req st e
  refine ⟨_, hentry, ?_, ?_, ?_⟩
  · -- a row for a target stays
    intro e' he' region hregion
    have hmem : (req.tenantId, e'.date, region) ∈ st₁.holidays.rows.map Holiday.slot := by
      rcases List.mem_append.1 he' with he' | he'
      · rw [hwrites.rows, List.map_append, map_slot_renamed]
        exact List.mem_append_left _ (h.filled e' he' region hregion)
      · rw [List.mem_singleton.1 he']
        exact hwrites.filled region hregion
    obtain ⟨r, hr, hslot⟩ := List.mem_map.1 hmem
    refine List.mem_map.2 ⟨r, mem_deleteWhere.2 ⟨hr, ?_⟩, hslot⟩
    rw [Bool.eq_false_iff, ne_eq, isStale_eq_true]
    rintro ⟨-, -, -, hnot⟩
    rw [(slot_eq_iff.1 hslot).2.2] at hnot
    exact hnot hregion
  · intro r hr htenant hscope hdate
    obtain ⟨hr, hfresh⟩ := mem_deleteWhere.1 hr
    rw [Bool.eq_false_iff, ne_eq, isStale_eq_true] at hfresh
    rw [hwrites.rows, List.mem_append] at hr
    rw [lastName_append]
    by_cases hday : e.date = r.holidayDate
    · -- the entry has given the row its name
      have hregion : r.region ∈ req.targets := by
        by_contra hnot
        exact hfresh ⟨htenant, hday.symm, hscope, hnot⟩
      rw [if_pos hday]
      refine ⟨hregion, ?_⟩
      rcases hr with hr | hr
      · obtain ⟨r₀, -, rfl⟩ := List.mem_map.1 hr
        unfold renamed at *
        split
        · rfl
        · rename_i hcond
          rw [if_neg hcond] at htenant hday hregion hscope
          exact absurd ⟨htenant, hday.symm, hregion, hscope⟩ hcond
      · rw [(hwrites.new r hr).2.2.1]
    · rw [if_neg hday]
      have hbefore : r.holidayDate ∈ done.map GovHKHoliday.date := by
        rw [List.map_append, List.mem_append] at hdate
        rcases hdate with hdate | hdate
        · exact hdate
        · exact absurd (List.mem_singleton.1 hdate).symm hday
      rcases hr with hr | hr
      · obtain ⟨r₀, hr₀, rfl⟩ := List.mem_map.1 hr
        have hsame : renamed req e req.targets r₀ = r₀ := by
          unfold renamed at hday ⊢
          split
          · rename_i hcond
            rw [if_pos hcond] at hday
            exact absurd hcond.2.1.symm hday
          · rfl
        rw [hsame] at htenant hscope hbefore ⊢
        exact h.named r₀ hr₀ htenant hscope hbefore
      · exact absurd (hwrites.new r hr).1.2.1.symm hday
  · -- what was added or taken away is the tenant's and of the feed
    have hdate : e.date ∈ req.feed.map GovHKHoliday.date := List.mem_map_of_mem he
    have hnews : (news.filter fun n => !decide (Mine req n)) = [] := by
      rw [List.filter_eq_nil_iff]
      intro n hn
      obtain ⟨⟨htenant, hday, -⟩, hscope, -⟩ := hwrites.new n hn
      have hmine : Mine req n := ⟨htenant, hscope, hday ▸ hdate⟩
      simp [hmine]
    have hstale : ∀ r, (!decide (Mine req r)) = true → (!isStale req e.date r) = true := by
      intro r hr
      rw [Bool.not_eq_true', Bool.eq_false_iff, ne_eq, isStale_eq_true]
      rintro ⟨htenant, hday, hscope, -⟩
      have hmine : Mine req r := ⟨htenant, hscope, hday ▸ hdate⟩
      simp [hmine] at hr
    have hkept : ((st₁.holidays.deleteWhere (isStale req e.date)).rows.filter fun r => !decide (Mine req r)) =
        st₁.holidays.rows.filter fun r => !decide (Mine req r) := by
      change (st₁.holidays.rows.filter _).filter _ = _
      rw [List.filter_filter]
      refine List.filter_congr fun r _ => ?_
      cases hr : !decide (Mine req r)
      · rfl
      · rw [hstale r hr]
        rfl
    exact hkept.trans (by
      rw [hwrites.rows, List.filter_append, hnews, List.append_nil, filter_map_renamed he, h.others])

theorem Good.run (h : Good req t done st) (db : Defaults) (rest : List GovHKHoliday)
    (hrest : ∀ e ∈ rest, e ∈ req.feed) :
    ∃ st', rest.foldlM (syncEntry db req) st = some st' ∧ Good req t (done ++ rest) st' := by
  induction rest generalizing done st with
  | nil => exact ⟨st, rfl, by simpa using h⟩
  | cons e rest ih =>
    obtain ⟨st₁, hentry, hgood⟩ := h.entry db (hrest e List.mem_cons_self)
    obtain ⟨st₂, hfold, hgood'⟩ := ih hgood fun e' he' => hrest e' (List.mem_cons_of_mem _ he')
    refine ⟨st₂, ?_, by simpa using hgood'⟩
    rw [List.foldlM_cons, hentry]
    exact hfold

theorem Good.exact (h : Good req t req.feed st) : Exact req t st.holidays where
  one e he region hregion := List.count_eq_one_of_mem st.holidays.unique (h.filled e he region hregion)
  mine r hr hmine := h.named r hr hmine.1 hmine.2.1 hmine.2.2
  others := h.others

end FirstRun

/-! ### The second run -/

section SecondRun

variable {req : SyncRequest} {st : Sync} {feed : List GovHKHoliday} {e : GovHKHoliday}

/-- All rows are there, and none is stale, for the entries of the list. -/
structure Complete (req : SyncRequest) (feed : List GovHKHoliday) (rows : List Holiday) : Prop where
  filled : ∀ e ∈ feed, ∀ region ∈ req.targets, (req.tenantId, e.date, region) ∈ rows.map Holiday.slot
  fresh : ∀ e ∈ feed, ∀ r ∈ rows, isStale req e.date r = false

theorem isStale_renamed {regions : List String} {date : String} (r : Holiday) :
    isStale req date (renamed req e regions r) = isStale req date r := by
  unfold renamed
  split <;> rfl

/-- An entry that finds all its rows renames them and does nothing else. -/
theorem syncEntry_complete (db : Defaults) (he : e ∈ feed) (h : Complete req feed st.holidays.rows) :
    ∃ st', syncEntry db req st e = some st' ∧
      st'.holidays.rows = st.holidays.rows.map (renamed req e req.targets) ∧ st'.imported = st.imported := by
  obtain ⟨st₁, news, hwrites, hentry⟩ := syncEntry_writes db req st e
  have hnone : news = [] := by
    refine List.eq_nil_iff_forall_not_mem.2 fun n hn => ?_
    obtain ⟨⟨htenant, hdate, hregion⟩, -, -, hslot⟩ := hwrites.new n hn
    exact hslot (slot_eq_iff.2 ⟨htenant, hdate, rfl⟩ ▸ h.filled e he n.region hregion)
  subst hnone
  have hrows := hwrites.rows
  rw [List.append_nil] at hrows
  refine ⟨_, hentry, ?_, hwrites.imported⟩
  change (st₁.holidays.rows.filter fun r => !isStale req e.date r) = _
  rw [hrows, List.filter_eq_self]
  intro r hr
  obtain ⟨r₀, hr₀, rfl⟩ := List.mem_map.1 hr
  rw [isStale_renamed, h.fresh e he r₀ hr₀]
  rfl

theorem Complete.renamed {rows : List Holiday} {regions : List String} (h : Complete req feed rows) :
    Complete req feed (rows.map (renamed req e regions)) where
  filled e' he' region hregion := by
    rw [map_slot_renamed]
    exact h.filled e' he' region hregion
  fresh e' he' r hr := by
    obtain ⟨r₀, hr₀, rfl⟩ := List.mem_map.1 hr
    rw [isStale_renamed]
    exact h.fresh e' he' r₀ hr₀

theorem sync_complete (db : Defaults) (rest : List GovHKHoliday) (hrest : ∀ e ∈ rest, e ∈ feed)
    (h : Complete req feed st.holidays.rows) :
    ∃ st', rest.foldlM (syncEntry db req) st = some st' ∧
      st'.holidays.rows = (st.holidays.rows.map fun r => rest.foldl (fun r e => renamed req e req.targets r) r) ∧
      st'.imported = st.imported := by
  induction rest generalizing st with
  | nil => exact ⟨st, rfl, by simp, rfl⟩
  | cons e rest ih =>
    obtain ⟨st₁, hentry, hrows, himported⟩ := syncEntry_complete db (hrest e List.mem_cons_self) h
    obtain ⟨st₂, hfold, hrows', himported'⟩ :=
      ih (fun e' he' => hrest e' (List.mem_cons_of_mem _ he')) (hrows ▸ h.renamed)
    refine ⟨st₂, ?_, ?_, himported'.trans himported⟩
    · rw [List.foldlM_cons, hentry]
      exact hfold
    · rw [hrows', hrows, List.map_map]
      rfl

/-- A row ends with the last name that the feed has for its date. -/
theorem foldl_renamed (feed : List GovHKHoliday) (r : Holiday) :
    feed.foldl (fun r e => renamed req e req.targets r) r =
      if r.tenantId = req.tenantId ∧ r.region ∈ req.targets ∧ r.scope = "govhk" then
        { r with name := (lastName feed r.holidayDate).getD r.name }
      else r := by
  induction feed using List.reverseRecOn with
  | nil => simp [lastName]
  | append_singleton feed e ih =>
    rw [List.foldl_append, List.foldl_cons, List.foldl_nil, ih]
    split
    · rename_i hcond
      rw [lastName_append]
      by_cases hdate : e.date = r.holidayDate
      · simp [renamed, hcond, hdate]
      · simp [renamed, hdate, Ne.symm hdate]
    · rename_i hcond
      rw [renamed, if_neg]
      rintro ⟨htenant, -, hregion, hscope⟩
      exact hcond ⟨htenant, hregion, hscope⟩

theorem eq_of_rows {t' : HolidayTable} (h : t.rows = t'.rows) : t = t' := by
  cases t
  cases t'
  rw [HolidayTable.mk.injEq, Table.ext_iff]
  exact h

theorem Good.complete (h : Good req t req.feed st) : Complete req req.feed st.holidays.rows where
  filled := h.filled
  fresh := by
    intro e he r hr
    rw [Bool.eq_false_iff, ne_eq, isStale_eq_true]
    rintro ⟨htenant, hdate, hscope, hnot⟩
    exact hnot (h.named r hr htenant hscope (hdate ▸ List.mem_map_of_mem he)).1

theorem Good.renamed_eq (h : Good req t req.feed st) {r : Holiday} (hr : r ∈ st.holidays.rows) :
    req.feed.foldl (fun r e => renamed req e req.targets r) r = r := by
  rw [foldl_renamed]
  split
  · rename_i hcond
    by_cases hdate : r.holidayDate ∈ req.feed.map GovHKHoliday.date
    · rw [(h.named r hr hcond.1 hcond.2.2 hdate).2]
      rfl
    · have hnone : lastName req.feed r.holidayDate = none := by
        rw [lastName, Option.map_eq_none_iff, List.find?_eq_none]
        intro e he heq
        rw [decide_eq_true_eq] at heq
        exact hdate (List.mem_map.2 ⟨e, List.mem_reverse.1 he, heq⟩)
      rw [hnone]
      rfl
  · rfl

end SecondRun

/-- **A synchronisation is exact, and a second one changes nothing**, whoever makes it. -/
theorem sync_exact (db db' : Defaults) (req : SyncRequest) (userId : Option Uuid) (t : HolidayTable) :
    ∃ st, syncFromGovHK db req t = some st ∧ Exact req t st.holidays ∧
      ∃ skipped, syncFromGovHK db' { req with userId := userId } st.holidays = some ⟨st.holidays, 0, skipped⟩ := by
  have hstart : Good req t [] { holidays := t } := ⟨by simp, by simp, rfl⟩
  obtain ⟨st, hrun, hgood⟩ := hstart.run db req.feed fun _ he => he
  rw [List.nil_append] at hgood
  refine ⟨st, hrun, hgood.exact, ?_⟩
  -- the request of the second run asks for the same rows
  have hcomplete : Complete { req with userId := userId } req.feed ({ holidays := st.holidays } : Sync).holidays.rows :=
    ⟨hgood.complete.filled, hgood.complete.fresh⟩
  obtain ⟨st', hrun', hrows, himported⟩ := sync_complete db' req.feed (fun _ he => he) hcomplete
  have hsame : st'.holidays = st.holidays := by
    refine eq_of_rows (hrows.trans ?_)
    exact (List.map_congr_left fun r hr => hgood.renamed_eq hr).trans (List.map_id _)
  refine ⟨st'.skipped, hrun'.trans (congrArg some ?_)⟩
  cases st'
  cases hsame
  cases himported
  rfl

end BookingSystem.Contracts.HolidaySync
