import BookingSystem.Base.Run
import BookingSystem.Contracts.PlainCreation
import BookingSystem.Service.Series
import Mathlib.Data.List.Induction

/-!
# Series by the rules of single bookings

A series should persist a booking only where a single creation at that point would have persisted the same one, and
nothing at all if an occurrence meets another booking. The expansion asks none of the rules but the overlap check, books
every occurrence as confirmed and exclusive, and skips the occurrences that meet others. So it keeps to this exactly if
every occurrence finds its window free and is one that all the rules let through, or if nothing is persisted: every
window is taken, or the transaction is lost because the database refuses an occurrence or a statement fails
(`obeysSingleRules_iff`).
-/

namespace BookingSystem.Contracts.SeriesRules

open Base Service Contracts.AtomicCreation
open Contracts.PlainCreation
open Model (Uuid Instant BookingStatus)

/-! ### The windows of a series -/

section turns

variable (c : CreateSetup) (broken : ℕ → Bool) (seriesId : Uuid) (req : SeriesRequest)

def rowOf (e : Uuid × Occurrence) : Booking := (occurrenceBooking c seriesId req e.1 e.2).inserted

/-- Another booking meets the window of the occurrence. -/
def WindowTaken (t : Table Booking) (e : Uuid × Occurrence) : Prop :=
  hasConflict c.resources t req.resourceId e.2.start e.2.finish = true

instance (t : Table Booking) (e : Uuid × Occurrence) : Decidable (WindowTaken c req t e) :=
  inferInstanceAs (Decidable (_ = true))

/-- Two occurrences have a time in common. -/
def Meets (k e : Uuid × Occurrence) : Prop := k.2.start < e.2.finish ∧ e.2.start < k.2.finish

instance (k e : Uuid × Occurrence) : Decidable (Meets k e) := inferInstanceAs (Decidable (_ ∧ _))

def sift (t : Table Booking) (kept : List (Uuid × Occurrence)) (e : Uuid × Occurrence) : List (Uuid × Occurrence) :=
  if WindowTaken c req t e ∨ ∃ k ∈ kept, Meets k e then kept else kept ++ [e]

def freeOnes (t : Table Booking) (es : List (Uuid × Occurrence)) : List (Uuid × Occurrence) := run (sift c req t) [] es

/-- The database takes the row of the occurrence into a window that is free. -/
def Storable (e : Uuid × Occurrence) : Prop := e.2.start ≤ e.2.finish ∧ c.admits (rowOf c seriesId req e) = true

def turn (s : Session) (e : Uuid × Occurrence) : Session := ((bookOccurrence c broken seriesId req e.1 e.2).on s).2

variable {c broken seriesId req} {e : Uuid × Occurrence} {p : List (Uuid × Occurrence)} {t : Table Booking}
  {s : Session}

theorem freeOnes_concat (t : Table Booking) (p : List (Uuid × Occurrence)) (e : Uuid × Occurrence) :
    freeOnes c req t (p ++ [e]) = sift c req t (freeOnes c req t p) e := by
  rw [freeOnes, run_append]
  rfl

/-- The occurrence is free after the earlier ones. -/
def FreeAfter (c : CreateSetup) (req : SeriesRequest) (t : Table Booking) (p : List (Uuid × Occurrence))
    (e : Uuid × Occurrence) : Prop :=
  ¬ (WindowTaken c req t e ∨ ∃ k ∈ freeOnes c req t p, Meets k e)

theorem freeOnes_taken (h : WindowTaken c req t e ∨ ∃ k ∈ freeOnes c req t p, Meets k e) :
    freeOnes c req t (p ++ [e]) = freeOnes c req t p := by
  rw [freeOnes_concat, sift, if_pos h]

theorem freeOnes_free (h : FreeAfter c req t p e) : freeOnes c req t (p ++ [e]) = freeOnes c req t p ++ [e] := by
  rw [freeOnes_concat, sift, if_neg h]

theorem freeOnes_sublist (t : Table Booking) (es : List (Uuid × Occurrence)) : (freeOnes c req t es).Sublist es := by
  induction es using List.reverseRecOn with
  | nil => exact List.Sublist.refl _
  | append_singleton p e ih =>
    by_cases h : WindowTaken c req t e ∨ ∃ k ∈ freeOnes c req t p, Meets k e
    · rw [freeOnes_taken h]
      exact ih.trans (List.sublist_append_left p [e])
    · rw [freeOnes_free h]
      exact ih.append_right [e]

variable (c req) in
theorem freeOnes_initial (t : Table Booking) (p q : List (Uuid × Occurrence)) :
    freeOnes c req t p <+: freeOnes c req t (p ++ q) := by
  induction q using List.reverseRecOn with
  | nil => exact (List.append_nil p).symm ▸ List.prefix_refl _
  | append_singleton q e ih =>
    rw [← List.append_assoc, freeOnes_concat, sift]
    split
    · exact ih
    · exact ih.trans (List.prefix_append _ _)

theorem windowTaken_append {t' : Table Booking} {kept : List (Uuid × Occurrence)}
    (hrows : t'.rows = t.rows ++ kept.map (rowOf c seriesId req)) :
    WindowTaken c req t' e ↔ WindowTaken c req t e ∨ ∃ k ∈ kept, Meets k e := by
  have hown : ∀ k : Uuid × Occurrence, (decide ((rowOf c seriesId req k).resourceId ∈
      targets c.resources req.resourceId) && (rowOf c seriesId req k).active &&
        (rowOf c seriesId req k).meets e.2.start e.2.finish) = true ↔ Meets k e := fun k => by
    have htarget : req.resourceId ∈ targets c.resources req.resourceId := List.mem_append_left _ List.mem_cons_self
    rw [Bool.and_eq_true, Bool.and_eq_true]
    have hmeets : (rowOf c seriesId req k).meets e.2.start e.2.finish = true ↔ Meets k e := by
      rw [Booking.meets, Bool.and_eq_true, decide_eq_true_eq, decide_eq_true_eq]
      exact Iff.rfl
    exact ⟨fun h => hmeets.1 h.2, fun h => ⟨⟨decide_eq_true htarget, rfl⟩, hmeets.2 h⟩⟩
  simp only [WindowTaken, hasConflict, hrows, List.any_append, List.any_map, Bool.or_eq_true, List.any_eq_true,
    Function.comp_apply, hown]

theorem noOverlap_of_free (hfree : ¬ WindowTaken c req t e) {b : Booking} (hresource : b.resourceId = req.resourceId)
    (hstart : b.startTime = e.2.start) (hfinish : b.endTime = e.2.finish) : noOverlap t b = true := by
  refine List.all_eq_true.2 fun r hr => ?_
  simp only [Bool.or_eq_true, decide_eq_true_eq, Bool.not_eq_true']
  right
  by_contra hexcludes
  simp only [Bool.not_eq_false, Booking.excludes, Bool.and_eq_true, decide_eq_true_eq, Booking.exclusive,
    Model.BookingsService.rangesOverlap, hstart, hfinish] at hexcludes
  obtain ⟨⟨⟨hsame, hactive, -⟩, -⟩, ⟨-, hbefore⟩, hafter⟩ := hexcludes
  refine hfree (List.any_eq_true.2 ⟨r, hr, ?_⟩)
  simp only [Bool.and_eq_true, decide_eq_true_eq, Booking.meets]
  refine ⟨⟨?_, hactive⟩, hbefore, hafter⟩
  rw [hsame, hresource]
  exact List.mem_append_left _ List.mem_cons_self

/-! ### The turns of the loop -/

theorem turn_eq {s' : Session} {x : Except CallError Bool}
    (hcheck : (query broken fun own => hasConflict c.resources own.bookings req.resourceId e.2.start e.2.finish).on s = (x, s')) :
    turn c broken seriesId req s e = if x.toOption.getD false then s'
      else ((saveBooking broken c.admits (occurrenceBooking c seriesId req e.1 e.2)).on s').2 := by
  have hattempt : (Prog.attempt (query broken fun own =>
      hasConflict c.resources own.bookings req.resourceId e.2.start e.2.finish)).on s = (.ok x, s') := by
    simp only [Prog.attempt, Prog.on_of, hcheck]
  rw [turn, bookOccurrence, on_bind_of hattempt]
  by_cases hconflict : x.toOption.getD false = true
  · rw [if_pos hconflict, if_pos hconflict]
    rfl
  · rw [if_neg hconflict, if_neg hconflict]
    exact congrArg Prod.snd (on_bind_of (m := Prog.attempt (saveBooking broken c.admits
      (occurrenceBooking c seriesId req e.1 e.2))) rfl)

theorem aborted_saveBooking {b : Booking} (h : s.aborted = true ∨ broken s.ran = true) :
    ((saveBooking broken c.admits b).on s).2.aborted = true := by
  have hfails : (s.aborted || broken s.ran) = true := by simpa using h
  simp only [saveBooking, Prog.on_bind, exec, Prog.on_of, hfails, if_true]

theorem turn_of_check_fails (h : s.aborted = true ∨ broken s.ran = true) (e : Uuid × Occurrence) :
    (turn c broken seriesId req s e).aborted = true := by
  have hfails : (s.aborted || broken s.ran) = true := by simpa using h
  have hcheck : (query broken fun own =>
      hasConflict c.resources own.bookings req.resourceId e.2.start e.2.finish).on s =
        (.error .database, { s with aborted := true, ran := s.ran + 1 }) := by
    simp only [query, exec, Prog.on_of, hfails, if_true]
  rw [turn_eq hcheck]
  exact aborted_saveBooking (.inl rfl)

theorem turn_of_check (h : s.aborted = false) (hran : broken s.ran = false) (e : Uuid × Occurrence) :
    turn c broken seriesId req s e =
      if WindowTaken c req s.own.bookings e then { s with ran := s.ran + 1 }
      else ((saveBooking broken c.admits (occurrenceBooking c seriesId req e.1 e.2)).on
        { s with ran := s.ran + 1 }).2 :=
  turn_eq (x := .ok (hasConflict c.resources s.own.bookings req.resourceId e.2.start e.2.finish)) (by
    simp only [query, exec, Prog.on_of, h, hran]
    rfl)

/-- What one turn does: nothing more in a spoiled transaction, nothing when the window is taken, the row when the
database takes it; the transaction is spoiled when a statement fails or the database refuses the row. -/
inductive Turned (c : CreateSetup) (broken : ℕ → Bool) (seriesId : Uuid) (req : SeriesRequest) (s : Session)
    (e : Uuid × Occurrence) (s' : Session) : Prop
  | spoiled (h : s.aborted = true) (h' : s'.aborted = true)
  | failed (h : s.aborted = false) (hran : broken s.ran = true ∨
      ¬ WindowTaken c req s.own.bookings e ∧ broken (s.ran + 1) = true) (h' : s'.aborted = true)
  | skipped (h : s.aborted = false) (hran : broken s.ran = false) (htaken : WindowTaken c req s.own.bookings e)
      (hown : s'.own = s.own) (hcount : s'.ran = s.ran + 1) (h' : s'.aborted = false)
  | stored (h : s.aborted = false) (hran : broken s.ran = false) (hran' : broken (s.ran + 1) = false)
      (hfree : ¬ WindowTaken c req s.own.bookings e) (hstorable : Storable c seriesId req e)
      (hrows : s'.own.bookings.rows = s.own.bookings.rows ++ [rowOf c seriesId req e])
      (hcount : s'.ran = s.ran + 2) (h' : s'.aborted = false)
  | refused (h : s.aborted = false) (hfree : ¬ WindowTaken c req s.own.bookings e)
      (hrefused : ¬ Storable c seriesId req e) (h' : s'.aborted = true)

variable (c broken seriesId req) in
theorem turned (hnew : s.aborted = false → s.own.bookings.find? e.1 = none) :
    Turned c broken seriesId req s e (turn c broken seriesId req s e) := by
  cases h : s.aborted with
  | true => exact .spoiled h (turn_of_check_fails (.inl h) e)
  | false =>
    cases hran : broken s.ran with
    | true => exact .failed h (.inl hran) (turn_of_check_fails (.inr hran) e)
    | false =>
      rw [turn_of_check h hran]
      split
      · rename_i htaken
        exact .skipped h hran htaken rfl rfl h
      · rename_i hfree
        cases hran' : broken (s.ran + 1) with
        | true => exact .failed h (.inr ⟨hfree, hran'⟩) (aborted_saveBooking (.inr hran'))
        | false =>
          by_cases hstorable : Storable c seriesId req e
          · obtain ⟨t, ht⟩ := Table.insert?_of_find? (t := s.own.bookings) (a := rowOf c seriesId req e) (hnew h)
            have hrows := (Table.insert?_eq_some_iff.1 ht).2
            have hsave : save c.admits s.own.bookings (occurrenceBooking c seriesId req e.1 e.2) = .ok t :=
              (save_new (b := occurrenceBooking c seriesId req e.1 e.2) (hnew h)).2
                ⟨hstorable.1, hstorable.2, noOverlap_of_free hfree rfl rfl rfl, hrows⟩
            rw [saveBooking_ok (s := { s with ran := s.ran + 1 }) h hran' (hnew h) hsave]
            exact .stored h hran hran' hfree hstorable hrows rfl h
          · cases hsave : save c.admits s.own.bookings (occurrenceBooking c seriesId req e.1 e.2) with
            | ok t =>
              obtain ⟨hrange, hadmits, -, -⟩ :=
                (save_new (b := occurrenceBooking c seriesId req e.1 e.2) (hnew h)).1 hsave
              exact absurd ⟨hrange, hadmits⟩ hstorable
            | error err =>
              rw [saveBooking_error (s := { s with ran := s.ran + 1 }) h hran' (hnew h) hsave]
              exact .refused h hfree hstorable rfl

variable (broken) in
theorem rows_exec {α : Type} (f : Pinned → Except CallError (α × Pinned)) (s : Session) :
    ((exec broken f).on s).2.rows = s.rows := by
  simp only [exec, Prog.on_of]
  split
  · rfl
  · split <;> rfl

theorem rows_saveBooking (admits : Booking → Bool) (b : Booking) (s : Session) :
    ((saveBooking broken admits b).on s).2.rows = s.rows := by
  rw [saveBooking, Prog.on_bind]
  have hrows := rows_exec broken (fun own : Pinned =>
    if (own.bookings.find? b.id).any fun r => r.version != b.version then .ok (false, own)
    else (save admits own.bookings b).map fun t => (true, { own with bookings := t })) s
  generalize (exec broken _).on s = r at hrows ⊢
  obtain ⟨e | current, s'⟩ := r
  · exact hrows
  · exact hrows

theorem rows_turn (s : Session) (e : Uuid × Occurrence) : (turn c broken seriesId req s e).rows = s.rows := by
  have hcheck := rows_exec broken (fun own => .ok (hasConflict c.resources own.bookings req.resourceId
    e.2.start e.2.finish, own)) s
  rw [turn_eq (Prod.mk.eta (p := (query broken fun own =>
    hasConflict c.resources own.bookings req.resourceId e.2.start e.2.finish).on s)).symm]
  split
  · exact hcheck
  · exact (rows_saveBooking _ _ _).trans hcheck

/-! ### Runs of turns -/

variable {s₀ : Session}

theorem rows_run (es : List (Uuid × Occurrence)) : (run (turn c broken seriesId req) s₀ es).rows = s₀.rows := by
  induction es generalizing s₀ with
  | nil => rfl
  | cons e es ih => rw [run_cons, ih, rows_turn]

theorem find?_of_kept {t' : Table Booking}
    (hrows : t'.rows = t.rows ++ (freeOnes c req t p).map (rowOf c seriesId req)) (hnew : t.find? e.1 = none)
    (hnodup : ((p ++ [e]).map Prod.fst).Nodup) : t'.find? e.1 = none := by
  refine Table.find?_eq_none_iff.2 fun r hr heq => ?_
  rw [hrows, List.mem_append, List.mem_map] at hr
  obtain hr | ⟨x, hx, rfl⟩ := hr
  · exact Table.find?_eq_none_iff.1 hnew r hr heq
  · rw [List.map_append, List.nodup_append] at hnodup
    exact hnodup.2.2 x.1 (List.mem_map_of_mem ((freeOnes_sublist t p).subset hx)) e.1 (by simp) heq

variable (c broken seriesId req)

/-- The transaction of the series is lost: one of the statements from number `n₀` on fails, a check for each occurrence
and a `Save` for each free one, or the database does not take the row of a free occurrence. -/
def Lost (t : Table Booking) (n₀ : ℕ) (es : List (Uuid × Occurrence)) : Prop :=
  (∃ n, n₀ ≤ n ∧ n < n₀ + es.length + (freeOnes c req t es).length ∧ broken n = true) ∨
    ∃ e ∈ freeOnes c req t es, ¬ Storable c seriesId req e

variable {c broken seriesId req}

theorem Lost.append {n₀ : ℕ} (h : Lost c broken seriesId req t n₀ p) (q : List (Uuid × Occurrence)) :
    Lost c broken seriesId req t n₀ (p ++ q) := by
  obtain ⟨n, hle, hlt, hn⟩ | ⟨e, he, hrefused⟩ := h
  · have hlength := (freeOnes_initial c req t p q).length_le
    refine .inl ⟨n, hle, ?_, hn⟩
    rw [List.length_append]
    omega
  · exact .inr ⟨e, (freeOnes_initial c req t p q).subset he, hrefused⟩

variable (c broken seriesId req) in
/-- After some turns the transaction is spoiled exactly if it is lost; if it is not, the rows of the free occurrences
are what is new. -/
theorem run_turns (s₀ : Session) (h₀ : s₀.aborted = false) {es : List (Uuid × Occurrence)}
    (hnew : ∀ e ∈ es, s₀.own.bookings.find? e.1 = none) (hnodup : (es.map Prod.fst).Nodup) :
    ((run (turn c broken seriesId req) s₀ es).aborted = true ↔
        Lost c broken seriesId req s₀.own.bookings s₀.ran es) ∧
      ((run (turn c broken seriesId req) s₀ es).aborted = false →
        (run (turn c broken seriesId req) s₀ es).ran =
            s₀.ran + es.length + (freeOnes c req s₀.own.bookings es).length ∧
          (run (turn c broken seriesId req) s₀ es).own.bookings.rows = s₀.own.bookings.rows ++
            (freeOnes c req s₀.own.bookings es).map (rowOf c seriesId req)) := by
  induction es using List.reverseRecOn with
  | nil =>
    refine ⟨iff_of_false (by simp [h₀]) ?_, fun _ => ⟨rfl, by simp [freeOnes]⟩⟩
    rintro (⟨n, hle, hlt, -⟩ | ⟨e, he, -⟩)
    · exact absurd hlt (not_lt.2 hle)
    · cases he
  | append_singleton p e ih =>
    obtain ⟨hlost, hkept⟩ := ih (fun x hx => hnew x (List.mem_append_left _ hx)) (by
      rw [List.map_append] at hnodup
      exact hnodup.of_append_left)
    set t := s₀.own.bookings
    set s := run (turn c broken seriesId req) s₀ p with hs
    have hid : s.aborted = false → s.own.bookings.find? e.1 = none := fun hok =>
      find?_of_kept (hkept hok).2 (hnew e (by simp)) hnodup
    have htaken_iff : s.aborted = false → (WindowTaken c req s.own.bookings e ↔
        WindowTaken c req t e ∨ ∃ k ∈ freeOnes c req t p, Meets k e) := fun hok => windowTaken_append (hkept hok).2
    have hunspoiled : s.aborted = false → ¬ Lost c broken seriesId req t s₀.ran p := fun hok hl => by
      rw [hlost.2 hl] at hok
      cases hok
    rw [run_append, run_cons, run_nil, ← hs, List.length_append, List.length_singleton]
    cases turned c broken seriesId req hid with
    | spoiled h h' =>
      exact ⟨iff_of_true h' ((hlost.1 h).append [e]), fun hok => by rw [h'] at hok; cases hok⟩
    | failed h hran h' =>
      refine ⟨iff_of_true h' (.inl ?_), fun hok => by rw [h'] at hok; cases hok⟩
      obtain ⟨hcount, -⟩ := hkept h
      have hlength := (freeOnes_initial c req t p [e]).length_le
      rw [List.length_append, List.length_singleton]
      obtain hran | ⟨hfree, hran⟩ := hran
      · exact ⟨s.ran, by omega, by omega, hran⟩
      · rw [htaken_iff h] at hfree
        refine ⟨s.ran + 1, by omega, ?_, hran⟩
        rw [freeOnes_free hfree, List.length_append, List.length_singleton]
        omega
    | skipped h hran htaken hown hcount' h' =>
      obtain ⟨hcount, hrows⟩ := hkept h
      rw [htaken_iff h] at htaken
      refine ⟨iff_of_false (by rw [h']; exact Bool.false_ne_true) fun hl => hunspoiled h ?_, fun _ => ?_⟩
      · obtain ⟨n, hle, hlt, hn⟩ | hrefused := hl
        · rw [freeOnes_taken htaken, List.length_append, List.length_singleton] at hlt
          refine .inl ⟨n, hle, lt_of_le_of_ne (by omega) fun heq => ?_, hn⟩
          rw [heq, ← hcount, hran] at hn
          cases hn
        · rw [freeOnes_taken htaken] at hrefused
          exact .inr hrefused
      · rw [freeOnes_taken htaken, hown, hrows]
        exact ⟨by omega, rfl⟩
    | stored h hran hran' hfree hstorable hrows' hcount' h' =>
      obtain ⟨hcount, hrows⟩ := hkept h
      rw [htaken_iff h] at hfree
      refine ⟨iff_of_false (by rw [h']; exact Bool.false_ne_true) fun hl => hunspoiled h ?_, fun _ => ?_⟩
      · obtain ⟨n, hle, hlt, hn⟩ | ⟨x, hx, hrefused⟩ := hl
        · rw [freeOnes_free hfree, List.length_append, List.length_append, List.length_singleton] at hlt
          have hne : n ≠ s.ran := fun heq => by rw [heq, hran] at hn; cases hn
          have hne' : n ≠ s.ran + 1 := fun heq => by rw [heq, hran'] at hn; cases hn
          exact .inl ⟨n, hle, by omega, hn⟩
        · rw [freeOnes_free hfree, List.mem_append, List.mem_singleton] at hx
          obtain hx | rfl := hx
          · exact .inr ⟨x, hx, hrefused⟩
          · exact absurd hstorable hrefused
      · rw [freeOnes_free hfree, hrows', hrows, List.map_append, List.append_assoc, List.length_append]
        exact ⟨by simp only [List.length_singleton]; omega, rfl⟩
    | refused h hfree hrefused h' =>
      rw [htaken_iff h] at hfree
      refine ⟨iff_of_true h' (.inr ⟨e, ?_, hrefused⟩), fun hok => by rw [h'] at hok; cases hok⟩
      rw [freeOnes_free hfree]
      exact List.mem_append_right _ List.mem_cons_self

/-! ### The whole loop -/

def turns (newId : ℕ → Uuid) (k : ℕ) (occs : List Occurrence) : List (Uuid × Occurrence) :=
  (occs.zipIdx k).map fun p => (newId p.2, p.1)

variable (c broken seriesId req) in
theorem bookOccurrence_ok (s : Session) (e : Uuid × Occurrence) : ∃ booked,
    (bookOccurrence c broken seriesId req e.1 e.2).on s = (.ok booked, turn c broken seriesId req s e) := by
  have hok : ∃ booked, ((bookOccurrence c broken seriesId req e.1 e.2).on s).1 = .ok booked := by
    rw [bookOccurrence, on_bind_of (m := Prog.attempt _) rfl]
    split
    · exact ⟨false, rfl⟩
    · rw [on_bind_of (m := Prog.attempt _) rfl]
      exact ⟨_, rfl⟩
  obtain ⟨booked, hok⟩ := hok
  exact ⟨booked, Prod.ext hok rfl⟩

variable (c broken seriesId req) in
theorem bookAll_ok (newId : ℕ → Uuid) (occs : List Occurrence) (k : ℕ) (s : Session) : ∃ result,
    (bookAll c broken seriesId req newId k occs).on s =
      (.ok result, run (turn c broken seriesId req) s (turns newId k occs)) := by
  induction occs generalizing k s with
  | nil => exact ⟨_, rfl⟩
  | cons occ rest ih =>
    obtain ⟨booked, hbooked⟩ := bookOccurrence_ok c broken seriesId req s
      (newId k, occ)
    obtain ⟨result, hresult⟩ := ih (k + 1) (turn c broken seriesId req s (newId k, occ))
    rw [bookAll, on_bind_of hbooked, on_bind_of hresult]
    exact ⟨_, rfl⟩

theorem nodup_turns {newId : ℕ → Uuid} (hinj : Function.Injective newId) (k : ℕ) (occs : List Occurrence) :
    ((turns newId k occs).map Prod.fst).Nodup := by
  rw [turns, List.map_map]
  have hmap : (occs.zipIdx k).map (Prod.fst ∘ fun p : Occurrence × ℕ => (newId p.2, p.1)) =
      ((occs.zipIdx k).map Prod.snd).map newId := by
    rw [List.map_map]
    rfl
  rw [hmap, List.zipIdx_map_snd]
  exact (List.nodup_range').map hinj

end turns

/-! ### The rules of single bookings -/

/-- The request of a single booking in the place of an occurrence. -/
def single (req : SeriesRequest) (occ : Occurrence) : CreateRequest where
  tenantId := req.tenantId
  resourceId := req.resourceId
  userId := req.userId
  start := occ.start
  finish := occ.finish
  meetingUrl := req.meetingUrl

/-- `ExecuteRequest` would persist the occurrence in this session, with the status and the mode of the row `r`, and
would leave these steps. -/
def PersistsAlone (c : CreateSetup) (req : SeriesRequest) (stepId : ℕ → Uuid) (s : Session) (e : Uuid × Occurrence)
    (r : Booking) (steps : Table Step) : Prop :=
  ∃ result s', (executeRequest c (fun _ => false) (single req e.2) e.1 stepId).on s = (.ok result, s') ∧
    (∃ r', s'.own.bookings.find? e.1 = some r' ∧ r'.status = r.status ∧ r'.bookingMode = r.bookingMode) ∧
    s'.rows.steps = steps

/-- **What the rules let through without approval**: the time and the limit, no holiday, an active resource that is
exclusive and asks for no approval, a role that is neither denied nor supervised, no rule with levels, and a row that
the database admits. -/
structure Allowed (c : CreateSetup) (req : SeriesRequest) (e : Uuid × Occurrence) : Prop where
  request : checkRequest c (single req e.2) = .ok ()
  limit : checkLimit c req.tenantId req.userId = .ok ()
  holiday : checkHoliday c.policy e.2.start = .ok ()
  active : checkActive (c.policy.resource c.resources req.resourceId) = .ok ()
  exclusive : (c.policy.resource c.resources req.resourceId).any Resource.isShared = false
  unapproved : (c.policy.resource c.resources req.resourceId).any Resource.requiresApproval = false
  granted : (privilegeFor c.policy (c.policy.resource c.resources req.resourceId) (single req e.2).input).deny = false
  unsupervised :
    (privilegeFor c.policy (c.policy.resource c.resources req.resourceId) (single req e.2).input).forceApproval = false
  chainFree : ChainFree c req.tenantId (c.policy.resource c.resources req.resourceId)
  admitted : c.admits (newBooking c e.1 (single req e.2)
    ⟨c.policy.resource c.resources req.resourceId, false⟩).inserted = true

/-- **The contract of a series**: each booking that is persisted is one that a single creation at that point would have
persisted in the same way, and when an occurrence meets another booking none is persisted. -/
structure ObeysSingleRules (c : CreateSetup) (broken : ℕ → Bool) (seriesId : Uuid) (req : SeriesRequest)
    (stepId : ℕ → Uuid) (s₀ : Session) (es : List (Uuid × Occurrence)) (before after : Rows) : Prop where
  alone : ∀ r ∈ after.bookings.rows, r ∉ before.bookings.rows → ∃ p e q, es = p ++ e :: q ∧ e.1 = r.id ∧
    PersistsAlone c req stepId (run (turn c broken seriesId req) s₀ p) e r after.steps
  whole : (∃ p e q, es = p ++ e :: q ∧ WindowTaken c req (run (turn c broken seriesId req) s₀ p).own.bookings e) →
    after.bookings = before.bookings

/-- **When it is kept**: every occurrence meets neither a booking nor an earlier occurrence and is allowed; or nothing
comes of the series, for every window is taken or the transaction is lost. -/
def KeepsToRules (c : CreateSetup) (broken : ℕ → Bool) (seriesId : Uuid) (req : SeriesRequest) (t : Table Booking)
    (es : List (Uuid × Occurrence)) : Prop :=
  (∀ p e q, es = p ++ e :: q → ¬ WindowTaken c req t e ∧ (∀ k ∈ p, ¬ Meets k e) ∧ Allowed c req e) ∨
    (∀ e ∈ es, WindowTaken c req t e) ∨ Lost c broken seriesId req t 1 es

section rules

variable {c : CreateSetup} {broken : ℕ → Bool} {seriesId : Uuid} {req : SeriesRequest} {e : Uuid × Occurrence}
  {stepId : ℕ → Uuid} {s : Session}

theorem validate_single (hfree : ¬ WindowTaken c req s.own.bookings e)
    (hexclusive : (c.policy.resource c.resources req.resourceId).any Resource.isShared = false)
    {vres : ValidationResult} :
    validate c.policy c.resources s.own.bookings (single req e.2).input = .ok vres ↔
      checkHoliday c.policy e.2.start = .ok () ∧
      checkActive (c.policy.resource c.resources req.resourceId) = .ok () ∧
      (privilegeFor c.policy (c.policy.resource c.resources req.resourceId) (single req e.2).input).deny = false ∧
      vres = ⟨c.policy.resource c.resources req.resourceId,
        (c.policy.resource c.resources req.resourceId).any Resource.requiresApproval ||
          (privilegeFor c.policy (c.policy.resource c.resources req.resourceId)
            (single req e.2).input).forceApproval⟩ := by
  have hslot : checkSlot c.resources s.own.bookings (c.policy.resource c.resources req.resourceId)
      (single req e.2).input = .ok () := by
    have hfilter : (c.policy.resource c.resources req.resourceId).filter Resource.isShared = none := by
      cases hresource : c.policy.resource c.resources req.resourceId with
      | none => rfl
      | some r => simpa [hresource, Option.filter] using hexclusive
    simp only [checkSlot, hfilter]
    refine require_of ?_
    rw [Bool.or_eq_true, Bool.not_eq_true']
    exact .inr (Bool.eq_false_of_not_eq_true hfree)
  have hinput : (single req e.2).input.resourceId = req.resourceId := rfl
  simp only [validate, bind_eq_ok, require_eq_ok, pure_eq_ok, hinput, hslot, Bool.not_eq_true']
  constructor
  · rintro ⟨u, hholiday, v, hactive, -, -, -, hdeny, rfl⟩
    exact ⟨hholiday, hactive, hdeny, rfl⟩
  · rintro ⟨hholiday, hactive, hdeny, rfl⟩
    exact ⟨(), hholiday, (), hactive, (), trivial, (), hdeny, rfl⟩

theorem Allowed.of_accepts (hfree : ¬ WindowTaken c req s.own.bookings e) {vres : ValidationResult}
    (haccepts : Accepts c s.own.bookings (single req e.2) vres)
    (hadmits : c.admits (newBooking c e.1 (single req e.2) vres).inserted = true)
    (hunapproved : vres.requiresApproval = false) (hunshared : vres.resource.any Resource.isShared = false) :
    Allowed c req e := by
  obtain ⟨hrequest, hlimit, hvalidate, hchain⟩ := haccepts
  have hresource : vres.resource = c.policy.resource c.resources req.resourceId := by
    simp only [validate, bind_eq_ok, pure_eq_ok] at hvalidate
    obtain ⟨-, -, -, -, -, -, -, -, rfl⟩ := hvalidate
    rfl
  rw [hresource] at hunshared
  obtain ⟨hholiday, hactive, hdeny, rfl⟩ := (validate_single hfree hunshared).1 hvalidate
  obtain ⟨hresourceFree, hroleFree⟩ := Bool.or_eq_false_iff.1 hunapproved
  refine ⟨hrequest, hlimit, hholiday, hactive, hunshared, hresourceFree, hdeny, hroleFree, hchain, ?_⟩
  rwa [hresourceFree, hroleFree] at hadmits

theorem Allowed.accepts (hallowed : Allowed c req e) (hnew : s.own.bookings.find? e.1 = none)
    (hfree : ¬ WindowTaken c req s.own.bookings e) : ∃ t,
    Accepts c s.own.bookings (single req e.2) ⟨c.policy.resource c.resources req.resourceId, false⟩ ∧
      save c.admits s.own.bookings (newBooking c e.1 (single req e.2)
        ⟨c.policy.resource c.resources req.resourceId, false⟩) = .ok t := by
  have hvalidate : validate c.policy c.resources s.own.bookings (single req e.2).input =
      .ok ⟨c.policy.resource c.resources req.resourceId, false⟩ := (validate_single hfree hallowed.exclusive).2
      ⟨hallowed.holiday, hallowed.active, hallowed.granted, by rw [hallowed.unapproved, hallowed.unsupervised]; rfl⟩
  obtain ⟨t, ht⟩ := Table.insert?_of_find? (t := s.own.bookings) (a := (newBooking c e.1 (single req e.2)
    ⟨c.policy.resource c.resources req.resourceId, false⟩).inserted) hnew
  have hrange : e.2.start ≤ e.2.finish := by
    have hrequest := hallowed.request
    simp only [checkRequest, bind_eq_ok, require_eq_ok, decide_eq_true_eq] at hrequest
    obtain ⟨-, hlt, -⟩ := hrequest
    exact le_of_lt hlt
  exact ⟨t, ⟨hallowed.request, hallowed.limit, hvalidate, hallowed.chainFree⟩, (save_new hnew).2
    ⟨hrange, hallowed.admitted, noOverlap_of_free hfree rfl rfl rfl, (Table.insert?_eq_some_iff.1 ht).2⟩⟩

/-- In a free window a creation would persist what the series does exactly if the rules let it through. -/
theorem persistsAlone_iff (h : s.aborted = false) (hnew : s.own.bookings.find? e.1 = none)
    (hunknown : s.rows.bookings.find? e.1 = none) (hrefer : StepsRefer s.rows)
    (hfree : ¬ WindowTaken c req s.own.bookings e) :
    PersistsAlone c req stepId s e (rowOf c seriesId req e) s.rows.steps ↔ Allowed c req e := by
  obtain ⟨vres, t, result, n, haccepts, hsaved, hon⟩ | ⟨hnot, err, s'', herror⟩ :=
    executeRequest_run c h (single req e.2) stepId rfl hnew hunknown hrefer
  · obtain ⟨-, hadmits, -, hrows⟩ := (save_new (b := newBooking c e.1 (single req e.2) vres) hnew).1 hsaved
    have hfind : t.find? e.1 = some (newBooking c e.1 (single req e.2) vres).inserted := by
      refine Table.find?_eq_some_iff.2 ⟨?_, rfl⟩
      rw [hrows]
      exact List.mem_append_right _ List.mem_cons_self
    constructor
    · rintro ⟨result', s', hon', ⟨r', hr', hstatus, hmode⟩, -⟩
      obtain ⟨-, rfl⟩ := Prod.mk.inj (hon.symm.trans hon')
      obtain rfl := Option.some.inj (hfind.symm.trans hr')
      refine Allowed.of_accepts hfree haccepts hadmits ?_ ?_
      · by_contra happroval
        rw [Bool.not_eq_false] at happroval
        simp [newBooking, Booking.inserted, rowOf, occurrenceBooking, happroval] at hstatus
      · by_contra hshared
        rw [Bool.not_eq_false] at hshared
        simp [newBooking, Booking.inserted, rowOf, occurrenceBooking, hshared] at hmode
    · intro hallowed
      obtain ⟨t', haccepts', -⟩ := hallowed.accepts hnew hfree
      obtain rfl := Except.ok.inj (haccepts.2.2.1.symm.trans haccepts'.2.2.1)
      refine ⟨result, _, hon, ⟨_, hfind, rfl, ?_⟩, rfl⟩
      simp [newBooking, Booking.inserted, rowOf, occurrenceBooking, hallowed.exclusive]
  · refine iff_of_false ?_ fun hallowed => ?_
    · rintro ⟨result', s', hon', -⟩
      rw [herror] at hon'
      cases hon'
    · obtain ⟨t', haccepts, hsaved⟩ := hallowed.accepts hnew hfree
      exact hnot ⟨_, t', haccepts, hsaved⟩

/-! ### When the contract is kept -/

theorem freeOnes_eq_self {es : List (Uuid × Occurrence)} (h : ∀ p e q, es = p ++ e :: q → FreeAfter c req t p e) :
    freeOnes c req t es = es := by
  induction es using List.reverseRecOn with
  | nil => rfl
  | append_singleton p e ih =>
    rw [freeOnes_free (h p e [] rfl), ih fun p' e' q hes => h p' e' (q ++ [e]) (by rw [hes]; simp)]

theorem freeOnes_eq_nil {es : List (Uuid × Occurrence)} :
    freeOnes c req t es = [] ↔ ∀ e ∈ es, WindowTaken c req t e := by
  constructor
  · intro hnone e he
    obtain ⟨p, q, rfl⟩ := List.append_of_mem he
    by_contra hfree
    have hsome := freeOnes_initial c req t (p ++ [e]) q
    have hnone' := (freeOnes_initial c req t p (e :: q)).subset
    rw [List.append_assoc, List.singleton_append, hnone] at hsome
    rw [hnone] at hnone'
    rw [freeOnes_free] at hsome
    · exact absurd (List.prefix_nil.1 hsome) (by simp)
    · rintro (htaken | ⟨k, hk, -⟩)
      · exact hfree htaken
      · cases hnone' hk
  · intro htaken
    induction es using List.reverseRecOn with
    | nil => rfl
    | append_singleton p e ih =>
      rw [freeOnes_taken (.inl (htaken e (by simp)))]
      exact ih fun x hx => htaken x (List.mem_append_left _ hx)

/-- The session in which the loop begins: the series is durable, through the pool. -/
def started (c : CreateSetup) (rows : Rows) (seriesId : Uuid) (req : SeriesRequest) (occs : List Occurrence) :
    Session where
  rows := { rows with series := rows.series ++ [seriesRow c seriesId req occs] }
  own := rows.pinned
  ran := 1

variable (c broken seriesId) in
/-- What the request leaves when the expansion ends without an error. -/
theorem after_series {rows : Rows} {newId : ℕ → Uuid} {occs : List Occurrence} {result : ExpansionResult}
    {expandRRule : String → List Instant → Instant → Instant → Except String (List Occurrence)}
    {admitsSeries : RecurringSeries → Bool} (hoccs : occurrencesOf expandRRule req = .ok occs)
    (hok : ((expandRecurring c broken expandRRule admitsSeries req seriesId newId).on
      { rows := rows, own := rows.pinned }).1 = .ok result) :
    let s := run (turn c broken seriesId req) (started c rows seriesId req occs) (turns newId 0 occs)
    let after := runInRequestTx {} (createSeries c broken expandRRule admitsSeries req seriesId newId) rows
    after.bookings = (if s.aborted then rows.bookings else s.own.bookings) ∧ after.steps = rows.steps := by
  intro s after
  have hon : ((expandRecurring c broken expandRRule admitsSeries req seriesId newId).on
      { rows := rows, own := rows.pinned }).2 = s := by
    rw [expandRecurring, hoccs, on_bind_of (Prog.on_lift _ _)] at hok ⊢
    by_cases hseries : (broken 0 || !admitsSeries (seriesRow c seriesId req occs)) = true
    · rw [saveSeries, Prog.on_bind, Prog.on_of, if_pos hseries] at hok
      cases hok
    · have hsaved : (saveSeries broken admitsSeries (seriesRow c seriesId req occs)).on
          { rows := rows, own := rows.pinned } = (.ok (), started c rows seriesId req occs) := by
        rw [saveSeries, Prog.on_of, if_neg hseries]
        rfl
      rw [on_bind_of hsaved]
      obtain ⟨result', hresult⟩ := bookAll_ok c broken seriesId req newId
        occs 0 (started c rows seriesId req occs)
      rw [hresult]
  have hrows : s.rows = (started c rows seriesId req occs).rows := rows_run _
  have hbookings : s.rows.bookings = rows.bookings := by rw [hrows]; rfl
  have hsteps : s.rows.steps = rows.steps := by rw [hrows]; rfl
  have hafter : after = if s.aborted then s.rows
      else { s.rows with bookings := s.own.bookings, lines := s.own.lines } := by
    simp only [after, runInRequestTx, createSeries, hon]
    simp
  rw [hafter]
  split
  · exact ⟨hbookings, hsteps⟩
  · exact ⟨rfl, hsteps⟩

section kept

variable {rows after : Rows} {s₀ : Session} {es : List (Uuid × Occurrence)}
  (hrows : after.bookings.rows = rows.bookings.rows ++ (freeOnes c req rows.bookings es).map (rowOf c seriesId req))
  (htaken : ∀ p e q, es = p ++ e :: q →
    (WindowTaken c req (run (turn c broken seriesId req) s₀ p).own.bookings e ↔ ¬ FreeAfter c req rows.bookings p e))
  (halone : ∀ p e q, es = p ++ e :: q → FreeAfter c req rows.bookings p e →
    (PersistsAlone c req stepId (run (turn c broken seriesId req) s₀ p) e (rowOf c seriesId req e) after.steps ↔
      Allowed c req e))
  (hnodup : (es.map Prod.fst).Nodup) (hnew : ∀ e ∈ es, rows.bookings.find? e.1 = none)
include hrows htaken halone

include hnodup hnew in
theorem keeps_of_obeys (hobeys : ObeysSingleRules c broken seriesId req stepId s₀ es rows after) :
    KeepsToRules c broken seriesId req rows.bookings es := by
  by_cases hnone : freeOnes c req rows.bookings es = []
  · exact .inr (.inl (freeOnes_eq_nil.1 hnone))
  · left
    have hfree : ∀ p e q, es = p ++ e :: q → FreeAfter c req rows.bookings p e := fun p e q hpq => by
      by_contra hmet
      rw [hobeys.whole ⟨p, e, q, hpq, (htaken p e q hpq).2 hmet⟩] at hrows
      exact hnone (by simpa using hrows)
    have hself : ∀ p q, es = p ++ q → freeOnes c req rows.bookings p = p := fun p q hpq =>
      freeOnes_eq_self fun p' e' q' hp' => hfree p' e' (q' ++ q) (by rw [hpq, hp']; simp)
    intro p e q hpq
    refine ⟨fun hmet => hfree p e q hpq (.inl hmet), fun k hk hmet => hfree p e q hpq (.inr ⟨k, ?_, hmet⟩), ?_⟩
    · rw [hself p (e :: q) hpq]
      exact hk
    · have hmem : e ∈ es := by rw [hpq]; simp
      have hstored : rowOf c seriesId req e ∈ after.bookings.rows := by
        rw [hrows, hself es [] (List.append_nil es).symm]
        exact List.mem_append_right _ (List.mem_map_of_mem hmem)
      obtain ⟨p', e', q', hpq', hid, halone'⟩ := hobeys.alone _ hstored
        fun hold => Table.find?_eq_none_iff.1 (hnew e hmem) _ hold rfl
      obtain rfl : e' = e := List.inj_on_of_nodup_map hnodup (by rw [hpq']; simp) hmem hid
      exact (halone p' e' q' hpq' (hfree p' e' q' hpq')).1 halone'

theorem obeys_of_keeps (hkeeps : KeepsToRules c broken seriesId req rows.bookings es)
    (hlost : ¬ Lost c broken seriesId req rows.bookings 1 es) :
    ObeysSingleRules c broken seriesId req stepId s₀ es rows after := by
  obtain hfree | hall | hlost' := hkeeps
  · have hfree' : ∀ p e q, es = p ++ e :: q → FreeAfter c req rows.bookings p e := by
      rintro p e q hpq (hmet | ⟨k, hk, hmet⟩)
      · exact (hfree p e q hpq).1 hmet
      · exact (hfree p e q hpq).2.1 k ((freeOnes_sublist rows.bookings p).subset hk) hmet
    refine ⟨fun r hr hold => ?_, fun ⟨p, e, q, hpq, hmet⟩ => absurd (hfree' p e q hpq) ((htaken p e q hpq).1 hmet)⟩
    rw [hrows, List.mem_append, List.mem_map] at hr
    obtain ⟨e, he, rfl⟩ := hr.resolve_left hold
    obtain ⟨p, q, hpq⟩ := List.append_of_mem ((freeOnes_sublist rows.bookings es).subset he)
    exact ⟨p, e, q, hpq, rfl, (halone p e q hpq (hfree' p e q hpq)).2 (hfree p e q hpq).2.2⟩
  · rw [freeOnes_eq_nil.2 hall, List.map_nil, List.append_nil] at hrows
    exact ⟨fun r hr hold => absurd (hrows ▸ hr) hold, fun _ => Table.ext hrows⟩
  · exact absurd hlost' hlost

end kept

/-- **When series keep to the rules of single bookings.** A request for a series that `Execute` handles without an error
persists what single creations would have persisted, and nothing if an occurrence conflicts, exactly if every occurrence
is free and allowed, or nothing comes of the series. -/
theorem obeysSingleRules_iff {rows : Rows} {newId : ℕ → Uuid} {occs : List Occurrence} {result : ExpansionResult}
    {expandRRule : String → List Instant → Instant → Instant → Except String (List Occurrence)}
    {admitsSeries : RecurringSeries → Bool} (hoccs : occurrencesOf expandRRule req = .ok occs)
    (hok : ((expandRecurring c broken expandRRule admitsSeries req seriesId newId).on
      { rows := rows, own := rows.pinned }).1 = .ok result)
    (hinj : Function.Injective newId) (hfresh : ∀ k, rows.bookings.find? (newId k) = none) (hrefer : StepsRefer rows)
    (stepId : ℕ → Uuid) :
    ObeysSingleRules c broken seriesId req stepId (started c rows seriesId req occs) (turns newId 0 occs) rows
        (runInRequestTx {} (createSeries c broken expandRRule admitsSeries req seriesId newId) rows) ↔
      KeepsToRules c broken seriesId req rows.bookings (turns newId 0 occs) := by
  obtain ⟨hbookings, hsteps⟩ := after_series c broken seriesId hoccs hok
  generalize runInRequestTx {} (createSeries c broken expandRRule admitsSeries req seriesId newId) rows = after
    at hbookings hsteps ⊢
  set s₀ := started c rows seriesId req occs with hs₀
  set es := turns newId 0 occs with hes
  have hnodup : (es.map Prod.fst).Nodup := nodup_turns hinj 0 occs
  have hnew : ∀ e ∈ es, rows.bookings.find? e.1 = none := fun e he => by
    obtain ⟨p, -, rfl⟩ := List.mem_map.1 he
    exact hfresh p.2
  have hstage : ∀ p q, es = p ++ q →
      ((run (turn c broken seriesId req) s₀ p).aborted = true ↔ Lost c broken seriesId req rows.bookings 1 p) ∧
        ((run (turn c broken seriesId req) s₀ p).aborted = false →
          (run (turn c broken seriesId req) s₀ p).own.bookings.rows = rows.bookings.rows ++
            (freeOnes c req rows.bookings p).map (rowOf c seriesId req)) := fun p q hpq => by
    obtain ⟨hlost, hkept⟩ := run_turns c broken seriesId req s₀ rfl
      (fun e he => hnew e (by rw [hpq]; exact List.mem_append_left _ he))
      (by rw [hpq, List.map_append] at hnodup; exact hnodup.of_append_left)
    exact ⟨hlost, fun hkeeps => (hkept hkeeps).2⟩
  by_cases hlost : Lost c broken seriesId req rows.bookings 1 es
  · refine iff_of_true ?_ (.inr (.inr hlost))
    rw [if_pos ((hstage es [] (List.append_nil es).symm).1.2 hlost)] at hbookings
    exact ⟨fun r hr hold => absurd (hbookings ▸ hr) hold, fun _ => hbookings⟩
  · have hkeeps : ∀ p q, es = p ++ q → (run (turn c broken seriesId req) s₀ p).aborted = false := fun p q hpq => by
      rw [← Bool.not_eq_true, (hstage p q hpq).1]
      exact fun hl => hlost (hpq ▸ hl.append q)
    have hrows := (hstage es [] (List.append_nil es).symm).2 (hkeeps es [] (List.append_nil es).symm)
    rw [if_neg (Bool.eq_false_iff.1 (hkeeps es [] (List.append_nil es).symm))] at hbookings
    rw [← hbookings] at hrows
    have htaken : ∀ p e q, es = p ++ e :: q →
        (WindowTaken c req (run (turn c broken seriesId req) s₀ p).own.bookings e ↔
          ¬ FreeAfter c req rows.bookings p e) := fun p e q hpq => by
      rw [FreeAfter, not_not]
      exact windowTaken_append ((hstage p (e :: q) hpq).2 (hkeeps p (e :: q) hpq))
    have halone : ∀ p e q, es = p ++ e :: q → FreeAfter c req rows.bookings p e →
        (PersistsAlone c req stepId (run (turn c broken seriesId req) s₀ p) e (rowOf c seriesId req e) after.steps ↔
          Allowed c req e) := fun p e q hpq hfree => by
      have hdurable : (run (turn c broken seriesId req) s₀ p).rows = s₀.rows := rows_run p
      have hsame : after.steps = (run (turn c broken seriesId req) s₀ p).rows.steps := by rw [hsteps, hdurable]; rfl
      rw [hpq] at hnew hnodup
      rw [hsame]
      refine persistsAlone_iff (hkeeps p (e :: q) hpq) ?_ (by rw [hdurable]; exact hnew e (by simp))
        (by rw [hdurable]; exact hrefer) fun hmet => (htaken p e q hpq).1 hmet hfree
      exact find?_of_kept ((hstage p (e :: q) hpq).2 (hkeeps p (e :: q) hpq)) (hnew e (by simp))
        (hnodup.sublist (List.Sublist.map Prod.fst (by simp)))
    exact ⟨keeps_of_obeys hrows htaken halone hnodup hnew, fun hkeeps' =>
      obeys_of_keeps hrows htaken halone hkeeps' hlost⟩

end rules

/-! ### A standup on two days -/

def standup : SeriesRequest where
  tenantId := "t1"
  resourceId := "r1"
  userId := "u1"
  pattern := .daily
  firstStart := 3600000
  firstEnd := 7200000
  startZone := .fixed 0
  endZone := .fixed 0
  count := 2

def standupDays : List Occurrence := [⟨3600000, 7200000⟩, ⟨90000000, 93600000⟩]

def ticks (k : ℕ) : Uuid := String.ofList (List.replicate k 'b')

theorem ticks_injective : Function.Injective ticks := fun a b h => by
  have hlist := congrArg String.toList h
  rw [ticks, ticks, String.toList_ofList, String.toList_ofList] at hlist
  simpa using congrArg List.length hlist

def afterStandup (c : CreateSetup) (rows : Rows) : Rows :=
  runInRequestTx {} (createSeries c (fun _ => false) (fun _ _ _ _ => .ok []) (fun _ => true) standup "s1" ticks) rows

theorem occurrencesOf_standup : occurrencesOf (fun _ _ _ _ => .ok []) standup = .ok standupDays := by rfl

theorem turns_standup :
    turns ticks 0 standupDays = [("", ⟨3600000, 7200000⟩), ("b", ⟨90000000, 93600000⟩)] := by rfl

theorem allowed_standup (he : e ∈ turns ticks 0 standupDays) : Allowed oneRoom standup e := by
  rw [turns_standup, List.mem_cons, List.mem_singleton] at he
  obtain rfl | rfl := he
  all_goals
    exact ⟨by decide +kernel, by decide +kernel, by decide +kernel, by decide +kernel, by decide +kernel,
      by decide +kernel, by decide +kernel, by decide +kernel, fun _ _ _ hrule => (by cases hrule), by decide +kernel⟩

/-- The standup keeps to the rules in a room that nothing restricts, and both days are booked. -/
theorem standup_obeys :
    ObeysSingleRules oneRoom (fun _ => false) "s1" standup toString (started oneRoom noRows "s1" standup standupDays)
        (turns ticks 0 standupDays) noRows (afterStandup oneRoom noRows) ∧
      (afterStandup oneRoom noRows).bookings.rows.length = 2 := by
  refine ⟨(obeysSingleRules_iff occurrencesOf_standup (by rfl) ticks_injective (fun _ => rfl)
    (fun _ hst => absurd hst List.not_mem_nil) toString).2 (.inl fun p e q hpq => ?_), by decide +kernel⟩
  refine ⟨Bool.false_ne_true, ?_, allowed_standup (by rw [hpq]; simp)⟩
  match p, hpq with
  | [], _ => exact nofun
  | [a], hpq =>
    obtain ⟨rfl, hrest⟩ := List.cons.inj hpq
    obtain ⟨rfl, -⟩ := List.cons.inj hrest
    intro k hk
    rw [List.mem_singleton.1 hk]
    decide +kernel
  | a :: b :: p, hpq =>
    have hlength := congrArg List.length hpq
    simp [turns, standupDays] at hlength

def supervisedRoom : CreateSetup :=
  { oneRoom with resources := ⟨[{ id := "r1", tenantId := "t1", requiresApproval := true }], by simp⟩ }

def firstDayAlone : Except CallError CreateResult × Session :=
  (executeRequest supervisedRoom (fun _ => false) (single standup ⟨3600000, 7200000⟩) "" toString).on
    (started supervisedRoom noRows "s1" standup standupDays)

def secondDay : Rows :=
  { noRows with bookings := ⟨[{ id := "x", tenantId := "t1", resourceId := "r1", userId := "u2", startTime := 90000000,
                                endTime := 93600000, status := .confirmed, bookingMode := some .exclusive }], by simp⟩ }

/-- In the supervised room both days are booked as confirmed ones; and with another meeting on the second day the first
one is booked all the same. -/
theorem standup_against_rules :
    ¬ ObeysSingleRules supervisedRoom (fun _ => false) "s1" standup toString
        (started supervisedRoom noRows "s1" standup standupDays) (turns ticks 0 standupDays) noRows
        (afterStandup supervisedRoom noRows) ∧
      ¬ ObeysSingleRules oneRoom (fun _ => false) "s1" standup toString
        (started oneRoom secondDay "s1" standup standupDays) (turns ticks 0 standupDays) secondDay
        (afterStandup oneRoom secondDay) := by
  refine ⟨fun h => ?_, fun h => ?_⟩
  · obtain ⟨p, e, q, hpq, hid, result, s', hon, ⟨r', hr', hstatus, -⟩, -⟩ :=
      h.alone ((afterStandup supervisedRoom noRows).bookings.rows.head (by decide +kernel)) (List.head_mem _)
        List.not_mem_nil
    rw [turns_standup] at hpq
    cases p with
    | nil =>
      obtain ⟨rfl, -⟩ := List.cons.inj hpq
      obtain rfl : s' = firstDayAlone.2 := (congrArg Prod.snd hon).symm
      have hpending : firstDayAlone.2.own.bookings.rows.all (fun r => r.status == .pendingApproval) = true := by
        decide +kernel
      have hconfirmed : r'.status = .confirmed := hstatus.trans (by decide +kernel)
      have hmem := List.all_eq_true.1 hpending r' (Table.mem_of_find? hr')
      rw [hconfirmed] at hmem
      cases hmem
    | cons a p =>
      -- the second day has another id
      have he : e ∈ [("b", ⟨90000000, 93600000⟩)] := by
        rw [(List.cons.inj hpq).2]
        simp
      rw [List.mem_singleton.1 he] at hid
      exact absurd hid (by decide +kernel)
  · have hsame := h.whole ⟨[("", ⟨3600000, 7200000⟩)], ("b", ⟨90000000, 93600000⟩), [], turns_standup,
      by decide +kernel⟩
    exact absurd (congrArg (fun t => t.rows.length) hsame) (by decide +kernel)

end BookingSystem.Contracts.SeriesRules
