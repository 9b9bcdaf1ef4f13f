import BookingSystem.Model.Checkin
import BookingSystem.Base.Run
import Mathlib.Data.List.Induction

/-!
# What `CheckinService` and `AutoReleaseService` write

One lemma for each operation, as for the other services.
-/

namespace BookingSystem.Effects

open Base Model Model.CheckinService Model.AutoReleaseService

variable {now : Instant} {token : String} {bookingId : Uuid} {st : Store} {b : Booking}

theorem applyCheckin_ok {b' : Booking} (h : applyCheckin now b = .ok b') :
    b.status.released = false ∧ ∃ checkedInAt, b' = { b with status := .checkedIn, checkedInAt := checkedInAt } := by
  simp only [applyCheckin, bind_eq_ok, require_eq_ok] at h
  obtain ⟨⟨⟩, hrel, h⟩ := h
  refine ⟨by simpa using hrel, ?_⟩
  split at h
  · rename_i hst
    simp only [pure_eq_ok] at h
    subst h
    simp only [beq_iff_eq] at hst
    exact ⟨b.checkedInAt, by rw [← hst]⟩
  · simp only [pure_eq_ok] at h
    exact ⟨some now, h.symm⟩

theorem applyCheckin_again {b' : Booking} (hst : b.status = .checkedIn) (h : applyCheckin now b = .ok b') : b' = b := by
  simp only [applyCheckin, bind_eq_ok, require_eq_ok] at h
  obtain ⟨⟨⟩, -, h⟩ := h
  rw [if_pos (by simp [hst]), pure_eq_ok] at h
  exact h.symm

theorem applyCheckin_of_not_released (h : b.status.released = false) :
    ∃ checkedInAt, applyCheckin now b = .ok { b with status := .checkedIn, checkedInAt := checkedInAt } := by
  have hok : ∃ b', applyCheckin now b = .ok b' := by
    refine exists_bind_ok (require_of (by simpa using h)) ?_
    split
    · exact ⟨_, rfl⟩
    · exact ⟨_, rfl⟩
  obtain ⟨b', hb'⟩ := hok
  obtain ⟨-, at', rfl⟩ := applyCheckin_ok hb'
  exact ⟨at', hb'⟩

theorem issueToken_ok {tenantId userId : Uuid} {admin : Bool} {st' : Store} {r : String}
    (h : issueToken now token tenantId userId admin bookingId st = .ok (st', r)) :
    ∃ b, findBooking st.bookings tenantId bookingId = some b ∧ (b.userId = userId ∨ admin = true) ∧
      st' = { st with
        bookings := st.bookings.save
          { b with checkinToken := some token, checkinTokenExpiresAt := some (now + defaultTokenTtlMs) } } := by
  simp only [issueToken, bind_eq_ok, require_eq_ok, found_eq_ok, pure_eq_ok, Prod.mk.injEq] at h
  obtain ⟨b, hb, ⟨⟩, hown, rfl, -⟩ := h
  exact ⟨b, hb, by simpa using hown, rfl⟩

theorem checkinByBooking_ok {tenantId userId : Uuid} {admin : Bool} {st' : Store} {r : Booking}
    (h : checkinByBooking now tenantId userId admin bookingId st = .ok (st', r)) :
    ∃ b checkedInAt, findBooking st.bookings tenantId bookingId = some b ∧ (b.userId = userId ∨ admin = true) ∧
      b.status.released = false ∧
      st' = { st with
        bookings := st.bookings.save { b with status := .checkedIn, checkedInAt := checkedInAt } } := by
  simp only [checkinByBooking, bind_eq_ok, require_eq_ok, found_eq_ok, pure_eq_ok, Prod.mk.injEq] at h
  obtain ⟨b, hb, ⟨⟩, hown, saved, happ, rfl, -⟩ := h
  obtain ⟨hrel, at', rfl⟩ := applyCheckin_ok happ
  exact ⟨b, at', hb, by simpa using hown, hrel, rfl⟩

theorem checkinByBooking_of_owner {tenantId userId : Uuid} {admin : Bool}
    (hb : findBooking st.bookings tenantId bookingId = some b) (hown : b.userId = userId)
    (hrel : b.status.released = false) : ∃ r, checkinByBooking now tenantId userId admin bookingId st = .ok r := by
  obtain ⟨at', happ⟩ := @applyCheckin_of_not_released now b hrel
  refine exists_bind_ok (found_eq_ok.2 hb) (exists_bind_ok (require_of (by simp [hown])) ?_)
  exact exists_bind_ok happ ⟨_, rfl⟩

theorem redeemToken_ok {st' : Store} {r : Uuid × Option Instant} (h : redeemToken now token st = .ok (st', r)) :
    ∃ claim checkedInAt, token ≠ "" ∧ st.bookings.rows.find? (claims now token) = some claim ∧
      st' = { st with
        bookings := (st.bookings.update (claims now token) burn key_burn).save
          { burn claim with status := .checkedIn, checkedInAt := checkedInAt } } := by
  simp only [redeemToken, bind_eq_ok, require_eq_ok, found_eq_ok, pure_eq_ok, Prod.mk.injEq] at h
  obtain ⟨⟨⟩, htok, claim, hclaim, b, hb, saved, happ, rfl, -⟩ := h
  have hrow : st.bookings.find? claim.id = some claim := Table.find?_of_mem (List.mem_of_find?_eq_some hclaim)
  rw [Table.find?_update, hrow, Option.map_some, if_pos (List.find?_some hclaim), Option.some.injEq] at hb
  subst hb
  obtain ⟨-, at', rfl⟩ := applyCheckin_ok happ
  exact ⟨claim, at', by simpa using htok, hclaim, rfl⟩

theorem released_of_claims (h : claims now token b = true) : b.status.released = false := by
  simp only [claims, Bool.and_eq_true, Bool.not_eq_true'] at h
  exact h.2

/-- The rows evolve as the two statements of the kiosk let them: the token is burnt, its booking checked in. -/
theorem redeemToken_evolves {R : Booking → Booking → Prop} (hrefl : ∀ b, R b b)
    (htrans : ∀ a b c, R a b → R b c → R a c) {st' : Store} {r : Uuid × Option Instant}
    (h : redeemToken now token st = .ok (st', r)) (hburn : ∀ b, R b (burn b))
    (hcheck : ∀ claim checkedInAt, token ≠ "" → st.bookings.rows.find? (claims now token) = some claim → R (burn claim) { burn claim with status := .checkedIn, checkedInAt := checkedInAt }) :
    
    Table.Evolves R st.bookings st'.bookings := by
  obtain ⟨claim, at', htok, hclaim, rfl⟩ := redeemToken_ok h
  have hrow : st.bookings.find? claim.id = some claim := Table.find?_of_mem (List.mem_of_find?_eq_some hclaim)
  refine Table.Evolves.trans htrans (Table.evolves_update hrefl key_burn fun b _ _ => hburn b)
    (Table.evolves_save hrefl ?_ (hcheck claim at' htok hclaim))
  rw [Table.find?_update]
  show Option.map _ (st.bookings.find? claim.id) = _
  rw [hrow, Option.map_some, if_pos (List.find?_some hclaim)]

theorem redeemToken_of_claim {claim : Booking} (htok : token ≠ "")
    (hclaim : st.bookings.rows.find? (claims now token) = some claim) : ∃ r, redeemToken now token st = .ok r := by
  have hc := List.find?_some hclaim
  have hrow : st.bookings.find? claim.id = some claim := Table.find?_of_mem (List.mem_of_find?_eq_some hclaim)
  have hrel : claim.status.released = false := released_of_claims hc
  obtain ⟨at', happ⟩ := @applyCheckin_of_not_released now (burn claim) hrel
  have hb : (st.bookings.update (claims now token) burn key_burn).find? claim.id = some (burn claim) := by
    rw [Table.find?_update, hrow, Option.map_some, if_pos hc]
  refine exists_bind_ok (require_of (by simpa using htok)) (exists_bind_ok (found_eq_ok.2 hclaim) ?_)
  exact exists_bind_ok (found_eq_ok.2 hb) (exists_bind_ok happ ⟨_, rfl⟩)

theorem markNoShow_ok {tenantId : Uuid} {reason : Option String} {st' : Store} {r : Booking}
    (h : markNoShow tenantId bookingId reason st = .ok (st', r)) :
    st' = st ∨ ∃ b notes, findBooking st.bookings tenantId bookingId = some b ∧ b.status.released = false ∧
      st' = { st with bookings := st.bookings.save { b with status := .noShow, exceptionNotes := notes } } := by
  simp only [markNoShow, bind_eq_ok, found_eq_ok] at h
  obtain ⟨b, hb, h⟩ := h
  split at h
  · simp only [pure_eq_ok, Prod.mk.injEq] at h
    exact .inl h.1.symm
  · rename_i hrel
    simp only [pure_eq_ok, Prod.mk.injEq] at h
    exact .inr ⟨b, _, hb, by simpa using hrel, h.1.symm⟩

theorem markAttended_ok {tenantId : Uuid} {st' : Store} {r : Booking}
    (h : markAttended tenantId bookingId st = .ok (st', r)) :
    st' = st ∨ ∃ b, findBooking st.bookings tenantId bookingId = some b ∧ b.status.released = false ∧
      st' = { st with bookings := st.bookings.save { b with status := .attended } } := by
  simp only [markAttended, bind_eq_ok, found_eq_ok] at h
  obtain ⟨b, hb, h⟩ := h
  split at h
  · simp only [pure_eq_ok, Prod.mk.injEq] at h
    exact .inl h.1.symm
  · simp only [bind_eq_ok, require_eq_ok, pure_eq_ok, Prod.mk.injEq] at h
    obtain ⟨⟨⟩, hrel, rfl, -⟩ := h
    exact .inr ⟨b, hb, by simpa using hrel, rfl⟩

theorem tick_ok {P : Table Booking → Prop} {env : Env} (hst : P st.bookings)
    (hstep : ∀ bookings b, P bookings → P (release bookings b)) : P (tick env now st).bookings := by
  refine foldl_invariant (P := P) ?_ hst
  intro bookings b _ hP
  split
  · exact hstep bookings b hP
  · exact hP

section Tick

variable {env : Env} {now : Instant}

theorem find?_release (t : Table Booking) (b : Booking) (id : Uuid) :
    (release t b).find? id = (t.find? id).map fun r =>
      if r.id = b.id ∧ r.status = .confirmed ∧ r.checkedInAt = none then
        { r with
          status := .noShow
          exceptionNotes :=
            if b.exceptionNotes = "" then "auto-released: no check-in within grace period" else b.exceptionNotes }
      else r := by
  rw [release, Table.find?_update]
  simp [and_assoc]

theorem find?_release_of_ne {t : Table Booking} {id : Uuid} (h : b.id ≠ id) : (release t b).find? id = t.find? id := by
  rw [find?_release]
  cases hr : t.find? id with
  | none => rfl
  | some r =>
    have hid : r.id = id := Table.key_of_find? hr
    rw [Option.map_some, if_neg fun hb => h (hb.1.symm.trans hid)]

theorem nodup_candidates (now : Instant) (t : Table Booking) : ((candidates now t).map (·.id)).Nodup := by
  have hsub : (candidates now t).Sublist _ := List.take_sublist _ _
  refine List.Nodup.sublist (hsub.map _) ?_
  rw [((List.perm_insertionSort _ _).map _).nodup_iff]
  exact List.Nodup.sublist (List.filter_sublist.map _) t.nodup

theorem mem_candidates {t : Table Booking} (h : b ∈ candidates now t) :
    b ∈ t.rows ∧ b.status = .confirmed ∧ b.checkedInAt = none := by
  have hmem := List.mem_of_mem_take h
  rw [(List.perm_insertionSort _ _).mem_iff, List.mem_filter] at hmem
  simp only [Bool.and_eq_true, beq_iff_eq, Option.isNone_iff_eq_none] at hmem
  exact ⟨hmem.1, hmem.2.1⟩

theorem releases_find?_of_notMem {l : List Booking} {t : Table Booking} {id : Uuid} (h : ∀ b ∈ l, b.id ≠ id) :
    (l.foldl (fun bookings b => if overdue env now b then release bookings b else bookings) t).find? id =
      t.find? id := by
  refine foldl_invariant (P := fun t' : Table Booking => t'.find? id = t.find? id) (fun t' b hb ht' => ?_) rfl
  split
  · rw [find?_release_of_ne (h b hb), ht']
  · exact ht'

def noShowRow (b : Booking) : Booking :=
  { b with
    status := .noShow
    exceptionNotes :=
      if b.exceptionNotes = "" then "auto-released: no check-in within grace period" else b.exceptionNotes }

/-- The rows after a loop of the tick: those of the candidates whose time is up are released. -/
theorem rows_releases {l : List Booking} {t : Table Booking}
    (hl : ∀ b ∈ l, b ∈ t.rows ∧ b.status = .confirmed ∧ b.checkedInAt = none) :
    (l.foldl (fun bookings b => if overdue env now b then release bookings b else bookings) t).rows =
      t.rows.map fun r => if r ∈ l ∧ overdue env now r = true then noShowRow r else r := by
  induction l using List.reverseRecOn with
  | nil => simp
  | append_singleton l b ih =>
    obtain ⟨hrow, hst, hin⟩ := hl b (by simp)
    have hih := ih fun x hx => hl x (List.mem_append_left _ hx)
    rw [List.foldl_append, List.foldl_cons, List.foldl_nil]
    split
    · rename_i hover
      rw [release, Table.rows_update, hih, List.map_map]
      refine List.map_congr_left fun r hr => ?_
      by_cases hrb : r = b
      · subst hrb
        by_cases hmem : r ∈ l
        · simp [hmem, hover, noShowRow]
        · simp [hmem, hover, hst, hin, noShowRow]
      · have hne : r.id ≠ b.id := fun hid => hrb (Table.eq_of_key hr hrow hid)
        by_cases hmem : r ∈ l ∧ overdue env now r = true
        · simp [hmem, hne, noShowRow]
        · simp [hmem, hne, hrb]
    · rename_i hover
      rw [hih]
      refine List.map_congr_left fun r _ => ?_
      by_cases hrb : r = b
      · subst hrb
        simp [hover]
      · simp [hrb]

/-- The row of a booking after a tick: released iff it is a candidate whose time is up. -/
theorem tick_find? (st : Store) (id : Uuid) :
    (tick env now st).bookings.find? id =
      match (candidates now st.bookings).find? (·.id == id) with
      | some b => if overdue env now b then (release st.bookings b).find? id else st.bookings.find? id
      | none => st.bookings.find? id := by
  unfold tick
  cases hc : (candidates now st.bookings).find? (·.id == id) with
  | none =>
    refine releases_find?_of_notMem fun b hb => ?_
    simpa using List.find?_eq_none.1 hc b hb
  | some b =>
    obtain ⟨hid, as, bs, hsplit, hbefore⟩ := List.find?_eq_some_iff_append.1 hc
    have hid' : b.id = id := by simpa using hid
    have hnodup := nodup_candidates now st.bookings
    rw [hsplit, List.map_append, List.map_cons, List.nodup_append, List.nodup_cons] at hnodup
    have hafter : ∀ x ∈ bs, x.id ≠ id := fun x hx hxid =>
      hnodup.2.1.1 (List.mem_map.2 ⟨x, hx, hxid.trans hid'.symm⟩)
    have has : ∀ x ∈ as, x.id ≠ id := fun x hx => by simpa using hbefore x hx
    rw [hsplit, List.foldl_append, List.foldl_cons, releases_find?_of_notMem hafter]
    dsimp only
    split
    · rw [find?_release, find?_release, releases_find?_of_notMem has]
    · exact releases_find?_of_notMem has

end Tick

end BookingSystem.Effects
