import BookingSystem.Concurrency.CheckinDesk

/-!
# Who is released

The sweep reads its candidates once, and comes to each of them later, when the booking may have been checked into or
cancelled. Its `UPDATE` asks for the status again, and no call at the desk changes what the grace of a booking depends
on. So a tick releases only a booking that is confirmed and not checked in at that moment, and whose grace is over by
the clock of the tick (`released_only_after_grace`).
-/

namespace BookingSystem.Concurrency.CheckinDesk

open Base Model Model.CheckinService Model.AutoReleaseService
open Effects

/-! ### What the grace depends on -/

def place (b : Booking) : Uuid × Uuid × Instant := (b.tenantId, b.resourceId, b.startTime)

/-- The booking has the tenant, the room and the start that it has in `t₀`. -/
def Placed (t₀ : Table Booking) (b : Booking) : Prop := (t₀.find? b.id).map place = some (place b)

/-- The bookings of a room are those of one tenant: a booking is only made in, or moved to, a room of its tenant. -/
def OneTenant (t : Table Booking) : Prop :=
  ∀ b ∈ t.rows, ∀ b' ∈ t.rows, b.resourceId = b'.resourceId → b.tenantId = b'.tenantId

section Place

variable {t₀ : Table Booking} {b b' : Booking}

theorem Placed.congr (h : Placed t₀ b) (hid : b'.id = b.id) (hplace : place b' = place b) : Placed t₀ b' := by
  unfold Placed
  rw [hid, hplace]
  exact h

theorem Placed.place_eq (h : Placed t₀ b) (h' : Placed t₀ b') (hid : b'.id = b.id) : place b' = place b := by
  unfold Placed at h h'
  rw [hid, h] at h'
  exact (Option.some.inj h').symm

theorem Placed.tenantId_eq (ht : OneTenant t₀) (h : Placed t₀ b) (h' : Placed t₀ b')
    (hroom : b.resourceId = b'.resourceId) : b.tenantId = b'.tenantId := by
  obtain ⟨c, hc, hplace⟩ := Option.map_eq_some_iff.1 h
  obtain ⟨c', hc', hplace'⟩ := Option.map_eq_some_iff.1 h'
  simp only [place, Prod.mk.injEq] at hplace hplace'
  have := ht c (Table.mem_of_find? hc) c' (Table.mem_of_find? hc')
  rw [hplace.1, hplace.2.1, hplace'.1, hplace'.2.1] at this
  exact this hroom

theorem place_writeDiff {v loaded r : Booking} (h : place v = place loaded) :
    place (writeDiff v loaded r) = place r := by
  simp only [place, Prod.mk.injEq] at h
  obtain ⟨htenant, hroom, hstart⟩ := h
  simp only [place, writeDiff, column, htenant, hroom, hstart, if_true]

theorem graceMinutes_congr {env : Env} (h : place b' = place b) : graceMinutes env b' = graceMinutes env b := by
  simp only [place, Prod.mk.injEq] at h
  obtain ⟨htenant, hroom, -⟩ := h
  unfold graceMinutes
  rw [htenant, hroom]

end Place

/-! ### The caches -/

/-- What the tick has looked up is what the settings say. -/
structure Caches.Agree (env : Env) (t₀ : Table Booking) (caches : Caches) : Prop where
  cust : ∀ tenantId cust, caches.custCache.lookup tenantId = some cust → cust = env.customization tenantId
  res : ∀ b resource, Placed t₀ b → caches.resCache.lookup b.resourceId = some resource →
    resource = env.resource b.tenantId b.resourceId

section Caches

variable {env : Env} {t₀ : Table Booking} {caches : Caches} {b : Booking}

theorem Caches.Agree.empty : Caches.Agree env t₀ {} := by
  constructor
  · intro tenantId cust h
    cases h
  · intro b resource _ h
    cases h

theorem Caches.Agree.cust_eq (h : caches.Agree env t₀) (tenantId : Uuid) :
    (caches.cust env tenantId).1 = env.customization tenantId ∧ (caches.cust env tenantId).2.Agree env t₀ := by
  unfold Caches.cust
  split
  · rename_i cust hcust
    exact ⟨h.cust tenantId cust hcust, h⟩
  · refine ⟨rfl, fun tenantId' cust hcust => ?_, h.res⟩
    rw [List.lookup_cons] at hcust
    split at hcust
    · rename_i heq
      rw [← Option.some.inj hcust, beq_iff_eq.1 heq]
    · exact h.cust tenantId' cust hcust

theorem Caches.Agree.res_eq (ht : OneTenant t₀) (h : caches.Agree env t₀) (hb : Placed t₀ b) :
    (caches.res env b).1 = env.resource b.tenantId b.resourceId ∧ (caches.res env b).2.Agree env t₀ := by
  unfold Caches.res
  split
  · rename_i resource hres
    exact ⟨h.res b resource hb hres, h⟩
  · refine ⟨rfl, h.cust, fun b' resource hb' hres => ?_⟩
    rw [List.lookup_cons] at hres
    split at hres
    · rename_i heq
      have hroom : b'.resourceId = b.resourceId := beq_iff_eq.1 heq
      rw [← Option.some.inj hres, hroom, hb'.tenantId_eq ht hb hroom]
    · exact h.res b' resource hb' hres

/-- **The caches.** The loop of the tick comes to the `UPDATE` exactly for the bookings that are overdue. -/
theorem Caches.Agree.due_eq (ht : OneTenant t₀) (h : caches.Agree env t₀) (hb : Placed t₀ b) (now : Instant) :
    (caches.due env now b).1 = overdue env now b ∧ (caches.due env now b).2.Agree env t₀ := by
  obtain ⟨hcust, hcaches⟩ := h.cust_eq b.tenantId
  obtain ⟨hres, hcaches'⟩ := hcaches.res_eq ht hb
  unfold Caches.due overdue
  dsimp only
  rw [hcust]
  split
  · rename_i hon
    refine ⟨?_, hcaches'⟩
    rw [hon, hres, Bool.true_and]
    rfl
  · rename_i hoff
    refine ⟨?_, hcaches⟩
    rw [Bool.not_eq_true] at hoff
    rw [hoff, Bool.false_and]

end Caches

/-! ### No call moves a booking -/

/-- The copies that a call holds have the place of their bookings. -/
def PlacedAt (t₀ : Table Booking) (job : Job) : Phase → Prop
  | .ready => True
  | .holding v => job.call ≠ .tick ∧ Placed t₀ v
  | .reloaded v loaded => job.call ≠ .tick ∧ Placed t₀ v ∧ Placed t₀ loaded ∧ loaded.id = v.id
  | .sweeping caches todo => caches.Agree job.env t₀ ∧ ∀ b ∈ todo, Placed t₀ b
  | .burned _ _ => job.call ≠ .tick
  | .found _ _ b => job.call ≠ .tick ∧ Placed t₀ b

/-- The committed rows and the copies have the place of their bookings. -/
structure Steady (t₀ : Table Booking) (st : Desk) : Prop where
  rows : ∀ id b, st.store.bookings.find? id = some b → Placed t₀ b
  clients : ∀ p job ph, st.clients p = some (job, ph) → PlacedAt t₀ job ph

section Steady

variable {t₀ : Table Booking} {st : Desk} {p : ℕ} {job : Job} {ph : Phase}

theorem Steady.opened (store : Store) : Steady store.bookings (opened store) := by
  constructor
  · intro id b hb
    have hid : b.id = id := Table.key_of_find? hb
    unfold Placed
    rw [hid]
    exact congrArg (Option.map place) hb
  · intro p job ph h
    cases h

theorem Steady.goes (ht : OneTenant t₀) (h : Steady t₀ st) (hph : PlacedAt t₀ job ph) {ph' : Phase}
    (hgo : Goes st p job ph ph') : PlacedAt t₀ job ph' := by
  cases hgo with
  | sweep hcall =>
    refine ⟨.empty, fun b hb => ?_⟩
    have hfind : st.store.bookings.find? b.id = some b := Table.find?_of_mem (mem_candidates hb).1
    exact h.rows b.id b hfind
  | burn hcall =>
    show job.call ≠ .tick
    rw [hcall]
    nofun
  | @read v htick hredeem hv =>
    obtain ⟨b, hb, htenant, hroom, hstart, -⟩ := entity_row hv
    have hid : b.id = v.id := Table.key_of_find? hb
    refine ⟨htick, (h.rows _ b hb).congr hid.symm ?_⟩
    simp only [place, htenant, hroom, hstart]
  | @reload v loaded hloaded =>
    obtain ⟨htick, hv⟩ := hph
    exact ⟨htick, hv, h.rows _ loaded hloaded, Table.key_of_find? hloaded⟩
  | @turn caches b todo =>
    obtain ⟨hcaches, htodo⟩ := hph
    refine ⟨(hcaches.due_eq ht (htodo b List.mem_cons_self) job.now).2, fun b' hb' => ?_⟩
    exact htodo b' (List.mem_cons_of_mem _ hb')
  | @find token ids c hc =>
    refine ⟨hph, ?_⟩
    obtain ⟨id, -, hid⟩ := Option.bind_eq_some_iff.1 hc
    exact (h.rows id c hid).congr rfl rfl

theorem place_of_wrote (hph : PlacedAt t₀ job ph) {id : Uuid} {r r' : Booking}
    (hw : Wrote st p job ph id r r') : r'.id = r.id ∧ place r' = place r := by
  cases hw with
  | same hno heq =>
    subst heq
    exact ⟨rfl, rfl⟩
  | @saved v loaded hph' hid hfree heq =>
    subst hph' heq
    obtain ⟨-, hv, hloaded, hlid⟩ := hph
    exact ⟨rfl, place_writeDiff (hloaded.place_eq hv hlid.symm)⟩
  | released hph' hid hdue hfree hst hin notes heq =>
    subst heq
    exact ⟨rfl, rfl⟩
  | @redeemed token ids b saved hph' hok heq =>
    subst hph' heq
    obtain ⟨-, at', rfl⟩ := applyCheckin_ok hok
    have hburn : place (burnIn ids r) = place r := by
      unfold burnIn
      split <;> rfl
    split
    · exact ⟨id_burnIn ids r, (place_writeDiff rfl).trans hburn⟩
    · exact ⟨id_burnIn ids r, hburn⟩

/-- **One event.** -/
theorem Steady.serve (ht : OneTenant t₀) (h : Steady t₀ st) (e : DeskEvent) : Steady t₀ (serve st e) := by
  cases e with
  | call p job =>
    simp only [CheckinDesk.serve]
    split
    · refine ⟨h.rows, fun q job' ph' hq => ?_⟩
      rw [Desk.clients_goOn] at hq
      split at hq
      · obtain ⟨rfl, rfl⟩ := Prod.mk.inj (Option.some.inj hq)
        trivial
      · exact h.clients q job' ph' hq
    · exact h
  | turn p =>
    simp only [CheckinDesk.serve]
    split
    · rename_i job ph hp
      have hph := h.clients p job ph hp
      constructor
      · intro id b' hb'
        obtain ⟨f, hf, hwrote⟩ := wrote_act st p job ph id
        rw [hf, Option.map_eq_some_iff] at hb'
        obtain ⟨b, hb, rfl⟩ := hb'
        obtain ⟨hid, hplace⟩ := place_of_wrote hph (hwrote b hb)
        exact (h.rows id b hb).congr hid hplace
      · intro q job' ph' hq
        by_cases hpq : q = p
        · subst hpq
          rcases client_act st q job ph with hwait | hnone | ⟨ph'', hsome, hgo, -⟩
          · rw [hwait] at hq
            exact h.clients q job' ph' hq
          · cases hnone.symm.trans hq
          · obtain ⟨rfl, rfl⟩ := Prod.mk.inj (Option.some.inj (hsome.symm.trans hq))
            exact h.goes ht hph hgo
        · rw [client_act_other hpq] at hq
          exact h.clients q job' ph' hq
    · exact h
  | crash p =>
    refine ⟨h.rows, fun q job' ph' hq => ?_⟩
    simp only [CheckinDesk.serve, Desk.clients_leave] at hq
    split at hq
    · cases hq
    · exact h.clients q job' ph' hq

end Steady

/-! ### The release -/

/-- **No release too early.** The turn of a tick flips a booking to `'No Show'` only if its committed row is confirmed
and not checked in, and the clock of the tick has reached the start of the booking plus its grace: that of the room,
else of the tenant, else of the process. -/
def ReleasesOnlyOverdue (st : Desk) (e : DeskEvent) : Prop :=
  ∀ p job ph id b b', e = .turn p → st.clients p = some (job, ph) → job.call = .tick →
    st.store.bookings.find? id = some b → (serve st e).store.bookings.find? id = some b' →
    b'.status = .noShow → b.status ≠ .noShow →
    b.status = .confirmed ∧ b.checkedInAt = none ∧ b.startTime + graceMinutes job.env b * 60000 ≤ job.now

theorem Steady.releasesOnlyOverdue {t₀ : Table Booking} {st : Desk} (ht : OneTenant t₀) (h : Steady t₀ st)
    (e : DeskEvent) : ReleasesOnlyOverdue st e := by
  rintro p job ph id b b' rfl hp htick hb hb' hto hfrom
  have hph := h.clients p job ph hp
  obtain ⟨f, hf, hwrote⟩ := wrote_act st p job ph id
  simp only [CheckinDesk.serve, hp] at hb'
  rw [hf, hb, Option.map_some, Option.some.injEq] at hb'
  have hw := hwrote b hb
  rw [hb'] at hw
  cases hw with
  | same hno heq =>
    rw [heq] at hto
    exact absurd hto hfrom
  | @saved v loaded hph' =>
    subst hph'
    exact absurd htick hph.1
  | @released caches c todo hph' hid hdue hfree hst hin notes heq =>
    subst hph'
    obtain ⟨hcaches, htodo⟩ := hph
    have hc := htodo c List.mem_cons_self
    have hbid : b.id = id := Table.key_of_find? hb
    have hplace : place c = place b := (h.rows id b hb).place_eq hc (hid.trans hbid.symm)
    rw [(hcaches.due_eq ht hc job.now).1, overdue, Bool.and_eq_true, decide_eq_true_eq] at hdue
    have hstart : c.startTime = b.startTime := congrArg (·.2.2) hplace
    refine ⟨hst, hin, ?_⟩
    rw [← graceMinutes_congr hplace, ← hstart]
    exact hdue.2
  | @redeemed token ids c saved hph' =>
    subst hph'
    exact absurd htick hph.1

/-- **No release too early.** In every run of the desk, with any number of ticks, scans, check-ins, cancellations and
marks in any order, and any settings, every release meets its conditions at the moment of its write. -/
theorem released_only_after_grace {store : Store} (ht : OneTenant store.bookings) (es : List DeskEvent) :
    ∀ l e r, es = l ++ e :: r → ReleasesOnlyOverdue (run serve (opened store) l) e := by
  rintro l e r rfl
  have hsteady : Steady store.bookings (run serve (opened store) l) :=
    run_invariant (C := fun _ _ => True) (fun st e h _ => h.serve ht e) (Steady.opened store)
      (allSteps_of_forall (fun _ _ => trivial) _ _)
  exact hsteady.releasesOnlyOverdue ht e

def lateTick : Job where
  env := { office (.single { id := "r", tenantId := "t" }) .empty .empty with envEnabled := true }
  now := 3600000
  call := .tick

def lateSweep : List DeskEvent := [.call 0 lateTick, .turn 0]

theorem released_only_after_grace_late :
    ∃ b b', (run serve (opened midnight) lateSweep).store.bookings.find? "b" = some b ∧
      (serve (run serve (opened midnight) lateSweep) (.turn 0)).store.bookings.find? "b" = some b' ∧
      b'.status = .noShow ∧ b.status = .confirmed ∧ b.checkedInAt = none ∧
      b.startTime + graceMinutes lateTick.env b * 60000 ≤ lateTick.now := by
  have ht : OneTenant midnight.bookings := by
    intro b hb b' hb' _
    rw [List.mem_singleton.1 hb, List.mem_singleton.1 hb']
  refine ⟨_, _, rfl, rfl, rfl, ?_⟩
  exact released_only_after_grace ht (lateSweep ++ [.turn 0]) lateSweep (.turn 0) [] rfl 0 lateTick _ "b" _ _ rfl rfl
    rfl rfl rfl rfl (by decide)

end BookingSystem.Concurrency.CheckinDesk
