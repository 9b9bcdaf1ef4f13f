import BookingSystem.Concurrency.CheckinDesk
import Mathlib.Data.List.Nodup

/-!
# Check-in tokens

A token opens the desk once. The kiosk burns it with a conditional `UPDATE` and keeps the row locked until it has
checked the booking in, or takes the burning back. In between nobody can write the row, so of any number of scans one
succeeds, and a token is gone for good only together with a check-in (`token_used_once`).
-/

namespace BookingSystem.Concurrency.CheckinDesk

open Base Model Model.CheckinService Model.AutoReleaseService
open Effects

/-! ### Where a token is -/

def Call.AtKiosk : Call → Prop
  | .redeemToken _ | .issueToken .. | .tick => True
  | _ => False

/-- The token is stored in the row of a booking. -/
def Stored (st : Desk) (t : String) : Prop := ∃ id b, st.store.bookings.find? id = some b ∧ b.checkinToken = some t

/-- A call is about to issue the token. -/
def Owns (st : Desk) (p : ℕ) (t : String) : Prop := ∃ job ph, st.clients p = some (job, ph) ∧ job.call.issues = some t

/-- The kiosk has taken the token. -/
def Taken (st : Desk) (t : String) : Prop := t ∈ st.answers.map (·.1)

/-- What a call knows about the token and the rows. -/
def TokenAt (st : Desk) (p : ℕ) (job : Job) : Phase → Prop
  | .holding v => job.call.issues.isSome ∧ v.checkinToken = job.call.issues
  | .reloaded v loaded =>
    job.call.issues.isSome ∧ v.checkinToken = job.call.issues ∧ loaded.checkinToken ≠ v.checkinToken
  | .burned token ids =>
    job.call.issues = none ∧ ∀ id ∈ ids, st.locks id = some p ∧
      ∃ c, st.store.bookings.find? id = some c ∧ claims job.now token c = true
  | .found token ids b =>
    job.call.issues = none ∧ (∀ id ∈ ids, st.locks id = some p ∧
      ∃ c, st.store.bookings.find? id = some c ∧ claims job.now token c = true) ∧
      b.id ∈ ids ∧ ∃ c, st.store.bookings.find? b.id = some c ∧ b = burn c
  | _ => True

/-- A token is in one place: in one row, with the call that is to issue it, or taken. -/
structure InOnePlace (st : Desk) : Prop where
  row : ∀ t id id' b b', st.store.bookings.find? id = some b → st.store.bookings.find? id' = some b' →
    b.checkinToken = some t → b'.checkinToken = some t → id = id'
  owner : ∀ p q t, Owns st p t → Owns st q t → q = p
  unissued : ∀ p t, Owns st p t → ¬ Stored st t ∧ ¬ Taken st t
  taken : ∀ t, Taken st t → ¬ Stored st t
  once : (st.answers.map (·.1)).Nodup
  kiosk : ∀ p job ph, st.clients p = some (job, ph) → job.call.AtKiosk
  at' : ∀ p job ph, st.clients p = some (job, ph) → TokenAt st p job ph

/-! ### What one statement does to the tokens -/

section Statement

variable {st : Desk} {p : ℕ} {job : Job} {ph : Phase} {id : Uuid} {t : String} {r r' : Booking}

theorem token_of_claims {now : Instant} (h : claims now t r = true) : r.checkinToken = some t := by
  simp only [claims, Bool.and_eq_true, beq_iff_eq] at h
  exact h.1.1

theorem InOnePlace.owns (h : InOnePlace st) (hp : st.clients p = some (job, ph)) (hissue : job.call.issues = some t) :
    ¬ Stored st t ∧ ¬ Taken st t := h.unissued p t ⟨job, ph, hp, hissue⟩

theorem InOnePlace.found_row (h : InOnePlace st) {token : String} {ids : List Uuid} {b : Booking}
    (hp : st.clients p = some (job, .found token ids b)) :
    Stored st token ∧ (∃ c, st.store.bookings.find? b.id = some c ∧ b = burn c ∧ c.checkinToken = some token) ∧
      b.id ∈ ids ∧ ∀ id b', st.store.bookings.find? id = some b' → b'.checkinToken = some token ∨ id ∈ ids →
        id = b.id := by
  obtain ⟨-, hids, hmem, c, hc, hburn⟩ := h.at' p job _ hp
  obtain ⟨-, c', hc', hclaim⟩ := hids b.id hmem
  obtain rfl := Option.some.inj (hc.symm.trans hc')
  have htoken := token_of_claims hclaim
  refine ⟨⟨b.id, c, hc, htoken⟩, ⟨c, hc, hburn, htoken⟩, hmem, fun id b' hb' hor => ?_⟩
  rcases hor with hb't | hid
  · exact h.row token id b.id b' c hb' hc hb't htoken
  · obtain ⟨-, c', hc', hclaim'⟩ := hids id hid
    exact h.row token id b.id c' c hc' hc (token_of_claims hclaim') htoken

theorem checkedIn_row {now : Instant} {ids : List Uuid} {c saved : Booking} (hmem : c.id ∈ ids)
    (hok : applyCheckin now (burn c) = .ok saved) :
    (writeDiff saved (burn c) (burnIn ids c)).checkinToken = none ∧
      (writeDiff saved (burn c) (burnIn ids c)).status = .checkedIn := by
  obtain ⟨-, at', rfl⟩ := applyCheckin_ok hok
  rw [burnIn, if_pos hmem]
  refine ⟨rfl, ?_⟩
  simp only [writeDiff, column]
  split
  · rename_i heq
    exact heq.symm
  · rfl

theorem InOnePlace.redeemed_row (h : InOnePlace st) {token : String} {ids : List Uuid} {b saved : Booking}
    (hp : st.clients p = some (job, .found token ids b)) (hr : st.store.bookings.find? id = some r)
    (hok : applyCheckin job.now b = .ok saved)
    (heq : r' = if r.id = b.id then writeDiff saved b (burnIn ids r) else burnIn ids r) :
    (id = b.id → r'.checkinToken = none ∧ r'.status = .checkedIn) ∧ (id ≠ b.id → r' = r) := by
  obtain ⟨-, ⟨c, hc, hburn, -⟩, hmem, honly⟩ := h.found_row hp
  have hrid : r.id = id := Table.key_of_find? hr
  constructor
  · rintro rfl
    obtain rfl := Option.some.inj (hr.symm.trans hc)
    rw [heq, if_pos hrid]
    subst hburn
    exact checkedIn_row hmem hok
  · intro hid
    have hout : r.id ∉ ids := fun hin => hid (honly id r hr (.inr (hrid ▸ hin)))
    rw [heq, if_neg (hrid ▸ hid), burnIn, if_neg hout]

theorem InOnePlace.stored_act (h : InOnePlace st) (hp : st.clients p = some (job, ph))
    (hw : Wrote st p job ph id r r') (hr : st.store.bookings.find? id = some r) (ht : r'.checkinToken = some t) :
    (r.checkinToken = some t ∧ ∀ token ids b, ph = .found token ids b → ph.commits job.now = true → t ≠ token) ∨
    (job.call.issues = some t ∧ (∃ v loaded, ph = .reloaded v loaded ∧ v.id = id) ∧
      (st.act p job ph).clients p = none) := by
  cases hw with
  | same hno heq =>
    subst heq
    refine .inl ⟨ht, fun token ids b _ hyes => ?_⟩
    rw [hno] at hyes
    cases hyes
  | @saved v loaded hph hid hfree heq =>
    subst hph heq
    obtain ⟨-, hissue, hne⟩ := h.at' p job _ hp
    have htoken : (writeDiff v loaded r).checkinToken = v.checkinToken := if_neg hne.symm
    refine .inr ⟨?_, ⟨v, loaded, rfl, hid⟩, ?_⟩
    · rw [← hissue, ← htoken]
      exact ht
    · rw [← hid] at hfree
      simp only [Desk.act, hfree, Bool.false_eq_true, if_false, Desk.clients_leave, if_true]
  | released hph hid hdue hfree hst hin notes heq =>
    subst hph heq
    exact .inl ⟨ht, fun token ids b hfound => by cases hfound⟩
  | @redeemed token ids b saved hph hok heq =>
    subst hph
    obtain ⟨hgone, hkept⟩ := h.redeemed_row hp hr hok heq
    obtain ⟨-, -, -, honly⟩ := h.found_row hp
    by_cases hid : id = b.id
    · rw [(hgone hid).1] at ht
      cases ht
    · rw [hkept hid] at ht
      refine .inl ⟨ht, fun token' ids' b' hph' _ htt => ?_⟩
      cases hph'
      exact hid (honly id r hr (.inl (htt ▸ ht)))

theorem InOnePlace.locked_row (h : InOnePlace st) (hp : st.clients p = some (job, ph)) {q : ℕ} (hq : q ≠ p)
    (hlock : st.locks id = some q) : (st.act p job ph).store.bookings.find? id = st.store.bookings.find? id := by
  have hbusy : st.lockedFor p id = true := by simp [Desk.lockedFor, hlock, hq]
  obtain ⟨f, hf, hwrote⟩ := wrote_act st p job ph id
  rw [hf]
  cases hr : st.store.bookings.find? id with
  | none => rfl
  | some r =>
    rw [Option.map_some, Option.some.injEq]
    have hw := hwrote r hr
    revert hw
    generalize f r = r'
    intro hw
    cases hw with
    | same hno heq => exact heq
    | saved hph hid hfree => cases hbusy.symm.trans hfree
    | released hph hid hdue hfree => cases hbusy.symm.trans hfree
    | @redeemed token ids b saved hph hok heq =>
      subst hph
      refine (h.redeemed_row hp hr hok heq).2 ?_
      rintro rfl
      obtain ⟨-, hids, hmem, -⟩ := h.at' p job _ hp
      exact hq (Option.some.inj (hlock.symm.trans (hids b.id hmem).1))

theorem InOnePlace.tokenAt_other (h : InOnePlace st) (hp : st.clients p = some (job, ph)) {q : ℕ} {job' : Job}
    {ph' : Phase} (hq : q ≠ p) (hq' : st.clients q = some (job', ph')) : TokenAt (st.act p job ph) q job' ph' := by
  have hat := h.at' q job' ph' hq'
  have hkeep : ∀ {token : String} {id : Uuid}, (st.locks id = some q ∧ ∃ c, st.store.bookings.find? id = some c ∧
      claims job'.now token c = true) → (st.act p job ph).locks id = some q ∧
      ∃ c, (st.act p job ph).store.bookings.find? id = some c ∧ claims job'.now token c = true := by
    rintro token id ⟨hlock, c, hc, hclaim⟩
    refine ⟨locks_act_other hq hlock, c, ?_, hclaim⟩
    rw [h.locked_row hp hq hlock]
    exact hc
  cases ph' with
  | ready => trivial
  | holding v => exact hat
  | reloaded v loaded => exact hat
  | sweeping caches todo => trivial
  | burned token ids => exact ⟨hat.1, fun id hid => hkeep (hat.2 id hid)⟩
  | found token ids b =>
    obtain ⟨hissue, hids, hmem, c, hc, hburn⟩ := hat
    refine ⟨hissue, fun id hid => hkeep (hids id hid), hmem, c, ?_, hburn⟩
    rw [h.locked_row hp hq (hids b.id hmem).1]
    exact hc

theorem InOnePlace.tokenAt_self (h : InOnePlace st) (hp : st.clients p = some (job, ph)) {ph' : Phase}
    (hgo : Goes st p job ph ph') {st' : Desk} (hlocks : st'.locks = ph'.lock p st.locks)
    (hstore : st'.store = st.store ∨ ∃ caches todo, ph' = .sweeping caches todo) : TokenAt st' p job ph' := by
  have hat := h.at' p job ph hp
  have hkiosk := h.kiosk p job ph hp
  have hsame : (∀ caches todo, ph' ≠ .sweeping caches todo) → st'.store = st.store := by
    intro hne
    rcases hstore with hs | ⟨caches, todo, hs⟩
    · exact hs
    · exact absurd hs (hne caches todo)
  cases hgo with
  | sweep hcall => trivial
  | @burn token ids hcall hids hfree hne =>
    refine ⟨by rw [hcall]; rfl, fun id hid => ⟨?_, ?_⟩⟩
    · rw [hlocks]
      exact if_pos hid
    · rw [hids, List.mem_map] at hid
      obtain ⟨c, hc, rfl⟩ := hid
      obtain ⟨hmem, hclaim⟩ := List.mem_filter.1 hc
      refine ⟨c, ?_, hclaim⟩
      rw [hsame (by simp)]
      exact Table.find?_of_mem hmem
  | @read v htick hredeem hv =>
    obtain ⟨b, hb, -, -, -, htoken⟩ := entity_row hv
    obtain ⟨env, now, call⟩ := job
    cases call with
    | issueToken tenantId userId admin bookingId token => exact ⟨rfl, htoken⟩
    | redeemToken token => exact absurd rfl (hredeem token)
    | tick => exact absurd rfl htick
    | _ => exact hkiosk.elim
  | @reload v loaded hloaded =>
    obtain ⟨hsome, htoken⟩ := hat
    obtain ⟨token, hissue⟩ := Option.isSome_iff_exists.1 hsome
    refine ⟨hsome, htoken, fun heq => ?_⟩
    rw [htoken, hissue] at heq
    exact (h.owns hp hissue).1 ⟨v.id, loaded, hloaded, heq⟩
  | turn => trivial
  | @find token ids c hc =>
    obtain ⟨hissue, hids⟩ := hat
    obtain ⟨id, hhead, hid⟩ := Option.bind_eq_some_iff.1 hc
    have hcid : c.id = id := Table.key_of_find? hid
    have hs := hsame (by simp)
    refine ⟨hissue, fun id' hid' => ?_, ?_, c, ?_, rfl⟩
    · rw [hlocks, hs]
      exact hids id' hid'
    · show c.id ∈ ids
      rw [hcid]
      exact List.mem_of_mem_head? hhead
    · rw [hs]
      show st.store.bookings.find? c.id = some c
      rw [hcid]
      exact hid

theorem client_before (hp : st.clients p = some (job, ph)) {q : ℕ} {job' : Job} {ph' : Phase}
    (hq : (st.act p job ph).clients q = some (job', ph')) : ∃ ph₀, st.clients q = some (job', ph₀) := by
  by_cases hpq : q = p
  · subst hpq
    rcases client_act st q job ph with hwait | hnone | ⟨ph'', hsome, -⟩
    · rw [hwait] at hq
      exact ⟨ph', hq⟩
    · cases hnone.symm.trans hq
    · obtain ⟨rfl, -⟩ := Prod.mk.inj (Option.some.inj (hsome.symm.trans hq))
      exact ⟨ph, hp⟩
  · rw [client_act_other hpq] at hq
    exact ⟨ph', hq⟩

theorem owns_before (hp : st.clients p = some (job, ph)) {q : ℕ} (h : Owns (st.act p job ph) q t) : Owns st q t := by
  obtain ⟨job', ph', hq, hissue⟩ := h
  obtain ⟨ph₀, hq₀⟩ := client_before hp hq
  exact ⟨job', ph₀, hq₀, hissue⟩

theorem InOnePlace.stored_before (h : InOnePlace st) (hp : st.clients p = some (job, ph)) {b' : Booking}
    (hb' : (st.act p job ph).store.bookings.find? id = some b') (ht : b'.checkinToken = some t) :
    (∃ b, st.store.bookings.find? id = some b ∧ b.checkinToken = some t ∧
      ∀ token ids c, ph = .found token ids c → ph.commits job.now = true → t ≠ token) ∨
    (job.call.issues = some t ∧ (∃ v loaded, ph = .reloaded v loaded ∧ v.id = id) ∧
      (st.act p job ph).clients p = none) := by
  obtain ⟨f, hf, hwrote⟩ := wrote_act st p job ph id
  rw [hf, Option.map_eq_some_iff] at hb'
  obtain ⟨b, hb, rfl⟩ := hb'
  rcases h.stored_act hp (hwrote b hb) hb ht with ⟨hold, hne⟩ | hnew
  · exact .inl ⟨b, hb, hold, hne⟩
  · exact .inr hnew

theorem InOnePlace.taken_before (h : InOnePlace st) (hp : st.clients p = some (job, ph))
    (ht : Taken (st.act p job ph) t) :
    Taken st t ∨ (Stored st t ∧ ∃ ids c, ph = .found t ids c ∧ ph.commits job.now = true) := by
  rcases answers_act st p job ph with hsame | ⟨token, ids, c, saved, hph, hok, hans⟩
  · rw [Taken, hsame] at ht
    exact .inl ht
  · rw [Taken, hans, List.map_append, List.mem_append] at ht
    rcases ht with ht | ht
    · exact .inl ht
    · obtain rfl : t = token := List.mem_singleton.1 ht
      subst hph
      exact .inr ⟨(h.found_row hp).1, ids, c, rfl, by simp [Phase.commits, hok, Except.toOption]⟩

/-- **One statement.** Every token stays in one place. -/
theorem InOnePlace.act (h : InOnePlace st) (hp : st.clients p = some (job, ph)) : InOnePlace (st.act p job ph) := by
  have hnew : ∀ {t}, job.call.issues = some t → ¬ Stored st t ∧ ¬ Taken st t := fun hissue => h.owns hp hissue
  refine ⟨?_, ?_, ?_, ?_, ?_, ?_, ?_⟩
  · intro t id id' b b' hb hb' ht ht'
    rcases h.stored_before hp hb ht with ⟨c, hc, hct, -⟩ | ⟨hissue, ⟨v, loaded, hph, hid⟩, -⟩
    · rcases h.stored_before hp hb' ht' with ⟨c', hc', hct', -⟩ | ⟨hissue, -⟩
      · exact h.row t id id' c c' hc hc' hct hct'
      · exact absurd ⟨id, c, hc, hct⟩ (hnew hissue).1
    · rcases h.stored_before hp hb' ht' with ⟨c', hc', hct', -⟩ | ⟨-, ⟨v', loaded', hph', hid'⟩, -⟩
      · exact absurd ⟨id', c', hc', hct'⟩ (hnew hissue).1
      · rw [hph] at hph'
        cases hph'
        exact hid.symm.trans hid'
  · intro q q' t hq hq'
    exact h.owner q q' t (owns_before hp hq) (owns_before hp hq')
  · intro q t hq
    obtain ⟨hstored, htook⟩ := h.unissued q t (owns_before hp hq)
    constructor
    · rintro ⟨id, b', hb', ht⟩
      rcases h.stored_before hp hb' ht with ⟨b, hb, hbt, -⟩ | ⟨hissue, -, hleft⟩
      · exact hstored ⟨id, b, hb, hbt⟩
      · -- the call that has issued the token is gone
        obtain rfl := h.owner p q t ⟨job, ph, hp, hissue⟩ (owns_before hp hq)
        obtain ⟨job', ph', hq', -⟩ := hq
        cases hleft.symm.trans hq'
    · intro ht
      rcases h.taken_before hp ht with ht | ⟨hs, -⟩
      · exact htook ht
      · exact hstored hs
  · rintro t ht ⟨id, b', hb', hbt'⟩
    rcases h.stored_before hp hb' hbt' with ⟨b, hb, hbt, hne⟩ | ⟨hissue, ⟨v, loaded, hph, -⟩, -⟩
    · rcases h.taken_before hp ht with ht | ⟨-, ids, c, hph, hcom⟩
      · exact h.taken t ht ⟨id, b, hb, hbt⟩
      · exact hne t ids c hph hcom rfl
    · rcases h.taken_before hp ht with ht | ⟨hs, -⟩
      · exact (hnew hissue).2 ht
      · exact (hnew hissue).1 hs
  · rcases answers_act st p job ph with hsame | ⟨token, ids, c, saved, hph, hok, hans⟩
    · rw [hsame]
      exact h.once
    · rw [hans, List.map_append, List.map_singleton, List.nodup_append]
      refine ⟨h.once, List.nodup_singleton _, fun x hx y hy hxy => ?_⟩
      obtain rfl := List.mem_singleton.1 hy
      subst hph hxy
      exact h.taken _ hx (h.found_row hp).1
  · intro q job' ph' hq
    obtain ⟨ph₀, hq₀⟩ := client_before hp hq
    exact h.kiosk q job' ph₀ hq₀
  · intro q job' ph' hq
    by_cases hpq : q = p
    · subst hpq
      rcases client_act st q job ph with hwait | hnone | ⟨ph'', hsome, hgo, hlocks, hstore⟩
      · rw [hwait] at hq ⊢
        exact h.at' q job' ph' hq
      · cases hnone.symm.trans hq
      · obtain ⟨rfl, rfl⟩ := Prod.mk.inj (Option.some.inj (hsome.symm.trans hq))
        exact h.tokenAt_self hp hgo hlocks hstore
    · rw [client_act_other hpq] at hq
      exact h.tokenAt_other hp hpq hq

end Statement

/-! ### What the claim is about -/

/-- Each token is taken at most once. -/
def SingleUse (st : Desk) : Prop := ∀ t, (st.answers.map (·.1)).count t ≤ 1

/-- The token leaves the row of the booking and is not replaced. -/
def Consumes (st st' : Desk) (t : String) (id : Uuid) : Prop :=
  ∃ b b', st.store.bookings.find? id = some b ∧ st'.store.bookings.find? id = some b' ∧
    b.checkinToken = some t ∧ b'.checkinToken = none

/-- The transaction of a scan is committed, and has checked the booking in. -/
def ChecksIn (st st' : Desk) (t : String) (id : Uuid) : Prop :=
  st'.answers = st.answers ++ [(t, id)] ∧ ∃ b', st'.store.bookings.find? id = some b' ∧ b'.status = .checkedIn

/-! ### One event -/

section Event

variable {st : Desk} {t : String}

/-- The token is somewhere. -/
def Known (st : Desk) (t : String) : Prop := Stored st t ∨ Taken st t ∨ ∃ p, Owns st p t

/-- A call that comes in is one at the kiosk, and a token that it is to issue is new. -/
def FreshCall (st : Desk) (e : DeskEvent) : Prop :=
  match e with
  | .call _ job => job.call.AtKiosk ∧ ∀ t, job.call.issues = some t → ¬ Known st t
  | _ => True

def issued (es : List DeskEvent) : List String :=
  es.filterMap fun
    | .call _ job => job.call.issues
    | _ => none

theorem InOnePlace.call (h : InOnePlace st) {p : ℕ} {job : Job} (hC : FreshCall st (.call p job)) :
    InOnePlace (st.goOn p job .ready) := by
  have howns : ∀ {q t}, Owns (st.goOn p job .ready) q t → Owns st q t ∨ (q = p ∧ job.call.issues = some t) := by
    rintro q t ⟨job', ph', hq, hissue⟩
    rw [Desk.clients_goOn] at hq
    split at hq
    · obtain ⟨rfl, -⟩ := Prod.mk.inj (Option.some.inj hq)
      exact .inr ⟨‹_›, hissue⟩
    · exact .inl ⟨job', ph', hq, hissue⟩
  refine ⟨h.row, ?_, ?_, h.taken, h.once, ?_, ?_⟩
  · intro q q' t hq hq'
    rcases howns hq with hold | ⟨hqp, hissue⟩
    · rcases howns hq' with hold' | ⟨-, hissue⟩
      · exact h.owner q q' t hold hold'
      · exact absurd (.inr (.inr ⟨q, hold⟩)) (hC.2 t hissue)
    · rcases howns hq' with hold' | ⟨hqp', -⟩
      · exact absurd (.inr (.inr ⟨q', hold'⟩)) (hC.2 t hissue)
      · exact hqp'.trans hqp.symm
  · intro q t hq
    rcases howns hq with hq | ⟨-, hissue⟩
    · exact h.unissued q t hq
    · exact ⟨fun hs => hC.2 t hissue (.inl hs), fun ht => hC.2 t hissue (.inr (.inl ht))⟩
  · intro q job' ph' hq
    rw [Desk.clients_goOn] at hq
    split at hq
    · obtain ⟨rfl, -⟩ := Prod.mk.inj (Option.some.inj hq)
      exact hC.1
    · exact h.kiosk q job' ph' hq
  · intro q job' ph' hq
    rw [Desk.clients_goOn] at hq
    split at hq
    · obtain ⟨rfl, rfl⟩ := Prod.mk.inj (Option.some.inj hq)
      trivial
    · have := h.at' q job' ph' hq
      cases ph' <;> exact this

theorem InOnePlace.crash (h : InOnePlace st) (p : ℕ) : InOnePlace (st.leave p) := by
  have hstill : ∀ {q job ph}, (st.leave p).clients q = some (job, ph) → q ≠ p ∧ st.clients q = some (job, ph) := by
    intro q job ph hq
    rw [Desk.clients_leave] at hq
    split at hq
    · cases hq
    · exact ⟨‹_›, hq⟩
  have howns : ∀ {q t}, Owns (st.leave p) q t → Owns st q t := by
    rintro q t ⟨job, ph, hq, hissue⟩
    exact ⟨job, ph, (hstill hq).2, hissue⟩
  refine ⟨h.row, fun q q' t hq hq' => h.owner q q' t (howns hq) (howns hq'),
    fun q t hq => h.unissued q t (howns hq), h.taken, h.once, fun q job ph hq => h.kiosk q job ph (hstill hq).2, ?_⟩
  intro q job ph hq
  obtain ⟨hne, hq⟩ := hstill hq
  have hlock : ∀ {id}, st.locks id = some q → (st.leave p).locks id = some q := by
    intro id hid
    simp [Desk.leave, hid, hne]
  have hat := h.at' q job ph hq
  cases ph with
  | burned token ids => exact ⟨hat.1, fun id hid => ⟨hlock (hat.2 id hid).1, (hat.2 id hid).2⟩⟩
  | found token ids b =>
    exact ⟨hat.1, fun id hid => ⟨hlock (hat.2.1 id hid).1, (hat.2.1 id hid).2⟩, hat.2.2⟩
  | _ => exact hat

/-- **One event.** -/
theorem InOnePlace.serve (h : InOnePlace st) {e : DeskEvent} (hC : FreshCall st e) : InOnePlace (serve st e) := by
  cases e with
  | call p job =>
    simp only [CheckinDesk.serve]
    split
    · exact h.call hC
    · exact h
  | turn p =>
    simp only [CheckinDesk.serve]
    split
    · rename_i job ph hp
      exact h.act hp
    · exact h
  | crash p => exact h.crash p

theorem InOnePlace.known (h : InOnePlace st) {e : DeskEvent} (ht : Known (CheckinDesk.serve st e) t) :
    Known st t ∨ t ∈ issued [e] := by
  cases e with
  | call p job =>
    simp only [CheckinDesk.serve] at ht
    split at ht
    · rcases ht with ht | ht | ⟨q, job', ph', hq, hissue⟩
      · exact .inl (.inl ht)
      · exact .inl (.inr (.inl ht))
      · rw [Desk.clients_goOn] at hq
        split at hq
        · obtain ⟨rfl, -⟩ := Prod.mk.inj (Option.some.inj hq)
          exact .inr (by simp [issued, hissue])
        · exact .inl (.inr (.inr ⟨q, job', ph', hq, hissue⟩))
    · exact .inl ht
  | turn p =>
    simp only [CheckinDesk.serve] at ht
    split at ht
    · rename_i job ph hp
      rcases ht with ⟨id, b', hb', ht⟩ | ht | ⟨q, hq⟩
      · rcases h.stored_before hp hb' ht with ⟨b, hb, hbt, -⟩ | ⟨hissue, -⟩
        · exact .inl (.inl ⟨id, b, hb, hbt⟩)
        · exact .inl (.inr (.inr ⟨p, job, ph, hp, hissue⟩))
      · rcases h.taken_before hp ht with ht | ⟨hs, -⟩
        · exact .inl (.inr (.inl ht))
        · exact .inl (.inl hs)
      · exact .inl (.inr (.inr ⟨q, owns_before hp hq⟩))
    · exact .inl ht
  | crash p =>
    rcases ht with ht | ht | ⟨q, job', ph', hq, hissue⟩
    · exact .inl (.inl ht)
    · exact .inl (.inr (.inl ht))
    · simp only [CheckinDesk.serve, Desk.clients_leave] at hq
      split at hq
      · cases hq
      · exact .inl (.inr (.inr ⟨q, job', ph', hq, hissue⟩))

end Event

/-! ### Every run -/

section Runs

variable {store : Store}

/-- The tokens of `randomBytes` are pairwise different: those that the calls are to issue, and those in the rows at the
beginning. -/
structure DistinctTokens (store : Store) (es : List DeskEvent) : Prop where
  issued : (issued es).Nodup
  fresh : ∀ t ∈ CheckinDesk.issued es, ∀ b ∈ store.bookings.rows, b.checkinToken ≠ some t
  stored : ∀ b ∈ store.bookings.rows, ∀ b' ∈ store.bookings.rows, b.checkinToken.isSome = true →
    b.checkinToken = b'.checkinToken → b = b'

theorem inOnePlace_opened (h : ∀ b ∈ store.bookings.rows, ∀ b' ∈ store.bookings.rows, b.checkinToken.isSome = true →
    b.checkinToken = b'.checkinToken → b = b') : InOnePlace (opened store) := by
  have hnone : ∀ p job ph, ¬ (opened store).clients p = some (job, ph) := fun p job ph hp => by cases hp
  refine ⟨?_, ?_, ?_, ?_, List.nodup_nil, ?_, ?_⟩
  · intro t id id' b b' hb hb' ht ht'
    have := h b (Table.mem_of_find? hb) b' (Table.mem_of_find? hb') (by rw [ht]; rfl) (ht.trans ht'.symm)
    subst this
    have hid : b.id = id := Table.key_of_find? hb
    have hid' : b.id = id' := Table.key_of_find? hb'
    exact hid.symm.trans hid'
  · rintro p q t ⟨job, ph, hp, -⟩
    exact absurd hp (hnone p job ph)
  · rintro p t ⟨job, ph, hp, -⟩
    exact absurd hp (hnone p job ph)
  · intro t ht
    cases ht
  · intro p job ph hp
    exact absurd hp (hnone p job ph)
  · intro p job ph hp
    exact absurd hp (hnone p job ph)

theorem issued_append (es fs : List DeskEvent) : issued (es ++ fs) = issued es ++ issued fs := List.filterMap_append ..

theorem inOnePlace_run {es : List DeskEvent} (hd : DistinctTokens store es)
    (hk : ∀ p job, DeskEvent.call p job ∈ es → job.call.AtKiosk) : ∀ l r, es = l ++ r →
    InOnePlace (run serve (opened store) l) ∧ ∀ t, Known (run serve (opened store) l) t →
      (∃ b ∈ store.bookings.rows, b.checkinToken = some t) ∨ t ∈ issued l := by
  intro l
  induction l using List.reverseRecOn with
  | nil =>
    intro r hes
    refine ⟨inOnePlace_opened hd.stored, fun t ht => ?_⟩
    rcases ht with ⟨id, b, hb, ht⟩ | ht | ⟨p, job, ph, hp, -⟩
    · exact .inl ⟨b, Table.mem_of_find? hb, ht⟩
    · cases ht
    · cases hp
  | append_singleton l e ih =>
    intro r hes
    rw [List.append_assoc, List.singleton_append] at hes
    obtain ⟨hplace, hknown⟩ := ih (e :: r) hes
    rw [run_append, run_cons, run_nil]
    have hfresh : FreshCall (run serve (opened store) l) e := by
      cases e with
      | call p job =>
        refine ⟨hk p job (by simp [hes]), fun t hissue ht => ?_⟩
        have hissued : issued es = issued l ++ t :: issued r := by
          rw [hes, issued_append, issued, issued, issued]
          simp [hissue]
        rcases hknown t ht with ⟨b, hb, hbt⟩ | hl
        · exact hd.fresh t (by simp [hissued]) b hb hbt
        · have hnodup := hd.issued
          rw [hissued, List.nodup_append] at hnodup
          exact hnodup.2.2 t hl t List.mem_cons_self rfl
      | _ => trivial
    refine ⟨hplace.serve hfresh, fun t ht => ?_⟩
    rw [issued_append, List.mem_append]
    rcases hplace.known ht with ht | ht
    · rcases hknown t ht with hb | hl
      · exact .inl hb
      · exact .inr (.inl hl)
    · exact .inr (.inr ht)

theorem InOnePlace.checksIn_of_consumes {st : Desk} {p : ℕ} {job : Job} {ph : Phase} {t : String} {id : Uuid}
    (h : InOnePlace st) (hp : st.clients p = some (job, ph)) (hc : Consumes st (st.act p job ph) t id) :
    ChecksIn st (st.act p job ph) t id := by
  obtain ⟨f, hf, hwrote⟩ := wrote_act st p job ph id
  obtain ⟨b, b', hb, hb', ht, hnone⟩ := hc
  rw [hf, hb, Option.map_some, Option.some.injEq] at hb'
  have hw := hwrote b hb
  rw [hb'] at hw
  cases hw with
  | same hno heq =>
    subst heq
    cases ht.symm.trans hnone
  | @saved v loaded hph hid hfree heq =>
    subst hph heq
    obtain ⟨hsome, hissue, hne⟩ := h.at' p job _ hp
    have htoken : (writeDiff v loaded b).checkinToken = v.checkinToken := if_neg hne.symm
    rw [← hissue, ← htoken, hnone] at hsome
    cases hsome
  | released hph hid hdue hfree hst hin notes heq =>
    subst heq
    cases ht.symm.trans hnone
  | @redeemed token ids c saved hph hok heq =>
    subst hph
    obtain ⟨hgone, hkept⟩ := h.redeemed_row hp hb hok heq
    obtain ⟨-, ⟨c', hc', -, htoken⟩, -⟩ := h.found_row hp
    by_cases hid : id = c.id
    · subst hid
      obtain rfl := Option.some.inj (hb.symm.trans hc')
      obtain rfl := Option.some.inj (ht.symm.trans htoken)
      refine ⟨?_, b', ?_, (hgone rfl).2⟩
      · simp only [Desk.act, hok]
      · rw [hf, hb, Option.map_some, hb']
    · rw [hkept hid] at hnone
      cases ht.symm.trans hnone

theorem InOnePlace.consumes_of_checksIn {st : Desk} {p : ℕ} {job : Job} {ph : Phase} {t : String} {id : Uuid}
    (h : InOnePlace st) (hp : st.clients p = some (job, ph)) (hc : ChecksIn st (st.act p job ph) t id) :
    Consumes st (st.act p job ph) t id := by
  obtain ⟨f, hf, hwrote⟩ := wrote_act st p job ph id
  obtain ⟨hans, -⟩ := hc
  rcases answers_act st p job ph with hsame | ⟨token, ids, c, saved, hph, hok, hans'⟩
  · rw [hsame] at hans
    exact absurd hans (by simp)
  · rw [hans', List.append_cancel_left_eq, List.singleton_inj, Prod.mk.injEq] at hans
    obtain ⟨rfl, rfl⟩ := hans
    subst hph
    obtain ⟨-, ⟨b, hb, -, htoken⟩, -⟩ := h.found_row hp
    have hcommits : (Phase.found token ids c).commits job.now = true := by
      simp [Phase.commits, hok, Except.toOption]
    refine ⟨b, f b, hb, ?_, htoken, ?_⟩
    · rw [hf, hb, Option.map_some]
    · have hw := hwrote b hb
      revert hw
      generalize f b = b'
      intro hw
      cases hw with
      | same hno => cases hno.symm.trans hcommits
      | saved hph => cases hph
      | released hph => cases hph
      | redeemed hph hok' heq =>
        cases hph
        exact ((h.redeemed_row hp hb hok' heq).1 rfl).1

/-- **Never for nothing.** A token is consumed exactly by the transaction that is committed with its booking checked
in. -/
theorem InOnePlace.consumes_iff {st : Desk} (h : InOnePlace st) (e : DeskEvent) (t : String) (id : Uuid) :
    Consumes st (CheckinDesk.serve st e) t id ↔ ChecksIn st (CheckinDesk.serve st e) t id := by
  have hidle : ∀ {st' : Desk}, st'.store = st.store → st'.answers = st.answers →
      (Consumes st st' t id ↔ ChecksIn st st' t id) := by
    intro st' hstore hans
    constructor
    · rintro ⟨b, b', hb, hb', ht, hnone⟩
      rw [hstore, hb] at hb'
      cases hb'
      cases ht.symm.trans hnone
    · rintro ⟨hnew, -⟩
      rw [hans] at hnew
      exact absurd hnew (by simp)
  cases e with
  | call p job =>
    simp only [CheckinDesk.serve]
    split
    · exact hidle rfl rfl
    · exact hidle rfl rfl
  | crash p => exact hidle rfl rfl
  | turn p =>
    simp only [CheckinDesk.serve]
    split
    · rename_i job ph hp
      exact ⟨h.checksIn_of_consumes hp, h.consumes_of_checksIn hp⟩
    · exact hidle rfl rfl

/-- **Used once, and never for nothing.** In every run of any number of scans, issues of tokens and ticks in any order,
with calls that die in the middle: no token is taken twice, and a token is consumed exactly by a scan whose transaction
is committed with the booking checked in. -/
theorem token_used_once {es : List DeskEvent} (hd : DistinctTokens store es)
    (hk : ∀ p job, DeskEvent.call p job ∈ es → job.call.AtKiosk) :
    (∀ l r, es = l ++ r → SingleUse (run serve (opened store) l)) ∧
      ∀ l e r, es = l ++ e :: r → ∀ t id,
        Consumes (run serve (opened store) l) (serve (run serve (opened store) l) e) t id ↔
          ChecksIn (run serve (opened store) l) (serve (run serve (opened store) l) e) t id := by
  constructor
  · intro l r hes t
    exact List.nodup_iff_count_le_one.1 (inOnePlace_run hd hk l r hes).1.once t
  · intro l e r hes t id
    exact (inOnePlace_run hd hk l (e :: r) hes).1.consumes_iff e t id

end Runs

/-! ### A double tap -/

def pastMidnight (call : Call) : Job := ⟨office .empty .empty .empty, 60000, call⟩

def doubleTap : List DeskEvent :=
  [.call 0 (pastMidnight (.issueToken "t" "u" false "b" "token")), .turn 0, .turn 0, .turn 0,
    .call 1 (pastMidnight (.redeemToken "token")), .call 2 (pastMidnight (.redeemToken "token")),
    .turn 1, .turn 2, .turn 1, .turn 1, .turn 2]

theorem distinct_doubleTap : DistinctTokens midnight doubleTap := by
  refine ⟨by decide, by decide, fun b hb b' hb' _ _ => ?_⟩
  rw [List.mem_singleton.1 hb, List.mem_singleton.1 hb']

/-- One of the two is answered. -/
theorem token_used_once_doubleTap :
    (run serve (opened midnight) doubleTap).answers = [("token", "b")] ∧
      SingleUse (run serve (opened midnight) doubleTap) := by
  refine ⟨by decide, (token_used_once distinct_doubleTap ?_).1 _ [] (List.append_nil _).symm⟩
  intro p job hjob
  simp only [doubleTap, List.mem_cons, reduceCtorEq, DeskEvent.call.injEq, List.not_mem_nil, or_false, false_or] at hjob
  rcases hjob with ⟨-, rfl⟩ | ⟨-, rfl⟩ | ⟨-, rfl⟩ <;> trivial

end BookingSystem.Concurrency.CheckinDesk
