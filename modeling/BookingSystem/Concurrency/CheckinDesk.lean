import BookingSystem.Concurrency.Statements

/-!
# The check-in desk

Any number of clients scan tokens, check in, cancel, have tokens issued or mark bookings, while the sweep for bookings
nobody has come to runs. Every call goes on statement by statement. The kiosk holds the rows it has burned a token in
until its transaction ends, and whoever wants to write one of them waits.
-/

namespace BookingSystem.Concurrency.CheckinDesk

open Base Model Model.CheckinService Model.AutoReleaseService
open Effects

/-! ### The calls -/

inductive Call
  | redeemToken (token : String)
  | issueToken (tenantId userId : Uuid) (isAdmin : Bool) (bookingId : Uuid) (token : String)
  | checkinByBooking (tenantId userId : Uuid) (isAdmin : Bool) (bookingId : Uuid)
  | cancel (tenantId userId : Uuid) (role : String) (bookingId : Uuid) (reason : String)
  | markNoShow (tenantId bookingId : Uuid) (reason : Option String)
  | markAttended (tenantId bookingId : Uuid)
  | tick

/-- The call as one of the whole system. -/
def Call.op : Call → Op
  | .redeemToken token => .redeemToken token
  | .issueToken tenantId userId isAdmin bookingId token => .issueToken tenantId userId isAdmin bookingId token
  | .checkinByBooking tenantId userId isAdmin bookingId => .checkinByBooking tenantId userId isAdmin bookingId
  | .cancel tenantId userId role bookingId reason => .cancel tenantId userId role bookingId reason
  | .markNoShow tenantId bookingId reason => .markNoShow tenantId bookingId reason
  | .markAttended tenantId bookingId => .markAttended tenantId bookingId
  | .tick => .tick

def Call.issues : Call → Option String
  | .issueToken _ _ _ _ token => some token
  | _ => none

/-- A call, the settings it runs under and the time of its clock. -/
structure Job where
  env : Env
  now : Instant
  call : Call

def Job.event (job : Job) : Event := ⟨job.env, job.now, job.call.op⟩

/-! ### The sweep -/

/-- What a tick has looked up so far: the settings of the tenants, and the rooms. -/
structure Caches where
  custCache : List (Uuid × Customization) := []
  resCache : List (Uuid × Option Resource) := []

def graceOf (env : Env) (resource : Option Resource) (cust : Customization) : ℤ :=
  (positiveInt (resource.bind fun r => r.ruleOverrides.bind (·.graceMinutes))).getD
    ((positiveInt cust.autoReleaseGraceMinutes).getD (max 1 env.envGraceMinutes))

/-- `custCache`: the settings of a tenant are read once in a tick. -/
def Caches.cust (env : Env) (caches : Caches) (tenantId : Uuid) : Customization × Caches :=
  match caches.custCache.lookup tenantId with
  | some cust => (cust, caches)
  | none =>
    let cust := env.customization tenantId
    (cust, { caches with custCache := (tenantId, cust) :: caches.custCache })

/-- `resCache`: a room is read once in a tick, under the tenant of the first booking that needs it. -/
def Caches.res (env : Env) (caches : Caches) (b : Booking) : Option Resource × Caches :=
  match caches.resCache.lookup b.resourceId with
  | some resource => (resource, caches)
  | none =>
    let resource := env.resource b.tenantId b.resourceId
    (resource, { caches with resCache := (b.resourceId, resource) :: caches.resCache })

/-- Whether the loop of the tick comes to the `UPDATE` of a candidate, and what is looked up on the way. -/
def Caches.due (env : Env) (now : Instant) (caches : Caches) (b : Booking) : Bool × Caches :=
  let (cust, caches) := caches.cust env b.tenantId
  if cust.autoReleaseEnabled.getD env.envEnabled then
    let (resource, caches) := caches.res env b
    (b.startTime + graceOf env resource cust * 60000 ≤ now, caches)
  else (false, caches)

/-! ### The statements -/

/-- Where a call stands: nothing done yet; the entity in memory; the row reloaded by the save; the candidates the sweep
has still to go through; the rows the kiosk has burned the token in; the row that it has read. -/
inductive Phase
  | ready
  | holding (v : Booking)
  | reloaded (v loaded : Booking)
  | sweeping (caches : Caches) (todo : List Booking)
  | burned (token : String) (ids : List Uuid)
  | found (token : String) (ids : List Uuid) (b : Booking)

/-- The committed rows, the calls in progress, the row locks with their holders, and what the kiosk has answered: the
tokens it has taken, with their bookings. -/
structure Desk where
  store : Store
  clients : ℕ → Option (Job × Phase)
  locks : Uuid → Option ℕ
  answers : List (String × Uuid)

namespace Desk

variable (st : Desk) (p : ℕ)

def lockedFor (id : Uuid) : Bool := (st.locks id).any (· ≠ p)

def goOn (job : Job) (ph : Phase) : Desk := { st with clients := Function.update st.clients p (some (job, ph)) }

def leave : Desk :=
  { st with
    clients := Function.update st.clients p none
    locks := fun id => if st.locks id = some p then none else st.locks id }

def put (bookings : Table Booking) : Desk := { st with store := { st.store with bookings := bookings } }

/-- The next statement of a call. -/
def act (job : Job) (ph : Phase) : Desk :=
  match ph with
  | .ready =>
    match job.call with
    | .tick => st.goOn p job (.sweeping {} (candidates job.now st.store.bookings))
    | .redeemToken token =>
      let ids := (st.store.bookings.rows.filter (claims job.now token)).map (·.id)
      if token = "" then st.leave p
      else if ids.any (st.lockedFor p) then st
      else if ids = [] then st.leave p
      else { st.goOn p job (.burned token ids) with locks := fun id => if id ∈ ids then some p else st.locks id }
    | _ =>
      match entity st.store st.store.bookings job.event with
      | some v => st.goOn p job (.holding v)
      | none => st.leave p
  | .holding v =>
    match st.store.bookings.find? v.id with
    | some loaded => st.goOn p job (.reloaded v loaded)
    | none => st.leave p
  | .reloaded v loaded =>
    if st.lockedFor p v.id then st
    else
      (st.put (st.store.bookings.update (fun r => r.id == v.id) (writeDiff v loaded)
        (key_writeDiff v loaded))).leave p
  | .sweeping _ [] => st.leave p
  | .sweeping caches (b :: todo) =>
    let (due, caches) := caches.due job.env job.now b
    if !due then st.goOn p job (.sweeping caches todo)
    else if st.lockedFor p b.id then st
    else (st.put (release st.store.bookings b)).goOn p job (.sweeping caches todo)
  | .burned token ids =>
    match ids.head?.bind st.store.bookings.find? with
    | some c => st.goOn p job (.found token ids (burn c))
    | none => st.leave p
  | .found token ids b =>
    match applyCheckin job.now b with
    | .error _ => st.leave p
    | .ok saved =>
      let burnt := st.store.bookings.update (fun r => ids.contains r.id) burn key_burn
      let bookings := burnt.update (fun r => r.id == b.id) (writeDiff saved b) (key_writeDiff saved b)
      { (st.put bookings).leave p with answers := st.answers ++ [(token, b.id)] }

end Desk

/-- What happens: a client calls, the next statement of a call is executed, or a call dies in the middle. -/
inductive DeskEvent
  | call (p : ℕ) (job : Job)
  | turn (p : ℕ)
  | crash (p : ℕ)

/-- The desk after an event. -/
def serve (st : Desk) (e : DeskEvent) : Desk :=
  match e with
  | .call p job =>
    match st.clients p with
    | none => st.goOn p job .ready
    | some _ => st
  | .turn p =>
    match st.clients p with
    | some (job, ph) => st.act p job ph
    | none => st
  | .crash p => st.leave p

theorem Desk.clients_goOn (st : Desk) (p : ℕ) (job : Job) (ph : Phase) (q : ℕ) :
    (st.goOn p job ph).clients q = if q = p then some (job, ph) else st.clients q := Function.update_apply ..

theorem Desk.clients_leave (st : Desk) (p q : ℕ) : (st.leave p).clients q = if q = p then none else st.clients q :=
  Function.update_apply ..

def opened (store : Store) : Desk := ⟨store, fun _ => none, fun _ => none, []⟩

/-! ### What a statement does -/

section Statement

/-- The phases a call can go on to. -/
inductive Goes (st : Desk) (p : ℕ) (job : Job) : Phase → Phase → Prop
  | sweep (h : job.call = .tick) : Goes st p job .ready (.sweeping {} (candidates job.now st.store.bookings))
  | burn {token : String} {ids : List Uuid} (h : job.call = .redeemToken token)
      (hids : ids = (st.store.bookings.rows.filter (claims job.now token)).map (·.id))
      (hfree : ∀ id ∈ ids, st.lockedFor p id = false) (hne : ids ≠ []) : Goes st p job .ready (.burned token ids)
  | read {v : Booking} (htick : job.call ≠ .tick) (hredeem : ∀ token, job.call ≠ .redeemToken token)
      (h : entity st.store st.store.bookings job.event = some v) : Goes st p job .ready (.holding v)
  | reload {v loaded : Booking} (h : st.store.bookings.find? v.id = some loaded) :
      Goes st p job (.holding v) (.reloaded v loaded)
  | turn {caches : Caches} {b : Booking} {todo : List Booking} :
      Goes st p job (.sweeping caches (b :: todo)) (.sweeping (caches.due job.env job.now b).2 todo)
  | find {token : String} {ids : List Uuid} {c : Booking} (h : ids.head?.bind st.store.bookings.find? = some c) :
      Goes st p job (.burned token ids) (.found token ids (CheckinService.burn c))

def Phase.lock (p : ℕ) (locks : Uuid → Option ℕ) : Phase → Uuid → Option ℕ
  | .burned _ ids => fun id => if id ∈ ids then some p else locks id
  | _ => locks

def Phase.commits (now : Instant) : Phase → Bool
  | .found _ _ b => (applyCheckin now b).toOption.isSome
  | _ => false

/-- What the next statement of a call can do to the desk. -/
inductive Acts (st : Desk) (p : ℕ) (job : Job) : Phase → Desk → Prop
  | wait {ph : Phase} (hno : ph.commits job.now = false) : Acts st p job ph st
  | leave {ph : Phase} (hno : ph.commits job.now = false) : Acts st p job ph (st.leave p)
  | go {ph ph' : Phase} (h : Goes st p job ph ph') :
      Acts st p job ph { st.goOn p job ph' with locks := ph'.lock p st.locks }
  | saved {v loaded : Booking} (hfree : st.lockedFor p v.id = false) :
      Acts st p job (.reloaded v loaded) ((st.put (st.store.bookings.update (fun r => r.id == v.id)
        (writeDiff v loaded) (key_writeDiff v loaded))).leave p)
  | released {caches : Caches} {b : Booking} {todo : List Booking}
      (hdue : (caches.due job.env job.now b).1 = true) (hfree : st.lockedFor p b.id = false) :
      Acts st p job (.sweeping caches (b :: todo))
        ((st.put (release st.store.bookings b)).goOn p job (.sweeping (caches.due job.env job.now b).2 todo))
  | redeemed {token : String} {ids : List Uuid} {b saved : Booking} (hok : applyCheckin job.now b = .ok saved) :
      Acts st p job (.found token ids b)
        { (st.put ((st.store.bookings.update (fun r => ids.contains r.id) burn key_burn).update
            (fun r => r.id == b.id) (writeDiff saved b) (key_writeDiff saved b))).leave p with
          answers := st.answers ++ [(token, b.id)] }

variable {st : Desk} {p q : ℕ} {job : Job} {ph : Phase} {id : Uuid}

/-- **One statement.** -/
theorem acts_act (st : Desk) (p : ℕ) (job : Job) (ph : Phase) : Acts st p job ph (st.act p job ph) := by
  cases ph with
  | ready =>
    simp only [Desk.act]
    split
    · rename_i htick
      exact .go (.sweep htick)
    · rename_i token hredeem
      split
      · exact .leave rfl
      · split
        · exact .wait rfl
        · rename_i hfree
          split
          · exact .leave rfl
          · rename_i hne
            refine .go (.burn hredeem rfl (fun id hid => ?_) hne)
            rw [← Bool.not_eq_true]
            exact fun hlock => hfree (List.any_eq_true.2 ⟨id, hid, hlock⟩)
    · rename_i htick hredeem
      split
      · rename_i v hv
        exact .go (.read htick hredeem hv)
      · exact .leave rfl
  | holding v =>
    simp only [Desk.act]
    split
    · rename_i loaded hloaded
      exact .go (.reload hloaded)
    · exact .leave rfl
  | reloaded v loaded =>
    simp only [Desk.act]
    split
    · exact .wait rfl
    · rename_i hfree
      exact .saved (by simpa using hfree)
  | sweeping caches todo =>
    cases todo with
    | nil => exact .leave rfl
    | cons b todo =>
      simp only [Desk.act]
      split
      · exact .go .turn
      · rename_i hdue
        split
        · exact .wait rfl
        · rename_i hfree
          exact .released (by simpa using hdue) (by simpa using hfree)
  | burned token ids =>
    simp only [Desk.act]
    split
    · rename_i c hc
      exact .go (.find hc)
    · exact .leave rfl
  | found token ids b =>
    simp only [Desk.act]
    split
    · rename_i e he
      exact .leave (by simp [Phase.commits, he, Except.toOption])
    · rename_i saved hok
      exact .redeemed hok

def burnIn (ids : List Uuid) (r : Booking) : Booking := if r.id ∈ ids then burn r else r

theorem id_burnIn (ids : List Uuid) (r : Booking) : (burnIn ids r).id = r.id := by
  unfold burnIn
  split <;> rfl

/-- How the next statement of a call takes the row `id` from `r` to `r'`. -/
inductive Wrote (st : Desk) (p : ℕ) (job : Job) (ph : Phase) (id : Uuid) (r r' : Booking) : Prop
  | same (hno : ph.commits job.now = false) (h : r' = r)
  | saved {v loaded : Booking} (hph : ph = .reloaded v loaded) (hid : v.id = id) (hfree : st.lockedFor p id = false)
      (h : r' = writeDiff v loaded r)
  | released {caches : Caches} {b : Booking} {todo : List Booking} (hph : ph = .sweeping caches (b :: todo))
      (hid : b.id = id) (hdue : (caches.due job.env job.now b).1 = true) (hfree : st.lockedFor p id = false)
      (hst : r.status = .confirmed) (hin : r.checkedInAt = none) (notes : String)
      (h : r' = { r with status := .noShow, exceptionNotes := notes })
  | redeemed {token : String} {ids : List Uuid} {b saved : Booking} (hph : ph = .found token ids b)
      (hok : applyCheckin job.now b = .ok saved)
      (h : r' = if r.id = b.id then writeDiff saved b (burnIn ids r) else burnIn ids r)

theorem wrote_act (st : Desk) (p : ℕ) (job : Job) (ph : Phase) (id : Uuid) :
    ∃ f : Booking → Booking, (st.act p job ph).store.bookings.find? id = (st.store.bookings.find? id).map f ∧
      ∀ r, st.store.bookings.find? id = some r → Wrote st p job ph id r (f r) := by
  have hacts := acts_act st p job ph
  generalize st.act p job ph = st' at hacts
  cases hacts with
  | wait hno | leave hno => exact ⟨fun r => r, Option.map_id'.symm, fun r _ => .same hno rfl⟩
  | go hgo =>
    have hno : ph.commits job.now = false := by cases hgo <;> rfl
    exact ⟨fun r => r, Option.map_id'.symm, fun r _ => .same hno rfl⟩
  | @saved v loaded hfree =>
    refine ⟨_, Table.find?_update _ _ _ (key_writeDiff v loaded) id, fun r hr => ?_⟩
    have hrid : r.id = id := Table.key_of_find? hr
    split
    · rename_i hid
      have hv : v.id = id := (beq_iff_eq.1 hid).symm.trans hrid
      exact .saved rfl hv (hv ▸ hfree) rfl
    · exact .same rfl rfl
  | @released caches b todo hdue hfree =>
    refine ⟨_, find?_release st.store.bookings b id, fun r hr => ?_⟩
    have hrid : r.id = id := Table.key_of_find? hr
    split
    · rename_i hrow
      have hb : b.id = id := hrow.1.symm.trans hrid
      exact .released rfl hb hdue (hb ▸ hfree) hrow.2.1 hrow.2.2 _ rfl
    · exact .same rfl rfl
  | @redeemed token ids b saved hok =>
    refine ⟨fun r => if r.id = b.id then writeDiff saved b (burnIn ids r) else burnIn ids r, ?_,
      fun r _ => .redeemed rfl hok rfl⟩
    show (Table.update _ _ _ (key_writeDiff saved b)).find? id = _
    rw [Table.find?_update, Table.find?_update, Option.map_map]
    congr 1
    funext r
    have hburn : (if ids.contains r.id then burn r else r) = burnIn ids r := by simp [burnIn]
    simp only [Function.comp, hburn, id_burnIn, beq_iff_eq]

theorem client_act (st : Desk) (p : ℕ) (job : Job) (ph : Phase) :
    st.act p job ph = st ∨ (st.act p job ph).clients p = none ∨
      ∃ ph', (st.act p job ph).clients p = some (job, ph') ∧ Goes st p job ph ph' ∧
        (st.act p job ph).locks = ph'.lock p st.locks ∧
        ((st.act p job ph).store = st.store ∨ ∃ caches todo, ph' = .sweeping caches todo) := by
  have hleave : ∀ {st' : Desk}, (st'.leave p).clients p = none := by
    intro st'
    rw [Desk.clients_leave, if_pos rfl]
  have hgo : ∀ {st' : Desk} {ph' : Phase}, (st'.goOn p job ph').clients p = some (job, ph') := by
    intro st' ph'
    rw [Desk.clients_goOn, if_pos rfl]
  have hacts := acts_act st p job ph
  generalize st.act p job ph = st' at hacts
  cases hacts with
  | wait => exact .inl rfl
  | leave | saved | redeemed => exact .inr (.inl hleave)
  | go h => exact .inr (.inr ⟨_, hgo, h, rfl, .inl rfl⟩)
  | released => exact .inr (.inr ⟨_, hgo, .turn, rfl, .inr ⟨_, _, rfl⟩⟩)

theorem client_act_other (hq : q ≠ p) : (st.act p job ph).clients q = st.clients q := by
  have hacts := acts_act st p job ph
  generalize st.act p job ph = st' at hacts
  cases hacts with
  | wait => rfl
  | leave | saved | redeemed => exact (Desk.clients_leave ..).trans (if_neg hq)
  | go | released => exact (Desk.clients_goOn ..).trans (if_neg hq)

theorem locks_act_other (hq : q ≠ p) (hlock : st.locks id = some q) : (st.act p job ph).locks id = some q := by
  have hne : st.locks id ≠ some p := by simpa [hlock] using hq
  have hacts := acts_act st p job ph
  generalize st.act p job ph = st' at hacts
  cases hacts with
  | wait | released => exact hlock
  | leave | saved | redeemed => exact (if_neg hne).trans hlock
  | go h =>
    cases h with
    | @burn token ids _ _ hfree =>
      refine (if_neg fun hid => ?_).trans hlock
      have hbusy := hfree id hid
      simp [Desk.lockedFor, hlock, hq] at hbusy
    | _ => exact hlock

theorem answers_act (st : Desk) (p : ℕ) (job : Job) (ph : Phase) :
    (st.act p job ph).answers = st.answers ∨ ∃ token ids b saved, ph = .found token ids b ∧
      applyCheckin job.now b = .ok saved ∧ (st.act p job ph).answers = st.answers ++ [(token, b.id)] := by
  have hacts := acts_act st p job ph
  generalize st.act p job ph = st' at hacts
  cases hacts with
  | wait | leave | go | saved | released => exact .inl rfl
  | redeemed hok => exact .inr ⟨_, _, _, _, rfl, hok, rfl⟩

theorem entity_row {store : Store} {job : Job} {v : Booking} (hv : entity store store.bookings job.event = some v) :
    ∃ b, store.bookings.find? v.id = some b ∧ v.tenantId = b.tenantId ∧ v.resourceId = b.resourceId ∧
      v.startTime = b.startTime ∧ v.checkinToken = job.call.issues.or b.checkinToken := by
  have hread : ∀ {tenantId bookingId : Uuid} {b : Booking}, findBooking store.bookings tenantId bookingId = some b →
      store.bookings.find? b.id = some b := by
    intro tenantId bookingId b hb
    obtain ⟨hfind, -⟩ := findBooking_eq_some.1 hb
    have hid : b.id = bookingId := Table.key_of_find? hfind
    rw [hid]
    exact hfind
  obtain ⟨env, now, call⟩ := job
  cases call with
  | redeemToken token => cases hv
  | issueToken tenantId userId admin bookingId token =>
    simp only [Job.event, Call.op, entity, Option.bind_eq_some_iff, toOption_eq_some] at hv
    obtain ⟨⟨store', token'⟩, hr, hrow⟩ := hv
    obtain ⟨b, hb, -, rfl⟩ := issueToken_ok hr
    obtain ⟨-, -, rfl⟩ := saved_row (findBooking_eq_some.1 hb).1 hb hrow rfl
    exact ⟨b, hread hb, rfl, rfl, rfl, rfl⟩
  | checkinByBooking tenantId userId admin bookingId =>
    obtain ⟨store', hr, -⟩ := unlessRead_eq_some.1 hv
    have hrow := checkinByBooking_row hr
    obtain ⟨b, at', hb, -, -, rfl⟩ := checkinByBooking_ok hr
    obtain ⟨-, -, rfl⟩ := saved_row (findBooking_eq_some.1 hb).1 hb hrow rfl
    exact ⟨b, hread hb, rfl, rfl, rfl, rfl⟩
  | cancel tenantId userId role bookingId reason =>
    obtain ⟨store', hr, hunread⟩ := unlessRead_eq_some.1 hv
    have hrow := cancel_row hr
    obtain ⟨b, hb, -, ⟨-, rfl⟩ | ⟨-, notes, rfl⟩⟩ := cancel_ok hr
    · exact absurd hrow hunread
    · obtain ⟨-, -, rfl⟩ := saved_row (findBooking_eq_some.1 hb).1 hb hrow rfl
      exact ⟨b, hread hb, rfl, rfl, rfl, rfl⟩
  | markNoShow tenantId bookingId reason =>
    obtain ⟨store', hr, hunread⟩ := unlessRead_eq_some.1 hv
    have hrow := markNoShow_row hr
    obtain rfl | ⟨b, notes, hb, -, rfl⟩ := markNoShow_ok hr
    · exact absurd hrow hunread
    · obtain ⟨-, -, rfl⟩ := saved_row (findBooking_eq_some.1 hb).1 hb hrow rfl
      exact ⟨b, hread hb, rfl, rfl, rfl, rfl⟩
  | markAttended tenantId bookingId =>
    obtain ⟨store', hr, hunread⟩ := unlessRead_eq_some.1 hv
    have hrow := markAttended_row hr
    obtain rfl | ⟨b, hb, -, rfl⟩ := markAttended_ok hr
    · exact absurd hrow hunread
    · obtain ⟨-, -, rfl⟩ := saved_row (findBooking_eq_some.1 hb).1 hb hrow rfl
      exact ⟨b, hread hb, rfl, rfl, rfl, rfl⟩
  | tick => cases hv

end Statement

/-! ### A small desk -/

def midnight : Store where
  bookings := { rows := [⟨"b", "t", "r", "u", 0, 3600000, .confirmed, "", "", "", .exclusive, none, none, none, none,
    none, false, false, none, none, none, none, 0⟩], nodup := by simp }
  steps := .empty
  approvals := []

end BookingSystem.Concurrency.CheckinDesk
