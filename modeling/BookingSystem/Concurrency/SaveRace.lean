import BookingSystem.Concurrency.Statements

/-!
# Two operations on one booking row

Two operations take their statements in any order. No order loses a transition of the row exactly when each of the two
changes itself what the other one moves (`no_lost_iff_compatible`).
-/

namespace BookingSystem.Concurrency

open Base Model Model.BookingsService Effects
open Model.AutoReleaseService

/-- The store and the two operations on their way. -/
structure Race where
  st : Store
  phase : Bool → Phase

def Race.waits (ops : Bool → Event) (s : Race) (i : Bool) : Bool :=
  (asks (ops i) (s.phase i)).any fun x => (s.phase (!i)).locked.contains x

def turn (id : Uuid) (ops : Bool → Event) (s : Race) (i : Bool) : Race :=
  if s.waits ops i then s
  else ⟨write id (ops i) (s.phase i) s.st, Function.update s.phase i (next id (ops i) (s.phase i) s.st)⟩

def begin (st : Store) : Race := ⟨st, fun _ => .ready⟩

/-- Whenever one operation commits a transition of the row, and the other has read the row before, the other does
not put the older value back. -/
def NoLostTransition (id : Uuid) (ops : Bool → Event) (st : Store) (schedule : List Bool) : Prop :=
  ∀ p q r i, schedule = p ++ i :: (q ++ (!i) :: r) →
    (Base.run (turn id ops) (begin st) p).phase (!i) ≠ .ready →
    ∀ (c : Column) (b b' b'' : Booking), (Base.run (turn id ops) (begin st) p).st.bookings.find? id = some b →
      (Base.run (turn id ops) (begin st) (p ++ [i])).st.bookings.find? id = some b' →
      (Base.run (turn id ops) (begin st) (p ++ i :: (q ++ [!i]))).st.bookings.find? id = some b'' →
      c.Moved b b' → ¬ c.Same b b''

/-- A transition `e` makes from the stored row is one that the entity of `e'` makes a change to as well. The conflict
check of `e'` can come after the sweep. -/
def Compatible (id : Uuid) (st : Store) (e e' : Event) : Prop :=
  ∀ (c : Column) (b b' v : Booking), st.bookings.find? id = some b → (step st e).bookings.find? id = some b' →
    entity st (standing st e) e' = some v → c.Moved b b' → ¬ c.Same b v

section Race

variable {id : Uuid} {ops : Bool → Event} {st : Store} {s : Race} {i : Bool} {b : Booking} {c : Column} {e : Event}
  {ph : Phase}

/-! ### One turn -/

/-- The state `s'` after the next statement of operation `i`. -/
structure Acts (id : Uuid) (ops : Bool → Event) (s : Race) (i : Bool) (s' : Race) : Prop where
  st : s'.st = write id (ops i) (s.phase i) s.st
  self : s'.phase i = next id (ops i) (s.phase i) s.st
  other : s'.phase (!i) = s.phase (!i)

theorem acts_of_not_waits (h : s.waits ops i = false) : Acts id ops s i (turn id ops s i) := by
  unfold turn
  rw [h]
  refine ⟨rfl, ?_, ?_⟩
  · simp
  · cases i <;> simp

theorem acts_or_waits (id : Uuid) (ops : Bool → Event) (s : Race) (i : Bool) :
    Acts id ops s i (turn id ops s i) ∨ turn id ops s i = s := by
  cases h : s.waits ops i with
  | false => exact .inl (acts_of_not_waits h)
  | true => exact .inr (if_pos h)

theorem acts_of_unlocked (h : (s.phase (!i)).locked = []) : Acts id ops s i (turn id ops s i) :=
  acts_of_not_waits (by simp [Race.waits, h])

theorem turn_other (s : Race) (i : Bool) : (turn id ops s i).phase (!i) = s.phase (!i) := by
  rcases acts_or_waits id ops s i with h | h
  · exact h.other
  · rw [h]

theorem proper_begin (ops : Bool → Event) (st : Store) (k : Bool) : Proper (ops k) ((begin st).phase k) := trivial

theorem proper_turn (hops : ∀ i, OnBooking id (ops i)) (h : ∀ k, Proper (ops k) (s.phase k)) (i k : Bool) :
    Proper (ops k) ((turn id ops s i).phase k) := by
  rcases acts_or_waits id ops s i with ha | ha
  · rcases Bool.eq_or_eq_not k i with rfl | rfl
    · rw [ha.self]
      exact (h k).next (hops k)
    · rw [ha.other]
      exact h _
  · rw [ha]
    exact h k

theorem Alone.turn (h : Alone id st (ops i) (s.phase i) s.st) (he : OnBooking id (ops i))
    (hb : st.bookings.find? id = some b) :
    Alone id st (ops i) ((Concurrency.turn id ops s i).phase i) (Concurrency.turn id ops s i).st := by
  rcases acts_or_waits id ops s i with ha | ha
  · rw [ha.self, ha.st]
    exact h.step he hb
  · rw [ha]
    exact h

theorem Spent.turn (h : Spent id (s.phase i)) :
    Spent id ((Concurrency.turn id ops s i).phase i) ∧
      (Concurrency.turn id ops s i).st.bookings.find? id = s.st.bookings.find? id := by
  rcases acts_or_waits id ops s i with ha | ha
  · rw [ha.self, ha.st]
    exact ⟨h.next, h.row⟩
  · rw [ha]
    exact ⟨h, rfl⟩

theorem spent_of_turn (hp : Proper (ops i) (s.phase i))
    (hne : (turn id ops s i).st.bookings.find? id ≠ s.st.bookings.find? id) :
    Spent id ((turn id ops s i).phase i) := by
  rcases acts_or_waits id ops s i with ha | ha
  · rw [ha.st] at hne
    rw [ha.self]
    exact spent_of_changed hp hne
  · exact absurd (by rw [ha]) hne

theorem write_of_saves {s : Store} (hs : Saves e) (hp : Proper e ph) (h : ∀ ids v loaded, ph ≠ .reloaded ids v loaded) :
    write id e ph s = s := by
  cases ph with
  | ready => exact write_ready hs
  | reloaded ids v loaded => exact absurd rfl (h ids v loaded)
  | sweeping todo => exact absurd hp.1 hs.1
  | _ => rfl

theorem next_ne_ready (e : Event) (ph : Phase) (s : Store) : next id e ph s ≠ .ready := by
  cases ph with
  | ready =>
    dsimp only [next]
    split
    · simp
    · simp
    · split <;> simp
    · split <;> simp
  | admitted tenantId dto b slot =>
    dsimp only [next]
    split <;> simp
  | holding ids v =>
    dsimp only [next]
    split <;> simp
  | reloaded ids v loaded => simp [next]
  | sweeping todo => cases todo <;> simp [next]
  | done => simp [next]

/-! ### What the other operation has read -/

def Knows (id : Uuid) (st : Store) (checked : Table Booking) (e : Event) : Phase → Prop
  | .admitted tenantId dto b slot => Admits id st e tenantId dto b slot
  | .holding _ v | .reloaded _ v _ => entity st checked e = some v
  | _ => True

theorem Admits.congr {st' : Store} (h : st'.bookings.find? id = st.bookings.find? id) {tenantId : Uuid}
    {dto : UpdateBookingDto} {slot : Option Slot} (ha : Admits id st' e tenantId dto b slot) :
    Admits id st e tenantId dto b slot := by
  obtain ⟨userId, role, hop, hadm⟩ := ha
  refine ⟨userId, role, hop, ?_⟩
  have hfind : findBooking st'.bookings tenantId id = findBooking st.bookings tenantId id := congrArg _ h
  rw [← hadm, updateAdmit, updateAdmit, hfind]

theorem Knows.next {checked : Table Booking} {s : Store} (h : Knows id st checked e ph) (he : OnBooking id e)
    (hs : Saves e) (hcheck : Eases id s.bookings checked)
    (hrow : ph = .ready → s.bookings.find? id = st.bookings.find? id) :
    Knows id st checked e (Concurrency.next id e ph s) := by
  cases ph with
  | ready =>
    rcases next_ready he hs s with ⟨tenantId, dto, b, slot, hnext, hadm⟩ | ⟨v, hnext, hv⟩ | ⟨hnext, -⟩
    · rw [hnext]
      exact hadm.congr (hrow rfl)
    · rw [hnext]
      exact (entity_congr (hrow rfl) he checked).symm.trans (hv checked)
    · rw [hnext]
      trivial
  | admitted tenantId dto b slot =>
    rcases next_admitted h s with ⟨v, hnext, hv⟩ | ⟨hnext, -⟩
    · rw [hnext]
      exact hcheck.entity he hv
    · rw [hnext]
      trivial
  | holding ids v =>
    dsimp only [Concurrency.next]
    split
    · exact h
    · trivial
  | reloaded ids v loaded => trivial
  | sweeping todo => cases todo <;> trivial
  | done => trivial

/-- Nobody has written the row yet. -/
structure Before (id : Uuid) (ops : Bool → Event) (st : Store) (i : Bool) (s : Race) : Prop where
  alone : Alone id st (ops i) (s.phase i) s.st
  row : s.st.bookings.find? id = st.bookings.find? id
  knows : Knows id st (standing st (ops i)) (ops (!i)) (s.phase (!i))

theorem Before.self (h : Before id ops st i s) (he : OnBooking id (ops i)) (hb : st.bookings.find? id = some b)
    (hp : Proper (ops i) (s.phase i)) :
    Spent id ((turn id ops s i).phase i) ∨ Before id ops st i (turn id ops s i) := by
  by_cases hrow : (turn id ops s i).st.bookings.find? id = s.st.bookings.find? id
  · refine .inr ⟨h.alone.turn he hb, hrow.trans h.row, ?_⟩
    rw [turn_other]
    exact h.knows
  · exact .inl (spent_of_turn hp hrow)

theorem Before.other (h : Before id ops st i s) (he : OnBooking id (ops (!i))) (hs : Saves (ops (!i)))
    (hp : Proper (ops (!i)) (s.phase (!i))) :
    (turn id ops s (!i)).phase (!i) = .done ∨ Before id ops st i (turn id ops s (!i)) := by
  rcases acts_or_waits id ops s (!i) with ha | ha
  · by_cases hwrite : ∃ ids v loaded, s.phase (!i) = .reloaded ids v loaded
    · obtain ⟨ids, v, loaded, hph⟩ := hwrite
      rw [ha.self, hph]
      exact .inl rfl
    · have hst : (turn id ops s (!i)).st = s.st := by
        rw [ha.st]
        exact write_of_saves hs hp fun ids v loaded hph => hwrite ⟨ids, v, loaded, hph⟩
      have hother : (turn id ops s (!i)).phase i = s.phase i := by simpa using ha.other
      refine .inr ⟨?_, ?_, ?_⟩
      · rw [hother, hst]
        exact h.alone
      · rw [hst, h.row]
      · rw [ha.self]
        exact h.knows.next he hs h.alone.eases fun _ => h.row
  · rw [ha]
    exact .inr h

theorem proper_of_run (hops : ∀ i, OnBooking id (ops i)) (st : Store) (p : List Bool) (k : Bool) :
    Proper (ops k) ((Base.run (turn id ops) (begin st) p).phase k) :=
  run_invariant (I := fun s : Race => ∀ k, Proper (ops k) (s.phase k)) (C := fun _ _ => True)
    (fun _ j h _ => proper_turn hops h j) (proper_begin ops st) (allSteps_of_forall (fun _ _ => trivial) _ _) k

/-- All along a run: the other operation has come to its end, or this one has written the row, or nobody has. -/
theorem before_of_run (hops : ∀ i, OnBooking id (ops i)) (hb : st.bookings.find? id = some b) (hs : Saves (ops (!i)))
    (p : List Bool) :
    (Base.run (turn id ops) (begin st) p).phase (!i) = .done ∨
      Spent id ((Base.run (turn id ops) (begin st) p).phase i) ∨
      Before id ops st i (Base.run (turn id ops) (begin st) p) := by
  have hbegin : Before id ops st i (begin st) := ⟨rfl, rfl, trivial⟩
  refine run_invariant (I := fun s : Race => s.phase (!i) = .done ∨ Spent id (s.phase i) ∨ Before id ops st i s)
    (C := fun s _ => ∀ k, Proper (ops k) (s.phase k)) ?_ (.inr (.inr hbegin))
    (allSteps_iff.2 fun q _ _ _ => proper_of_run hops st q)
  intro s j h hp
  rcases Bool.eq_or_eq_not j i with rfl | rfl
  · rcases h with h | h | h
    · exact .inl (by rw [turn_other, h])
    · exact .inr (.inl h.turn.1)
    · exact .inr (h.self (hops j) hb (hp j))
  · have hother : (turn id ops s (!i)).phase i = s.phase i := by simpa using @turn_other id ops s (!i)
    rcases h with h | h | h
    · refine .inl ?_
      rcases acts_or_waits id ops s (!i) with ha | ha
      · rw [ha.self, h]
        rfl
      · rw [ha, h]
    · exact .inr (.inl (by rw [hother]; exact h))
    · rcases h.other (hops _) hs (hp _) with h | h
      · exact .inl h
      · exact .inr (.inr h)

/-! ### After the first write -/

/-- What the other operation can do to a transition from `b` to `b'` that was committed after it had read the row:
if its entity changes the column, the older value does not come back. -/
def Keeps (id : Uuid) (ops : Bool → Event) (st : Store) (c : Column) (b b' : Booking) (i : Bool) (s : Race) : Prop :=
  Spent id (s.phase i) ∧
    (s.phase (!i) = .done ∧ (∃ r, s.st.bookings.find? id = some r ∧ ¬ c.Same b r) ∨
      s.phase (!i) ≠ .ready ∧ Alone id st (ops i) (s.phase i) s.st ∧ s.st.bookings.find? id = some b' ∧
        Knows id st (standing st (ops i)) (ops (!i)) (s.phase (!i)))

theorem Keeps.row {b' : Booking} (h : Keeps id ops st c b b' i s) (hmoved : c.Moved b b') :
    ∃ r, s.st.bookings.find? id = some r ∧ ¬ c.Same b r := by
  rcases h.2 with ⟨-, h⟩ | ⟨-, -, h, -⟩
  · exact h
  · exact ⟨b', h, hmoved.1⟩

theorem Keeps.self {b₀ b' : Booking} (h : Keeps id ops st c b b' i s) (he : OnBooking id (ops i))
    (hb : st.bookings.find? id = some b₀) : Keeps id ops st c b b' i (turn id ops s i) := by
  obtain ⟨hspent, h⟩ := h
  obtain ⟨hspent', hrow⟩ := @Spent.turn id ops s i hspent
  refine ⟨hspent', ?_⟩
  rw [turn_other, hrow]
  rcases h with h | ⟨hread, halone, hb', hknows⟩
  · exact .inl h
  · exact .inr ⟨hread, halone.turn he hb, hb', hknows⟩

theorem not_same_writeDiff {b' v loaded : Booking} (hmoved : c.Moved b b') (hv : ¬ c.Same b v) :
    ¬ c.Same b (writeDiff v loaded b') := by
  intro hsame
  by_cases hlv : c.Same loaded v
  · exact hmoved.1 (hsame.trans (same_writeDiff_stored hlv).symm)
  · exact hv (hsame.trans (same_writeDiff_entity hlv).symm)

theorem Keeps.other {b' : Booking} (h : Keeps id ops st c b b' i s) (hmoved : c.Moved b b')
    (hcomp : ∀ v, entity st (standing st (ops i)) (ops (!i)) = some v → ¬ c.Same b v) (he : OnBooking id (ops (!i)))
    (hs : Saves (ops (!i))) (hp : Proper (ops (!i)) (s.phase (!i))) :
    Keeps id ops st c b b' i (turn id ops s (!i)) := by
  rcases acts_or_waits id ops s (!i) with ha | ha
  · have hother : (turn id ops s (!i)).phase i = s.phase i := by simpa using ha.other
    obtain ⟨hspent, h⟩ := h
    refine ⟨by rw [hother]; exact hspent, ?_⟩
    rw [ha.self, ha.st, hother]
    rcases h with ⟨hdone, h⟩ | ⟨hread, halone, hb', hknows⟩
    · rw [hdone]
      exact .inl ⟨rfl, h⟩
    · by_cases hwrite : ∃ ids v loaded, s.phase (!i) = .reloaded ids v loaded
      · obtain ⟨ids, v, loaded, hph⟩ := hwrite
        rw [hph] at hknows ⊢
        exact .inl ⟨rfl, _, write_reloaded hb', not_same_writeDiff hmoved (hcomp v hknows)⟩
      · rw [write_of_saves hs hp fun ids v loaded hph => hwrite ⟨ids, v, loaded, hph⟩]
        exact .inr ⟨next_ne_ready _ _ _, halone, hb', hknows.next he hs halone.eases fun hph => absurd hph hread⟩
  · rw [ha]
    exact h

/-- What the sweep and the kiosk can do to a transition: the sweep does not touch a row whose status has moved. -/
def Spares (id : Uuid) (c : Column) (b : Booking) (i : Bool) (s : Race) : Prop :=
  Spent id (s.phase i) ∧ (s.phase (!i) = .done ∨ ∃ todo, s.phase (!i) = .sweeping todo) ∧
    ∃ r, s.st.bookings.find? id = some r ∧ c.Moved b r

theorem moved_sweep {t : Table Booking} {b' x : Booking} (hmoved : c.Moved b b') (hrow : t.find? id = some b') :
    ∃ r, (sweep e t x).find? id = some r ∧ c.Moved b r := by
  unfold sweep
  split
  · rw [find?_release, hrow]
    refine ⟨_, rfl, ?_⟩
    dsimp only
    split
    · rename_i hx
      cases c with
      | status =>
        have hset := hmoved.2 rfl
        rw [hx.2.1] at hset
        simp at hset
      | resourceId => exact ⟨hmoved.1, by simp⟩
      | startTime => exact ⟨hmoved.1, by simp⟩
      | endTime => exact ⟨hmoved.1, by simp⟩
    · exact hmoved
  · exact ⟨b', hrow, hmoved⟩

theorem Spares.turn (h : Spares id c b i s) (j : Bool) : Spares id c b i (Concurrency.turn id ops s j) := by
  obtain ⟨hspent, hph, r, hr, hmoved⟩ := h
  rcases Bool.eq_or_eq_not j i with rfl | rfl
  · obtain ⟨hspent', hrow⟩ := @Spent.turn id ops s j hspent
    exact ⟨hspent', by rw [turn_other]; exact hph, r, by rw [hrow, hr], hmoved⟩
  rcases acts_or_waits id ops s (!i) with ha | ha
  · have hother : (Concurrency.turn id ops s (!i)).phase i = s.phase i := by simpa using ha.other
    refine ⟨by rw [hother]; exact hspent, ?_⟩
    rw [ha.self, ha.st]
    rcases hph with hph | ⟨todo, hph⟩
    · rw [hph]
      exact ⟨.inl rfl, r, hr, hmoved⟩
    · rw [hph]
      cases todo with
      | nil => exact ⟨.inl rfl, r, hr, hmoved⟩
      | cons x todo => exact ⟨.inr ⟨todo, rfl⟩, moved_sweep hmoved hr⟩
  · rw [ha]
    exact ⟨hspent, hph, r, hr, hmoved⟩

/-! ### Every interleaving -/

theorem Column.Moved.ne {b' : Booking} (h : c.Moved b b') : b' ≠ b := by
  rintro rfl
  exact h.1 (by cases c <;> rfl)

theorem Proper.begun (h : Proper e ph) (hph : ph ≠ .ready) : (ph = .done ∨ ∃ todo, ph = .sweeping todo) ∨ Saves e := by
  cases ph with
  | ready => exact absurd rfl hph
  | sweeping todo => exact .inl (.inr ⟨todo, rfl⟩)
  | done => exact .inl (.inl rfl)
  | _ => exact .inr h

theorem no_lost_of_compatible (hops : ∀ i, OnBooking id (ops i)) (hb : st.bookings.find? id = some b)
    (hcomp : ∀ i, Compatible id st (ops i) (ops (!i))) (schedule : List Bool) :
    NoLostTransition id ops st schedule := by
  intro p q r i hsplit hread c b₁ b₂ b₃ h1 h2 h3 hmoved
  have hproper := proper_of_run hops st p
  have hbefore := fun hs : Saves (ops (!i)) => before_of_run hops hb hs p
  rw [run_append] at h2 h3
  generalize Base.run (turn id ops) (begin st) p = s at hread h1 h2 h3 hproper hbefore
  rw [run_cons, run_nil] at h2
  rw [run_cons] at h3
  have hne : (turn id ops s i).st.bookings.find? id ≠ s.st.bookings.find? id := by
    rw [h1, h2]
    simpa using hmoved.ne
  have hspent := spent_of_turn (hproper i) hne
  -- the row after the turns of `q ++ [!i]` is not the one before the transition
  suffices hrow : ∃ r', (Base.run (turn id ops) (turn id ops s i) (q ++ [!i])).st.bookings.find? id = some r' ∧
      ¬ c.Same b₁ r' by
    obtain ⟨r', hr', hns⟩ := hrow
    rw [h3, Option.some.injEq] at hr'
    rw [hr']
    exact hns
  by_cases hph : s.phase (!i) = .done ∨ ∃ todo, s.phase (!i) = .sweeping todo
  · have hspares : Spares id c b₁ i (turn id ops s i) := ⟨hspent, by rw [turn_other]; exact hph, b₂, h2, hmoved⟩
    have hend : Spares id c b₁ i (Base.run (turn id ops) (turn id ops s i) (q ++ [!i])) :=
      run_invariant (C := fun _ _ => True) (fun _ j h _ => h.turn j) hspares
        (allSteps_of_forall (fun _ _ => trivial) _ _)
    obtain ⟨-, -, r', hr', hmoved'⟩ := hend
    exact ⟨r', hr', hmoved'.1⟩
  · have hs : Saves (ops (!i)) := ((hproper (!i)).begun hread).resolve_left hph
    obtain hd | hsp | hfresh := hbefore hs
    · exact absurd (.inl hd) hph
    · exact absurd hsp.turn.2 hne
    have halone := hfresh.alone.turn (hops i) hb
    have hkeeps : Keeps id ops st c b₁ b₂ i (turn id ops s i) := by
      refine ⟨hspent, .inr ?_⟩
      rw [turn_other]
      exact ⟨hread, halone, h2, hfresh.knows⟩
    have hchange : ∀ v, entity st (standing st (ops i)) (ops (!i)) = some v → ¬ c.Same b₁ v := by
      intro v hv
      refine hcomp i c b₁ b₂ v ?_ ?_ hv hmoved
      · rw [← hfresh.row, h1]
      · rw [← halone.row_of_spent hspent, h2]
    have hstep : ∀ (s' : Race) (j : Bool), (∀ k, Proper (ops k) (s'.phase k)) ∧ Keeps id ops st c b₁ b₂ i s' → True →
        (∀ k, Proper (ops k) ((turn id ops s' j).phase k)) ∧ Keeps id ops st c b₁ b₂ i (turn id ops s' j) := by
      rintro s' j ⟨hp', hk⟩ -
      refine ⟨proper_turn hops hp' j, ?_⟩
      rcases Bool.eq_or_eq_not j i with rfl | rfl
      · exact hk.self (hops j) hb
      · exact hk.other hmoved hchange (hops _) hs (hp' _)
    have hend := run_invariant hstep ⟨proper_turn hops hproper i, hkeeps⟩
      (allSteps_of_forall (fun _ _ => trivial) _ (q ++ [!i]))
    exact hend.2.row hmoved

/-! ### A transition that is lost -/

def Phase.left : Phase → ℕ
  | .admitted .. => 3
  | .holding .. => 2
  | .reloaded .. => 1
  | .sweeping todo => todo.length + 1
  | _ => 0

theorem left_next {s : Store} (h : ph ≠ .ready) (h' : ph ≠ .done) : (next id e ph s).left < ph.left := by
  cases ph with
  | ready => exact absurd rfl h
  | admitted tenantId dto b slot =>
    dsimp only [next]
    split <;> simp [Phase.left]
  | holding ids v =>
    dsimp only [next]
    split <;> simp [Phase.left]
  | reloaded ids v loaded => simp [next, Phase.left]
  | sweeping todo => cases todo <;> simp [next, Phase.left]
  | done => exact absurd rfl h'

/-- Turns of operation `i` only. -/
theorem alone_of_turns (he : OnBooking id (ops i)) (hb : st.bookings.find? id = some b)
    (halone : Alone id st (ops i) (s.phase i) s.st) (n : ℕ) :
    Alone id st (ops i) ((Base.run (turn id ops) s (List.replicate n i)).phase i)
        (Base.run (turn id ops) s (List.replicate n i)).st ∧
      (Base.run (turn id ops) s (List.replicate n i)).phase (!i) = s.phase (!i) := by
  induction n generalizing s with
  | zero => exact ⟨halone, rfl⟩
  | succ n ih =>
    rw [List.replicate_succ, run_cons]
    have := @ih (turn id ops s i) (halone.turn he hb)
    rwa [turn_other] at this

theorem finishes (hun : (s.phase (!i)).locked = []) :
    ∃ n, (Base.run (turn id ops) s (List.replicate n i)).phase i = .done := by
  have hbegun : ∀ m, ∀ s : Race, (s.phase (!i)).locked = [] → s.phase i ≠ .ready → (s.phase i).left ≤ m →
      ∃ n, (Base.run (turn id ops) s (List.replicate n i)).phase i = .done := by
    intro m
    induction m with
    | zero =>
      intro s _ hr hm
      refine ⟨0, ?_⟩
      by_contra hd
      have := @left_next id (ops i) _ s.st hr hd
      omega
    | succ m ih =>
      intro s hun hr hm
      by_cases hd : s.phase i = .done
      · exact ⟨0, hd⟩
      · have ha := @acts_of_unlocked id ops s i hun
        have hlt := @left_next id (ops i) _ s.st hr hd
        obtain ⟨n, hn⟩ := ih (turn id ops s i) (by rw [ha.other, hun]) (by rw [ha.self]; exact next_ne_ready _ _ _)
          (by rw [ha.self]; omega)
        exact ⟨n + 1, hn⟩
  have ha := @acts_of_unlocked id ops s i hun
  obtain ⟨n, hn⟩ := hbegun _ (turn id ops s i) (by rw [ha.other, hun]) (by rw [ha.self]; exact next_ne_ready _ _ _)
    le_rfl
  exact ⟨n + 1, hn⟩

theorem spent_of_turns (h : Spent id (s.phase i)) (n : ℕ) :
    (Base.run (turn id ops) s (List.replicate n i)).st.bookings.find? id = s.st.bookings.find? id := by
  induction n generalizing s with
  | zero => rfl
  | succ n ih =>
    obtain ⟨hspent, hrow⟩ := @Spent.turn id ops s i h
    rw [List.replicate_succ, run_cons, ih hspent, hrow]

/-- Among the turns of an operation that changes the row there is one that does so. -/
theorem exists_write {b' : Booking} (hops : ∀ i, OnBooking id (ops i)) (hne : b' ≠ b) {n : ℕ}
    (hp : ∀ k, Proper (ops k) (s.phase k)) (hb : s.st.bookings.find? id = some b)
    (hb' : (Base.run (turn id ops) s (List.replicate n i)).st.bookings.find? id = some b') :
    ∃ m q, List.replicate n i = List.replicate m i ++ i :: q ∧
      (Base.run (turn id ops) s (List.replicate m i)).st.bookings.find? id = some b ∧
      (turn id ops (Base.run (turn id ops) s (List.replicate m i)) i).st.bookings.find? id = some b' := by
  induction n generalizing s with
  | zero =>
    rw [List.replicate_zero, run_nil, hb, Option.some.injEq] at hb'
    exact absurd hb'.symm hne
  | succ n ih =>
    rw [List.replicate_succ, run_cons] at hb'
    by_cases hsame : (turn id ops s i).st.bookings.find? id = s.st.bookings.find? id
    · obtain ⟨m, q, hq, hbefore, hafter⟩ := ih (proper_turn hops hp i) (hsame.trans hb) hb'
      refine ⟨m + 1, q, ?_, hbefore, hafter⟩
      rw [List.replicate_succ, List.replicate_succ, hq]
      rfl
    · rw [spent_of_turns (spent_of_turn (hp i) hsame)] at hb'
      exact ⟨0, List.replicate n i, rfl, hb, hb'⟩

/-- A save that nobody comes between, up to its `UPDATE`. -/
theorem save_of_turns {ids : List Uuid} {v b' : Booking} (hun : (s.phase (!i)).locked = [])
    (hph : s.phase i = .holding ids v) (hid : v.id = id) (hrow : s.st.bookings.find? id = some b') :
    (Base.run (turn id ops) s [i, i]).st.bookings.find? id = some v := by
  have ha := @acts_of_unlocked id ops s i hun
  have ha' := @acts_of_unlocked id ops (turn id ops s i) i (by rw [ha.other, hun])
  have hst : (turn id ops s i).st = s.st := by rw [ha.st, hph]; rfl
  have hrow' : (turn id ops s i).st.bookings.find? id = some b' := by rw [hst, hrow]
  show (turn id ops (turn id ops s i) i).st.bookings.find? id = some v
  rw [ha'.st, ha.self, hph, next_holding hrow, write_reloaded hrow', writeDiff_self]
  exact hid.trans (Table.key_of_find? hrow).symm

/-- The rest of an operation that has read the row, when nobody comes between: its entity is the row in the end. -/
theorem entity_of_turns {v b' : Booking} (he : OnBooking id (ops i)) (hun : (s.phase (!i)).locked = [])
    (hph : s.phase i = .holding [] v ∨
      ∃ tenantId dto b slot, s.phase i = .admitted tenantId dto b slot ∧ Admits id st (ops i) tenantId dto b slot)
    (hv : entity st s.st.bookings (ops i) = some v) (hrow : s.st.bookings.find? id = some b') :
    ∃ m, (Base.run (turn id ops) s (List.replicate m i ++ [i])).st.bookings.find? id = some v := by
  have hid := id_of_entity he hv
  rcases hph with hph | ⟨tenantId, dto, b, slot, hph, hadm⟩
  · exact ⟨1, save_of_turns hun hph hid hrow⟩
  · have ha := @acts_of_unlocked id ops s i hun
    have hst : (turn id ops s i).st = s.st := by rw [ha.st, hph]; rfl
    have hhold : ∃ ids, (turn id ops s i).phase i = .holding ids v := by
      rw [ha.self, hph]
      rcases next_admitted hadm s.st with ⟨v', hnext, hv'⟩ | ⟨-, hnone⟩
      · obtain rfl := Option.some.inj (hv.symm.trans hv')
        exact ⟨_, hnext⟩
      · rw [hv] at hnone
        cases hnone
    obtain ⟨ids, hhold⟩ := hhold
    exact ⟨2, save_of_turns (by rw [ha.other, hun]) hhold hid (by rw [hst, hrow])⟩

/-- The other operation reads, this one runs to its end, and then the other one goes on: it must change the column. -/
theorem compatible_of_no_lost (hops : ∀ i, OnBooking id (ops i))
    (h : ∀ schedule, NoLostTransition id ops st schedule) (i : Bool) : Compatible id st (ops i) (ops (!i)) := by
  intro c b b' v hb hb' hv hmoved hsame
  have hs := saves_of_entity hv
  -- the other one reads
  have ha := @acts_of_unlocked id ops (begin st) (!i) rfl
  generalize hs₁ : turn id ops (begin st) (!i) = s₁ at ha
  have hst₁ : s₁.st = st := ha.st.trans (write_ready hs)
  have hready : s₁.phase i = .ready := by
    have := ha.other
    rwa [Bool.not_not] at this
  have hph₁ : s₁.phase (!i) = .holding [] v ∨ ∃ tenantId dto b slot,
      s₁.phase (!i) = .admitted tenantId dto b slot ∧ Admits id st (ops (!i)) tenantId dto b slot := by
    rw [ha.self]
    rcases next_ready (hops (!i)) hs st with ⟨tenantId, dto, b₁, slot, hnext, hadm⟩ | ⟨v', hnext, hv'⟩ | ⟨-, hnone⟩
    · exact .inr ⟨tenantId, dto, b₁, slot, hnext, hadm⟩
    · obtain rfl := Option.some.inj (hv.symm.trans (hv' _))
      exact .inl hnext
    · rw [hnone] at hv
      cases hv
  have hun : (s₁.phase (!i)).locked = [] := by
    rcases hph₁ with hph | ⟨tenantId, dto, b₁, slot, hph, -⟩
    · rw [hph]; rfl
    · rw [hph]; rfl
  have hread : s₁.phase (!i) ≠ .ready := by
    rw [ha.self]
    exact next_ne_ready _ _ _
  -- this one runs to its end
  have halone : Alone id st (ops i) (s₁.phase i) s₁.st := by
    rw [hready]
    exact hst₁
  obtain ⟨n, hdone⟩ := @finishes id ops s₁ i hun
  obtain ⟨hend, hother⟩ := alone_of_turns (hops i) hb halone n
  rw [hdone] at hend
  have hrow := hend.1.trans hb'
  obtain ⟨m, q, hq, hbefore, hafter⟩ := exists_write hops hmoved.ne
    (hs₁ ▸ proper_turn hops (proper_begin ops st) (!i)) (by rw [hst₁, hb]) hrow
  -- and then the other one goes on
  obtain ⟨k, hlost⟩ := @entity_of_turns id ops st (Base.run (turn id ops) s₁ (List.replicate n i)) (!i) v b'
    (hops (!i)) (by rw [Bool.not_not, hdone]; rfl) (by rw [hother]; exact hph₁) (hend.2.1.entity (hops (!i)) hv) hrow
  refine h _ ((!i) :: List.replicate m i) (q ++ List.replicate k (!i)) [] i rfl ?_ c b b' v ?_ ?_ ?_ hmoved hsame
  · rw [run_cons, hs₁, (alone_of_turns (hops i) hb halone m).2]
    exact hread
  · rw [run_cons, hs₁, hbefore]
  · rw [List.cons_append, run_cons, hs₁, run_append]
    exact hafter
  · have hsched : (!i) :: List.replicate m i ++ i :: (q ++ List.replicate k (!i) ++ [!i]) =
        (!i) :: (List.replicate n i ++ (List.replicate k (!i) ++ [!i])) := by
      rw [hq]
      simp
    rw [hsched, run_cons, hs₁, run_append]
    exact hlost

/-- **Every interleaving.** No interleaving of two operations on a booking loses a transition of its row, if and only
if each of them that saves an entity changes the columns the other one moves. -/
theorem no_lost_iff_compatible (hops : ∀ i, OnBooking id (ops i)) (hb : st.bookings.find? id = some b) :
    (∀ schedule, NoLostTransition id ops st schedule) ↔ ∀ i, Compatible id st (ops i) (ops (!i)) :=
  ⟨compatible_of_no_lost hops, no_lost_of_compatible hops hb⟩

end Race

end BookingSystem.Concurrency
