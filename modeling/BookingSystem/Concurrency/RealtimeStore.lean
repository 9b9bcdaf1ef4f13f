import BookingSystem.Base.Run
import Mathlib.Data.List.Dedup
import Mathlib.Data.List.Induction
import Mathlib.Data.List.Nodup
import Mathlib.Data.List.Perm.Subperm

/-!
# The event store of the web client

`useRealtimeStore` keeps the last 50 events, and passes over an event whose id it has among the last 500 that it has
applied: a reconnect replays a tail of events that may have come before. Between two applications of one id there are
therefore 500 others at least (`applied_apart`); and while there are no more than 500 ids in all, an event is passed
over if and only if it has come before (`push_eq_self_iff`).
-/

namespace BookingSystem.Concurrency.RealtimeStore

open Base

/-! ### The last ones of a list -/

section Latest

variable {α : Type}

/-- The last elements of a list, up to a number. -/
def latest (n : ℕ) (l : List α) : List α := l.drop (l.length - n)

theorem latest_of_length_le {n : ℕ} {l : List α} (h : l.length ≤ n) : latest n l = l := by
  rw [latest, Nat.sub_eq_zero_of_le h, List.drop_zero]

theorem latest_latest_append (n : ℕ) (l : List α) (x : α) : latest n (latest n l ++ [x]) = latest n (l ++ [x]) := by
  unfold latest
  by_cases h : l.length ≤ n
  · rw [Nat.sub_eq_zero_of_le h, List.drop_zero]
  · have hkept : (l.drop (l.length - n)).length = n := by
      rw [List.length_drop]
      omega
    have hcut : l.length - n + (n + 1 - n) = l.length + 1 - n := by omega
    have hlast : l.length + 1 - n - l.length = n + 1 - n - n := by omega
    rw [List.length_append, List.length_append, List.length_singleton, hkept, List.drop_append, List.drop_append, hkept,
      List.drop_drop, hcut, hlast]

/-- Equal elements of the list have `n` others between them. -/
def Apart (n : ℕ) (l : List α) : Prop := ∀ p x q r, l = p ++ x :: (q ++ x :: r) → n ≤ q.length

theorem Apart.nil (n : ℕ) : Apart n ([] : List α) := fun p x q r heq => by cases p <;> cases heq

theorem Apart.append {n : ℕ} {l : List α} {x : α} (h : Apart n l) (hx : x ∉ latest n l) : Apart n (l ++ [x]) := by
  intro p y q r heq
  rcases List.eq_nil_or_concat r with rfl | ⟨r, z, rfl⟩
  · -- the second one is the new one
    have hcut : l ++ [x] = (p ++ y :: q) ++ [y] := by rw [heq]; simp
    obtain ⟨rfl, hlast⟩ := List.append_inj' hcut rfl
    obtain rfl := List.head_eq_of_cons_eq hlast
    by_contra hfew
    refine hx ?_
    rw [latest, List.length_append, List.length_cons, List.drop_append]
    refine List.mem_append_right _ ?_
    have hzero : p.length + (q.length + 1) - n - p.length = 0 := by omega
    rw [hzero, List.drop_zero]
    exact List.mem_cons_self
  · have hcut : l ++ [x] = (p ++ y :: (q ++ y :: r)) ++ [z] := by rw [heq]; simp
    exact h p y q r (List.append_inj' hcut rfl).1

end Latest

/-! ### The store -/

/-- `RealtimeEvent`; the store reads nothing but the id. -/
structure RealtimeEvent (π : Type) where
  id : Option String
  body : π

variable {π : Type}

/-- The id, if there is one: an empty text is none. -/
def RealtimeEvent.key (ev : RealtimeEvent π) : Option String := ev.id.filter fun id => !id.isEmpty

def maxEvents : ℕ := 50

def maxSeenIds : ℕ := 500

/-- `RealtimeState`, the set `seenIds` in the order in which it was filled. -/
structure RealtimeState (π : Type) where
  events : List (RealtimeEvent π) := []
  lastEvent : Option (RealtimeEvent π) := none
  seenIds : List String := []
  connected : Bool := true
  reconnectNonce : ℕ := 0

namespace RealtimeState

def push (ev : RealtimeEvent π) (s : RealtimeState π) : RealtimeState π :=
  match ev.key with
  | some id =>
    if id ∈ s.seenIds then s
    else { s with events := (ev :: s.events).take maxEvents, lastEvent := some ev,
                  seenIds := latest maxSeenIds (s.seenIds ++ [id]) }
  | none => { s with events := (ev :: s.events).take maxEvents, lastEvent := some ev }

def clear (s : RealtimeState π) : RealtimeState π := { s with events := [], lastEvent := none, seenIds := [] }

end RealtimeState

/-- `push`, `setConnected`, `markReconnect` and `clear`. -/
inductive Act (π : Type)
  | push (ev : RealtimeEvent π)
  | setConnected (connected : Bool)
  | markReconnect
  | clear

def step (s : RealtimeState π) : Act π → RealtimeState π
  | .push ev => s.push ev
  | .setConnected connected => { s with connected }
  | .markReconnect => { s with reconnectNonce := s.reconnectNonce + 1 }
  | .clear => s.clear

/-! ### What was applied -/

/-- An event that the store passes over. -/
def Skipped (s : RealtimeState π) (ev : RealtimeEvent π) : Prop := ∃ id, ev.key = some id ∧ id ∈ s.seenIds

instance (s : RealtimeState π) (ev : RealtimeEvent π) : Decidable (Skipped s ev) :=
  match h : ev.key with
  | some id => decidable_of_iff (id ∈ s.seenIds) ⟨fun hid => ⟨id, h, hid⟩, fun ⟨_, hid, hmem⟩ => by
      rwa [Option.some.inj (h.symm.trans hid)]⟩
  | none => isFalse fun ⟨_, hid, _⟩ => nomatch h.symm.trans hid

/-- The store with the events that it has applied since it was cleared. -/
structure Watched (π : Type) where
  store : RealtimeState π := {}
  applied : List (RealtimeEvent π) := []

def watch (w : Watched π) (a : Act π) : Watched π where
  store := step w.store a
  applied :=
    match a with
    | .push ev => if Skipped w.store ev then w.applied else w.applied ++ [ev]
    | .clear => []
    | _ => w.applied

def start : Watched π := {}

def keys (evs : List (RealtimeEvent π)) : List String := evs.filterMap RealtimeEvent.key

structure Inv (w : Watched π) : Prop where
  events : w.store.events = w.applied.reverse.take maxEvents
  last : w.store.lastEvent = w.applied.getLast?
  seen : w.store.seenIds = latest maxSeenIds (keys w.applied)
  apart : Apart maxSeenIds (keys w.applied)

section

variable {w : Watched π} {ev : RealtimeEvent π}

theorem keys_append (evs : List (RealtimeEvent π)) (ev : RealtimeEvent π) :
    keys (evs ++ [ev]) = keys evs ++ ev.key.toList := by
  rw [keys, List.filterMap_append, keys]
  cases hkey : ev.key <;> simp [hkey]

theorem push_of_skipped {s : RealtimeState π} (h : Skipped s ev) : s.push ev = s := by
  obtain ⟨id, hkey, hmem⟩ := h
  simp only [RealtimeState.push, hkey, if_pos hmem]

theorem push_of_not_skipped {s : RealtimeState π} (h : ¬ Skipped s ev) :
    (s.push ev).events = (ev :: s.events).take maxEvents ∧ (s.push ev).lastEvent = some ev ∧
      (s.push ev).seenIds = match ev.key with
        | some id => latest maxSeenIds (s.seenIds ++ [id])
        | none => s.seenIds := by
  cases hkey : ev.key with
  | none => simp only [RealtimeState.push, hkey, and_self]
  | some id =>
    have hid : id ∉ s.seenIds := fun hmem => h ⟨id, hkey, hmem⟩
    simp only [RealtimeState.push, hkey, if_neg hid, and_self]

theorem inv_push (h : Inv w) (ev : RealtimeEvent π) : Inv (watch w (.push ev)) := by
  by_cases hskip : Skipped w.store ev
  · simp only [watch, step, push_of_skipped hskip, if_pos hskip]
    exact h
  · obtain ⟨hevents, hlast, hseen⟩ := push_of_not_skipped hskip
    simp only [watch, step, if_neg hskip]
    refine ⟨?_, ?_, ?_, ?_⟩
    · dsimp only
      rw [hevents, h.events, List.reverse_append, List.reverse_singleton, List.singleton_append, maxEvents,
        List.take_succ_cons, List.take_succ_cons, List.take_take]
      rfl
    · dsimp only
      rw [hlast, List.getLast?_append, List.getLast?_singleton]
      rfl
    · dsimp only
      rw [hseen, keys_append, h.seen]
      cases ev.key with
      | none => rw [Option.toList_none, List.append_nil]
      | some id => exact latest_latest_append ..
    · dsimp only
      rw [keys_append]
      cases hkey : ev.key with
      | none =>
        rw [Option.toList_none, List.append_nil]
        exact h.apart
      | some id => exact h.apart.append fun hmem => hskip ⟨id, hkey, h.seen ▸ hmem⟩

theorem inv_watch (h : Inv w) (a : Act π) : Inv (watch w a) := by
  cases a with
  | push ev => exact inv_push h ev
  | setConnected connected => exact ⟨h.events, h.last, h.seen, h.apart⟩
  | markReconnect => exact ⟨h.events, h.last, h.seen, h.apart⟩
  | clear => exact ⟨rfl, rfl, (latest_of_length_le (Nat.zero_le _)).symm, .nil _⟩

theorem inv_run (acts : List (Act π)) : Inv (run watch (start : Watched π) acts) :=
  foldl_invariant (P := Inv) (fun _ a _ hw => inv_watch hw a)
    ⟨rfl, rfl, (latest_of_length_le (Nat.zero_le _)).symm, .nil _⟩

end

/-- **The feed of a page** is the last 50 events that were applied, the newest first; and between two applications of
one id 500 others were applied. -/
theorem applied_apart (acts : List (Act π)) :
    (run watch (start : Watched π) acts).store.events =
        (run watch (start : Watched π) acts).applied.reverse.take maxEvents ∧
      Apart maxSeenIds (keys (run watch (start : Watched π) acts).applied) :=
  ⟨(inv_run acts).events, (inv_run acts).apart⟩

/-! ### Few ids -/

/-- The store after a number of messages. -/
def received (evs : List (RealtimeEvent π)) : Watched π := run watch start (evs.map Act.push)

theorem received_append (evs : List (RealtimeEvent π)) (ev : RealtimeEvent π) :
    received (evs ++ [ev]) = watch (received evs) (.push ev) := by
  rw [received, List.map_append, run_append]
  rfl

theorem mem_keys_append {evs : List (RealtimeEvent π)} {ev : RealtimeEvent π} {id : String} :
    id ∈ keys (evs ++ [ev]) ↔ id ∈ keys evs ∨ ev.key = some id := by
  rw [keys_append, List.mem_append, Option.mem_toList]

theorem seen_received {evs : List (RealtimeEvent π)} (h : (keys evs).dedup.length ≤ maxSeenIds) :
    (received evs).store.seenIds = keys (received evs).applied ∧ (keys (received evs).applied).Nodup ∧
      ∀ id, id ∈ keys (received evs).applied ↔ id ∈ keys evs := by
  induction evs using List.reverseRecOn with
  | nil => exact ⟨rfl, List.nodup_nil, fun id => Iff.rfl⟩
  | append_singleton evs ev ih =>
    have hfew : (keys evs).dedup.length ≤ maxSeenIds := by
      refine Nat.le_trans ((List.nodup_dedup _).subperm fun id hid => ?_).length_le h
      rw [List.mem_dedup] at hid ⊢
      exact mem_keys_append.2 (.inl hid)
    obtain ⟨hseen, hnodup, hmem⟩ := ih hfew
    rw [received_append]
    by_cases hskip : Skipped (received evs).store ev
    · simp only [watch, step, push_of_skipped hskip, if_pos hskip]
      refine ⟨hseen, hnodup, fun id => (hmem id).trans ⟨fun hid => mem_keys_append.2 (.inl hid), fun hid => ?_⟩⟩
      obtain hid | hid := mem_keys_append.1 hid
      · exact hid
      · obtain ⟨id', hkey, hid'⟩ := hskip
        obtain rfl := Option.some.inj (hkey.symm.trans hid)
        exact (hmem id').1 (hseen ▸ hid')
    · simp only [watch, step, if_neg hskip]
      have hall : ∀ id, id ∈ keys ((received evs).applied ++ [ev]) ↔ id ∈ keys (evs ++ [ev]) := fun id => by
        rw [mem_keys_append, mem_keys_append, hmem]
      have hnodup' : (keys ((received evs).applied ++ [ev])).Nodup := by
        rw [keys_append]
        cases hkey : ev.key with
        | none => simpa using hnodup
        | some id =>
          refine List.nodup_append.2 ⟨hnodup, List.nodup_singleton id, fun a ha b hb => ?_⟩
          obtain rfl := List.mem_singleton.1 hb
          rintro rfl
          exact hskip ⟨a, hkey, hseen ▸ ha⟩
      refine ⟨?_, hnodup', hall⟩
      have hfits : (keys ((received evs).applied ++ [ev])).length ≤ maxSeenIds := by
        refine Nat.le_trans (hnodup'.subperm fun id hid => ?_).length_le h
        exact List.mem_dedup.2 ((hall id).1 hid)
      have hinv : Inv (watch (received evs) (.push ev)) := by
        rw [← received_append]
        exact inv_run _
      have hlatest := hinv.seen
      simp only [watch, step, if_neg hskip] at hlatest
      rw [hlatest, latest_of_length_le hfits]

theorem skipped_received {evs : List (RealtimeEvent π)} (ev : RealtimeEvent π)
    (h : (keys evs).dedup.length ≤ maxSeenIds) :
    Skipped (received evs).store ev ↔ ∃ id ∈ keys evs, ev.key = some id := by
  obtain ⟨hseen, -, hmem⟩ := seen_received h
  constructor
  · rintro ⟨id, hkey, hid⟩
    exact ⟨id, (hmem id).1 (hseen ▸ hid), hkey⟩
  · rintro ⟨id, hid, hkey⟩
    exact ⟨id, hkey, hseen ▸ (hmem id).2 hid⟩

/-- **No event twice, and none lost.** While there are no more than 500 ids in all, an event is passed over if and only
if it has come before: then the store stays as it is, and otherwise the event is the first of its feed. -/
theorem push_eq_self_iff {evs : List (RealtimeEvent π)} (ev : RealtimeEvent π)
    (h : (keys evs).dedup.length ≤ maxSeenIds) :
    ((received (evs ++ [ev])).applied = (received evs).applied ↔ ∃ id ∈ keys evs, ev.key = some id) ∧
      ((∃ id ∈ keys evs, ev.key = some id) → (received (evs ++ [ev])).store = (received evs).store) ∧
      ((¬ ∃ id ∈ keys evs, ev.key = some id) →
        (received (evs ++ [ev])).store.events = (ev :: (received evs).store.events).take maxEvents ∧
          (received (evs ++ [ev])).store.lastEvent = some ev) := by
  rw [← skipped_received ev h, received_append]
  refine ⟨?_, fun hskip => push_of_skipped hskip, fun hnew => ?_⟩
  · by_cases hskip : Skipped (received evs).store ev
    · simp only [watch, if_pos hskip]
      exact iff_of_true trivial hskip
    · simp only [watch, if_neg hskip]
      refine iff_of_false (fun heq => ?_) hskip
      have hlength := congrArg List.length heq
      simp at hlength
  · obtain ⟨hevents, hlast, -⟩ := push_of_not_skipped hnew
    exact ⟨hevents, hlast⟩

/-- An event comes again after a reconnect, and then a new one. -/
theorem push_eq_self_replayed :
    (received ([⟨some "8", 1⟩, ⟨some "9", 2⟩] ++ [⟨some "8", 1⟩] : List (RealtimeEvent ℕ))).store =
        (received [⟨some "8", 1⟩, ⟨some "9", 2⟩]).store ∧
      (received ([⟨some "8", 1⟩, ⟨some "9", 2⟩] ++ [⟨some "10", 3⟩] : List (RealtimeEvent ℕ))).store.lastEvent =
        some ⟨some "10", 3⟩ :=
  ⟨(push_eq_self_iff ⟨some "8", 1⟩ (by decide)).2.1 ⟨"8", by decide, by decide⟩,
    ((push_eq_self_iff ⟨some "10", 3⟩ (by decide)).2.2 (by decide)).2⟩

end BookingSystem.Concurrency.RealtimeStore
