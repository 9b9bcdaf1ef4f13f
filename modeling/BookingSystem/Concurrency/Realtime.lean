import BookingSystem.Base.Run
import BookingSystem.Model.Entities
import Mathlib.Data.List.Perm.Basic
import Mathlib.Logic.Function.Basic

/-!
# The hub of the WebSocket clients

`Broadcast` holds the read lock while it offers an event to the clients of the tenant one by one, and never waits: a
client whose channel is full is marked stale and misses the event. Two goroutines serve a client. `writePump` takes
events from the channel and writes them to the connection, and stops after the first write that finds the client stale;
`readPump` waits for the connection to fail, takes the client out of the hub under the lock, and closes the channel.
These steps come in any order that the lock allows. Nothing is ever sent on a closed channel and no channel is closed
twice (`never_panics`), and what a client gets are the events of its tenant in the order in which they were offered,
without a gap (`delivered_in_order`).
-/

namespace BookingSystem.Concurrency.Realtime

open Base
open Model (Uuid)

/-- `Event`: the tenant decides who gets it, and the other fields are written as they are. -/
structure Event (π : Type) where
  tenantID : Uuid
  body : π

def sendBuffer : ℕ := 32

/-- Where `writePump` stands: at its `select`, with an event to write, after the write, or returned. -/
inductive Writer (π : Type)
  | waiting
  | writing (ev : Event π)
  | checking
  | done

/-- Where `readPump` stands: at `ReadMessage`, in `unregister` after the lock, after the channel is closed, or
returned. -/
inductive Reader
  | reading
  | leaving
  | closing
  | done

/-- `Client`, with its channel from the oldest event on. Besides the fields of the source it has what was written to the
connection, what was offered to it, and what was broadcast to its tenant while it was registered. -/
structure Client (π : Type) where
  tenantID : Uuid
  send : List (Event π) := []
  closed : Bool := false
  stale : Bool := false
  connected : Bool := true
  writer : Writer π := .waiting
  reader : Reader := .reading
  written : List (Event π) := []
  offered : List (Event π) := []
  due : List (Event π) := []

/-- A call of `Broadcast` that holds the read lock, with the clients that it has not come to yet. -/
structure Call (π : Type) where
  ev : Event π
  pending : List ℕ

/-- The keys of the map `clients`, the connections by number, the calls of `Broadcast` in progress, and whether a
goroutine has panicked. -/
structure Hub (π : Type) where
  clients : List ℕ := []
  conns : ℕ → Option (Client π) := fun _ => none
  calls : List (Call π) := []
  panicked : Bool := false

variable {π : Type}

/-! ### One client -/

namespace Client

variable (cl : Client π)

/-- The `select` of `Broadcast`. -/
def offer (ev : Event π) : Client π :=
  if cl.send.length < sendBuffer then { cl with send := cl.send ++ [ev], offered := cl.offered ++ [ev] }
  else { cl with stale := true, offered := cl.offered ++ [ev] }

def stop : Client π := { cl with writer := .done, connected := false }

end Client

/-- The steps of `writePump`; a write succeeds or fails, and fails on a connection that is closed. -/
inductive Move
  | take
  | write (ok : Bool)
  | check
  | ping (ok : Bool)

def Client.move (cl : Client π) (m : Move) : Client π :=
  match cl.writer, m with
  | .waiting, .take =>
    match cl.send with
    | ev :: rest => { cl with send := rest, writer := .writing ev }
    | [] => if cl.closed then cl.stop else cl
  | .writing ev, .write ok =>
    if ok && cl.connected then { cl with written := cl.written ++ [ev], writer := .checking } else cl.stop
  | .checking, .check => if cl.stale then cl.stop else { cl with writer := .waiting }
  | .waiting, .ping ok => if ok && cl.connected then cl else cl.stop
  | _, _ => cl

/-! ### The hub -/

/-- A client is registered by `ServeWS`; a call of `Broadcast` gets the read lock, comes to one of the clients, or
returns; `writePump` takes a step; `readPump` fails to read and deletes the client from the map, closes the channel, and
closes the connection. -/
inductive Act (π : Type)
  | register (c : ℕ) (tenantID : Uuid)
  | broadcast (ev : Event π)
  | offer (i c : ℕ)
  | unlock (i : ℕ)
  | move (c : ℕ) (m : Move)
  | unregister (c : ℕ)
  | close (c : ℕ)
  | hangUp (c : ℕ)

namespace Hub

variable (s : Hub π)

def put (c : ℕ) (cl : Client π) : Hub π := { s with conns := Function.update s.conns c (some cl) }

def announce (ev : Event π) : Hub π :=
  { s with conns := fun c => (s.conns c).map fun cl =>
      if c ∈ s.clients ∧ cl.tenantID = ev.tenantID then { cl with due := cl.due ++ [ev] } else cl }

def owed (c : ℕ) (tenantID : Uuid) : List (Event π) :=
  (s.calls.filter fun k => decide (c ∈ k.pending ∧ k.ev.tenantID = tenantID)).map Call.ev

end Hub

/-- The lock lets nobody write to the map during a call of `Broadcast`. -/
def step (s : Hub π) (a : Act π) : Hub π :=
  match a with
  | .register c tenantID =>
    if s.calls.isEmpty && (s.conns c).isNone then { s.put c { tenantID } with clients := c :: s.clients } else s
  | .broadcast ev => { s.announce ev with calls := ⟨ev, s.clients⟩ :: s.calls }
  | .offer i c =>
    match s.calls[i]?, s.conns c with
    | some k, some cl =>
      if c ∈ k.pending then
        let s := { s with calls := s.calls.set i { k with pending := k.pending.erase c } }
        if cl.tenantID ≠ k.ev.tenantID then s
        else if cl.closed then { s with panicked := true }
        else s.put c (cl.offer k.ev)
      else s
    | _, _ => s
  | .unlock i =>
    match s.calls[i]? with
    | some k => if k.pending.isEmpty then { s with calls := s.calls.eraseIdx i } else s
    | none => s
  | .move c m =>
    match s.conns c with
    | some cl => s.put c (cl.move m)
    | none => s
  | .unregister c =>
    match s.conns c with
    | some cl =>
      match cl.reader with
      | .reading =>
        if s.calls.isEmpty then { s.put c { cl with reader := .leaving } with clients := s.clients.erase c } else s
      | _ => s
    | none => s
  | .close c =>
    match s.conns c with
    | some cl =>
      match cl.reader with
      | .leaving =>
        if cl.closed then { s with panicked := true } else s.put c { cl with closed := true, reader := .closing }
      | _ => s
    | none => s
  | .hangUp c =>
    match s.conns c with
    | some cl =>
      match cl.reader with
      | .closing => s.put c { cl with connected := false, reader := .done }
      | _ => s
    | none => s

def start : Hub π := {}

/-! ### What a client has got -/

/-- Until the client is stale everything that was offered to it is written or on its way; afterwards the event that is
written next, if there is one, is the next of those that were offered. -/
def Client.Flow (cl : Client π) : Prop :=
  match cl.writer with
  | .waiting => if cl.stale then ∃ ev rest, cl.send = ev :: rest ∧ cl.written ++ [ev] <+: cl.offered
      else cl.offered = cl.written ++ cl.send
  | .writing ev => if cl.stale then cl.written ++ [ev] <+: cl.offered else cl.offered = cl.written ++ ev :: cl.send
  | .checking => if cl.stale then cl.written <+: cl.offered else cl.offered = cl.written ++ cl.send
  | .done => cl.written <+: cl.offered

namespace Client

variable {cl : Client π}

theorem Flow.written_prefix (h : cl.Flow) : cl.written <+: cl.offered := by
  unfold Flow at h
  split at h
  · split at h
    · obtain ⟨ev, rest, -, hnext⟩ := h
      exact (List.prefix_append _ _).trans hnext
    · exact h ▸ List.prefix_append _ _
  · split at h
    · exact (List.prefix_append _ _).trans h
    · exact h ▸ List.prefix_append _ _
  · split at h
    · exact h
    · exact h ▸ List.prefix_append _ _
  · exact h

theorem Flow.stop (h : cl.Flow) : cl.stop.Flow := h.written_prefix

/-- Room in the channel, or the client is stale from now on. -/
theorem Flow.offer (h : cl.Flow) (ev : Event π) : (cl.offer ev).Flow := by
  have hmore {l : List (Event π)} (hl : l <+: cl.offered) : l <+: cl.offered ++ [ev] :=
    hl.trans (List.prefix_append _ _)
  unfold Client.offer
  split
  · -- the event enters the channel
    unfold Flow at h ⊢
    cases hw : cl.writer with
    | waiting =>
      simp only [hw] at h ⊢
      by_cases hstale : cl.stale = true
      · rw [if_pos hstale] at h ⊢
        obtain ⟨ev', rest, hsend, hnext⟩ := h
        exact ⟨ev', rest ++ [ev], by rw [hsend, List.cons_append], hmore hnext⟩
      · rw [if_neg hstale] at h ⊢
        rw [h, List.append_assoc]
    | writing ev' =>
      simp only [hw] at h ⊢
      by_cases hstale : cl.stale = true
      · rw [if_pos hstale] at h ⊢
        exact hmore h
      · rw [if_neg hstale] at h ⊢
        rw [h, List.append_assoc, List.cons_append]
    | checking =>
      simp only [hw] at h ⊢
      by_cases hstale : cl.stale = true
      · rw [if_pos hstale] at h ⊢
        exact hmore h
      · rw [if_neg hstale] at h ⊢
        rw [h, List.append_assoc]
    | done =>
      simp only [hw] at h ⊢
      exact hmore h
  · -- the channel is full, so what is written next is its first event
    rename_i hfull
    unfold Flow at h ⊢
    cases hw : cl.writer with
    | waiting =>
      simp only [hw, if_true] at h ⊢
      split at h
      · obtain ⟨ev', rest, hsend, hnext⟩ := h
        exact ⟨ev', rest, hsend, hmore hnext⟩
      · cases hsend : cl.send with
        | nil =>
          rw [hsend, List.length_nil] at hfull
          exact absurd (by decide) hfull
        | cons ev' rest =>
          refine ⟨ev', rest, rfl, hmore ?_⟩
          rw [h, hsend]
          exact ⟨rest, by simp⟩
    | writing ev' =>
      simp only [hw, if_true] at h ⊢
      split at h
      · exact hmore h
      · refine hmore ?_
        rw [h]
        exact ⟨cl.send, by simp⟩
    | checking =>
      simp only [hw, if_true] at h ⊢
      split at h
      · exact hmore h
      · exact hmore (h ▸ List.prefix_append _ _)
    | done =>
      simp only [hw] at h ⊢
      exact hmore h

/-- A stale client gets no further than the event that `writePump` has in hand. -/
theorem Flow.move (h : cl.Flow) (m : Move) : (cl.move m).Flow := by
  unfold Client.move
  split
  · rename_i hw
    split
    · rename_i ev rest hsend
      unfold Flow at h ⊢
      simp only [hw] at h ⊢
      split at h
      · obtain ⟨ev', rest', hsend', hnext⟩ := h
        obtain ⟨rfl, rfl⟩ := List.cons.inj (hsend.symm.trans hsend')
        rw [if_pos ‹_›]
        exact hnext
      · rw [if_neg ‹_›, h, hsend]
    · split
      · exact h.stop
      · exact h
  · rename_i ev ok hw
    split
    · unfold Flow at h ⊢
      simp only [hw] at h ⊢
      split at h
      · rw [if_pos ‹_›]
        exact h
      · rw [if_neg ‹_›, h, List.append_assoc]
        rfl
    · exact h.stop
  · rename_i hw
    split
    · exact h.stop
    · rename_i hstale
      unfold Flow at h ⊢
      simp only [hw, if_neg hstale] at h ⊢
      exact h
  · split
    · exact h
    · exact h.stop
  · exact h

theorem move_frame (cl : Client π) (m : Move) : (cl.move m).tenantID = cl.tenantID ∧ (cl.move m).closed = cl.closed ∧
    (cl.move m).reader = cl.reader ∧ (cl.move m).offered = cl.offered ∧ (cl.move m).due = cl.due := by
  unfold Client.move
  repeat' split
  all_goals exact ⟨rfl, rfl, rfl, rfl, rfl⟩

theorem offer_frame (cl : Client π) (ev : Event π) : (cl.offer ev).tenantID = cl.tenantID ∧
    (cl.offer ev).closed = cl.closed ∧ (cl.offer ev).reader = cl.reader ∧ (cl.offer ev).offered = cl.offered ++ [ev] ∧
    (cl.offer ev).due = cl.due := by
  unfold Client.offer
  split <;> exact ⟨rfl, rfl, rfl, rfl, rfl⟩

end Client

/-! ### What holds of the hub -/

/-- Whether the channel is closed, by where `readPump` stands. -/
def Reader.closed : Reader → Bool
  | .reading | .leaving => false
  | .closing | .done => true

structure Client.Ok (cl : Client π) : Prop where
  flow : cl.Flow
  own : ∀ ev ∈ cl.offered, ev.tenantID = cl.tenantID
  closed : cl.closed = cl.reader.closed

/-- The clients of the map are those that `readPump` still reads from; a call comes to clients of the map only, to each
one once; and what was broadcast to a client was offered to it or is still owed. -/
structure Inv (s : Hub π) : Prop where
  calm : s.panicked = false
  distinct : s.clients.Nodup
  reading : ∀ c ∈ s.clients, ∃ cl, s.conns c = some cl ∧ cl.reader = .reading
  ranges : ∀ k ∈ s.calls, k.pending.Nodup ∧ k.pending ⊆ s.clients
  ok : ∀ c cl, s.conns c = some cl → cl.Ok
  accounts : ∀ c cl, s.conns c = some cl → (cl.offered ++ s.owed c cl.tenantID).Perm cl.due

section

variable {s : Hub π} {c : ℕ} {cl cl' : Client π}

theorem inv_start : Inv (start : Hub π) where
  calm := rfl
  distinct := List.nodup_nil
  reading := fun c hc => absurd hc List.not_mem_nil
  ranges := fun k hk => absurd hk List.not_mem_nil
  ok := fun c cl hcl => by cases hcl
  accounts := fun c cl hcl => by cases hcl

theorem conns_put {c' : ℕ} (h : (s.put c cl).conns c' = some cl') :
    (c' = c ∧ cl' = cl) ∨ (c' ≠ c ∧ s.conns c' = some cl') := by
  change Function.update s.conns c (some cl) c' = some cl' at h
  by_cases heq : c' = c
  · subst heq
    rw [Function.update_self] at h
    exact .inl ⟨rfl, (Option.some.inj h).symm⟩
  · rw [Function.update_of_ne heq] at h
    exact .inr ⟨heq, h⟩

theorem Inv.reading_put (h : Inv s) (hreader : ∀ cl₀, s.conns c = some cl₀ → cl₀.reader = .reading →
    cl'.reader = .reading) : ∀ x ∈ s.clients, ∃ cl, (s.put c cl').conns x = some cl ∧ cl.reader = .reading := by
  intro x hx
  obtain ⟨cl₀, hcl₀, hread⟩ := h.reading x hx
  by_cases heq : x = c
  · subst heq
    exact ⟨cl', Function.update_self .., hreader cl₀ hcl₀ hread⟩
  · exact ⟨cl₀, (Function.update_of_ne heq ..).trans hcl₀, hread⟩

theorem Inv.put (h : Inv s) (hc : s.conns c = some cl) (hok : cl'.Ok) (htenant : cl'.tenantID = cl.tenantID)
    (hoffered : cl'.offered = cl.offered) (hdue : cl'.due = cl.due)
    (hreader : cl.reader = .reading → cl'.reader = .reading) : Inv (s.put c cl') where
  calm := h.calm
  distinct := h.distinct
  reading := h.reading_put fun cl₀ hcl₀ => by
    obtain rfl := Option.some.inj (hc.symm.trans hcl₀)
    exact hreader
  ranges := h.ranges
  ok x cl₀ hcl₀ := by
    obtain ⟨-, rfl⟩ | ⟨-, hcl₀⟩ := conns_put hcl₀
    · exact hok
    · exact h.ok x cl₀ hcl₀
  accounts x cl₀ hcl₀ := by
    obtain ⟨rfl, rfl⟩ | ⟨-, hcl₀⟩ := conns_put hcl₀
    · rw [htenant, hoffered, hdue]
      exact h.accounts x cl hc
    · exact h.accounts x cl₀ hcl₀

theorem inv_move (h : Inv s) (hc : s.conns c = some cl) (m : Move) : Inv (s.put c (cl.move m)) := by
  obtain ⟨htenant, hclosed, hreader, hoffered, hdue⟩ := cl.move_frame m
  have hok := h.ok c cl hc
  refine h.put hc ⟨hok.flow.move m, ?_, ?_⟩ htenant hoffered hdue fun hread => hreader.trans hread
  · rw [hoffered, htenant]
    exact hok.own
  · rw [hclosed, hreader]
    exact hok.closed

/-! ### What the lock guards -/

theorem owed_eq_of_calls (hcalls : s.calls = []) (c : ℕ) (tenantID : Uuid) : s.owed c tenantID = [] := by
  rw [Hub.owed, hcalls]
  rfl

theorem inv_register (h : Inv s) (hcalls : s.calls = []) (hc : s.conns c = none) (tenantID : Uuid) :
    Inv { s.put c { tenantID } with clients := c :: s.clients } where
  calm := h.calm
  distinct := by
    refine List.nodup_cons.2 ⟨fun hmem => ?_, h.distinct⟩
    obtain ⟨cl, hcl, -⟩ := h.reading c hmem
    cases hc.symm.trans hcl
  reading x hx := by
    obtain rfl | hx := List.mem_cons.1 hx
    · exact ⟨_, Function.update_self .., rfl⟩
    · exact h.reading_put (fun _ _ _ => rfl) x hx
  ranges k hk := by
    change k ∈ s.calls at hk
    rw [hcalls] at hk
    cases hk
  ok x cl hcl := by
    obtain ⟨-, rfl⟩ | ⟨-, hcl⟩ := conns_put hcl
    · exact ⟨rfl, fun ev hev => absurd hev List.not_mem_nil, rfl⟩
    · exact h.ok x cl hcl
  accounts x cl hcl := by
    have howed : ({ s.put c { tenantID } with clients := c :: s.clients } : Hub π).owed x cl.tenantID = [] :=
      owed_eq_of_calls hcalls x _
    rw [howed]
    obtain ⟨-, rfl⟩ | ⟨-, hcl⟩ := conns_put hcl
    · exact .refl _
    · have hold := h.accounts x cl hcl
      rwa [owed_eq_of_calls hcalls] at hold

theorem inv_unregister (h : Inv s) (hcalls : s.calls = []) (hc : s.conns c = some cl) (hread : cl.reader = .reading) :
    Inv { s.put c { cl with reader := .leaving } with clients := s.clients.erase c } where
  calm := h.calm
  distinct := h.distinct.erase c
  reading x hx := by
    obtain ⟨hne, hx⟩ := h.distinct.mem_erase_iff.1 hx
    obtain ⟨cl₀, hcl₀, hread₀⟩ := h.reading x hx
    exact ⟨cl₀, (Function.update_of_ne hne ..).trans hcl₀, hread₀⟩
  ranges k hk := by
    change k ∈ s.calls at hk
    rw [hcalls] at hk
    cases hk
  ok x cl₀ hcl₀ := by
    obtain ⟨-, rfl⟩ | ⟨-, hcl₀⟩ := conns_put hcl₀
    · have hok := h.ok c cl hc
      exact ⟨hok.flow, hok.own, hok.closed.trans (by rw [hread]; rfl)⟩
    · exact h.ok x cl₀ hcl₀
  accounts x cl₀ hcl₀ := by
    have howed : ({ s.put c { cl with reader := .leaving } with clients := s.clients.erase c } : Hub π).owed x
        cl₀.tenantID = s.owed x cl₀.tenantID := rfl
    rw [howed]
    obtain ⟨rfl, rfl⟩ | ⟨-, hcl₀⟩ := conns_put hcl₀
    · exact h.accounts x cl hc
    · exact h.accounts x cl₀ hcl₀

/-- A call of `Broadcast` gets the read lock: the event is owed to those it is due to. -/
theorem inv_broadcast (h : Inv s) (ev : Event π) :
    Inv { s.announce ev with calls := ⟨ev, s.clients⟩ :: s.calls } where
  calm := h.calm
  distinct := h.distinct
  reading x hx := by
    obtain ⟨cl, hcl, hread⟩ := h.reading x hx
    refine ⟨_, congrArg (Option.map _) hcl, ?_⟩
    dsimp only
    split <;> exact hread
  ranges k hk := by
    obtain rfl | hk := List.mem_cons.1 hk
    · exact ⟨h.distinct, List.Subset.refl _⟩
    · exact h.ranges k hk
  ok x cl hcl := by
    obtain ⟨cl₀, hcl₀, rfl⟩ := Option.map_eq_some_iff.1 hcl
    have hok := h.ok x cl₀ hcl₀
    split
    · exact ⟨hok.flow, hok.own, hok.closed⟩
    · exact hok
  accounts x cl hcl := by
    obtain ⟨cl₀, hcl₀, rfl⟩ := Option.map_eq_some_iff.1 hcl
    have hold := h.accounts x cl₀ hcl₀
    unfold Hub.owed at hold ⊢
    rw [List.filter_cons]
    split
    · rename_i hdue
      rw [if_pos (decide_eq_true ⟨hdue.1, hdue.2.symm⟩), List.map_cons]
      exact List.perm_middle.trans ((hold.cons ev).trans (List.perm_append_singleton _ _).symm)
    · rename_i hnot
      rw [if_neg fun hyes => hnot ⟨(of_decide_eq_true hyes).1, (of_decide_eq_true hyes).2.symm⟩]
      exact hold

/-! ### What a call does -/

theorem split_of_getElem? {α : Type} {l : List α} {i : ℕ} {a : α} (h : l[i]? = some a) :
    ∃ p q, l = p ++ a :: q ∧ (∀ b, l.set i b = p ++ b :: q) ∧ l.eraseIdx i = p ++ q := by
  obtain ⟨hi, rfl⟩ := List.getElem?_eq_some_iff.1 h
  refine ⟨l.take i, l.drop (i + 1), ?_, fun b => ?_, List.eraseIdx_eq_take_drop_succ ..⟩
  · rw [← List.drop_eq_getElem_cons hi, List.take_append_drop]
  · rw [List.set_eq_take_append_cons_drop, if_pos hi]

def Call.owes (k : Call π) (c : ℕ) (tenantID : Uuid) : List (Event π) :=
  if c ∈ k.pending ∧ k.ev.tenantID = tenantID then [k.ev] else []

theorem owed_eq (s : Hub π) (c : ℕ) (tenantID : Uuid) :
    s.owed c tenantID = s.calls.flatMap fun k => k.owes c tenantID := by
  unfold Hub.owed
  induction s.calls with
  | nil => rfl
  | cons k ks ih =>
    rw [List.flatMap_cons, ← ih, Call.owes, List.filter_cons]
    by_cases hk : c ∈ k.pending ∧ k.ev.tenantID = tenantID
    · rw [if_pos (decide_eq_true hk), if_pos hk]
      rfl
    · rw [if_neg (by simpa using hk), if_neg hk]
      rfl

variable {i : ℕ} {k : Call π}

theorem owed_set (hk : s.calls[i]? = some k) (hnodup : k.pending.Nodup) (x : ℕ) (tenantID : Uuid) :
    (s.owed x tenantID).Perm ((if x = c then k.owes c tenantID else []) ++
      ({ s with calls := s.calls.set i { k with pending := k.pending.erase c } } : Hub π).owed x tenantID) := by
  obtain ⟨p, q, hcalls, hset, -⟩ := split_of_getElem? hk
  rw [owed_eq, owed_eq]
  dsimp only
  rw [hset, hcalls, List.flatMap_append, List.flatMap_append, List.flatMap_cons, List.flatMap_cons]
  split
  · rename_i hx
    subst hx
    have hnone : Call.owes { k with pending := k.pending.erase x } x tenantID = [] :=
      if_neg fun hyes => (hnodup.mem_erase_iff.1 hyes.1).1 rfl
    rw [hnone, List.nil_append, ← List.append_assoc, ← List.append_assoc]
    exact List.perm_append_comm.append_right _
  · rename_i hx
    have hsame : Call.owes { k with pending := k.pending.erase c } x tenantID = k.owes x tenantID := by
      simp only [Call.owes, List.mem_erase_of_ne hx]
    rw [hsame, List.nil_append]

theorem Inv.open_of_pending (h : Inv s) (hk : s.calls[i]? = some k) (hc : s.conns c = some cl) (hmem : c ∈ k.pending) :
    cl.closed = false := by
  obtain ⟨cl₀, hcl₀, hread⟩ := h.reading c ((h.ranges k (List.mem_of_getElem? hk)).2 hmem)
  obtain rfl := Option.some.inj (hc.symm.trans hcl₀)
  rw [(h.ok c cl hc).closed, hread]
  rfl

theorem Inv.ranges_set (h : Inv s) (hk : s.calls[i]? = some k) (c : ℕ) :
    ∀ k' ∈ s.calls.set i { k with pending := k.pending.erase c }, k'.pending.Nodup ∧ k'.pending ⊆ s.clients := by
  intro k' hk'
  obtain hk' | rfl := List.mem_or_eq_of_mem_set hk'
  · exact h.ranges k' hk'
  · obtain ⟨hnodup, hsub⟩ := h.ranges k (List.mem_of_getElem? hk)
    exact ⟨hnodup.erase c, fun _ hc => hsub (List.mem_of_mem_erase hc)⟩

theorem inv_pass (h : Inv s) (hk : s.calls[i]? = some k) (hc : s.conns c = some cl)
    (htenant : cl.tenantID ≠ k.ev.tenantID) :
    Inv { s with calls := s.calls.set i { k with pending := k.pending.erase c } } where
  calm := h.calm
  distinct := h.distinct
  reading := h.reading
  ranges := h.ranges_set hk c
  ok := h.ok
  accounts x cl₀ hcl₀ := by
    have howed := owed_set (c := c) hk (h.ranges k (List.mem_of_getElem? hk)).1 x cl₀.tenantID
    have hnone : (if x = c then k.owes c cl₀.tenantID else []) = [] := by
      split
      · rename_i hx
        subst hx
        obtain rfl := Option.some.inj (hc.symm.trans hcl₀)
        exact if_neg fun hyes => htenant hyes.2.symm
      · rfl
    rw [hnone, List.nil_append] at howed
    exact (howed.symm.append_left _).trans (h.accounts x cl₀ hcl₀)

theorem inv_offer (h : Inv s) (hk : s.calls[i]? = some k) (hc : s.conns c = some cl) (hmem : c ∈ k.pending)
    (htenant : cl.tenantID = k.ev.tenantID) :
    Inv (Hub.put { s with calls := s.calls.set i { k with pending := k.pending.erase c } } c (cl.offer k.ev)) := by
  obtain ⟨htenant', hclosed, hreader, hoffered, hdue⟩ := cl.offer_frame k.ev
  have hok := h.ok c cl hc
  refine ⟨h.calm, h.distinct, ?_, h.ranges_set hk c, fun x cl₀ hcl₀ => ?_, fun x cl₀ hcl₀ => ?_⟩
  · refine h.reading_put fun cl₀ hcl₀ hread => ?_
    obtain rfl := Option.some.inj (hc.symm.trans hcl₀)
    exact hreader.trans hread
  · obtain ⟨-, rfl⟩ | ⟨-, hcl₀⟩ := conns_put hcl₀
    · refine ⟨hok.flow.offer k.ev, fun ev hev => ?_, by rw [hclosed, hreader]; exact hok.closed⟩
      rw [hoffered] at hev
      rw [htenant']
      obtain hev | hev := List.mem_append.1 hev
      · exact hok.own ev hev
      · rw [List.mem_singleton.1 hev]
        exact htenant.symm
    · exact h.ok x cl₀ hcl₀
  · have howed := owed_set (c := c) hk (h.ranges k (List.mem_of_getElem? hk)).1 x cl₀.tenantID
    change (cl₀.offered ++ ({ s with calls := s.calls.set i { k with pending := k.pending.erase c } } : Hub π).owed x
      cl₀.tenantID).Perm cl₀.due
    obtain ⟨rfl, rfl⟩ | ⟨hne, hcl₀⟩ := conns_put hcl₀
    · rw [if_pos rfl, htenant', Call.owes, if_pos ⟨hmem, htenant.symm⟩] at howed
      rw [hoffered, hdue, htenant', List.append_assoc]
      exact (howed.symm.append_left _).trans (h.accounts x cl hc)
    · rw [if_neg hne, List.nil_append] at howed
      exact (howed.symm.append_left _).trans (h.accounts x cl₀ hcl₀)

theorem inv_unlock (h : Inv s) (hk : s.calls[i]? = some k) (hdone : k.pending = []) :
    Inv { s with calls := s.calls.eraseIdx i } where
  calm := h.calm
  distinct := h.distinct
  reading := h.reading
  ranges k' hk' := h.ranges k' (List.mem_of_mem_eraseIdx hk')
  ok := h.ok
  accounts x cl hcl := by
    obtain ⟨p, q, hcalls, -, herase⟩ := split_of_getElem? hk
    have hold := h.accounts x cl hcl
    have hnone : k.owes x cl.tenantID = [] := if_neg fun hyes => by
      rw [hdone] at hyes
      exact absurd hyes.1 List.not_mem_nil
    rw [owed_eq, hcalls, List.flatMap_append, List.flatMap_cons, hnone, List.nil_append, ← List.flatMap_append] at hold
    rw [owed_eq]
    dsimp only
    rw [herase]
    exact hold

theorem inv_step (h : Inv s) (a : Act π) : Inv (step s a) := by
  cases a with
  | register c tenantID =>
    dsimp only [step]
    split
    · rename_i hfree
      rw [Bool.and_eq_true, List.isEmpty_iff, Option.isNone_iff_eq_none] at hfree
      exact inv_register h hfree.1 hfree.2 tenantID
    · exact h
  | broadcast ev => exact inv_broadcast h ev
  | offer i c =>
    dsimp only [step]
    split
    · rename_i k cl hk hc
      split
      · rename_i hmem
        split
        · rename_i htenant
          exact inv_pass h hk hc htenant
        · rename_i htenant
          rw [h.open_of_pending hk hc hmem, if_neg Bool.false_ne_true]
          exact inv_offer h hk hc hmem (not_not.1 htenant)
      · exact h
    · exact h
  | unlock i =>
    dsimp only [step]
    split
    · rename_i k hk
      split
      · rename_i hdone
        exact inv_unlock h hk (List.isEmpty_iff.1 hdone)
      · exact h
    · exact h
  | move c m =>
    dsimp only [step]
    split
    · rename_i cl hc
      exact inv_move h hc m
    · exact h
  | unregister c =>
    dsimp only [step]
    split
    · rename_i cl hc
      split
      · rename_i hread
        split
        · rename_i hcalls
          exact inv_unregister h (List.isEmpty_iff.1 hcalls) hc hread
        · exact h
      · exact h
    · exact h
  | close c =>
    dsimp only [step]
    split
    · rename_i cl hc
      split
      · rename_i hleaving
        have hok := h.ok c cl hc
        have hopen : cl.closed = false := by
          rw [hok.closed, hleaving]
          rfl
        rw [hopen, if_neg Bool.false_ne_true]
        refine h.put hc ⟨hok.flow, hok.own, rfl⟩ rfl rfl rfl fun hread => ?_
        cases hread.symm.trans hleaving
      · exact h
    · exact h
  | hangUp c =>
    dsimp only [step]
    split
    · rename_i cl hc
      split
      · rename_i hclosing
        have hok := h.ok c cl hc
        refine h.put hc ⟨hok.flow, hok.own, ?_⟩ rfl rfl rfl fun hread => ?_
        · rw [hok.closed, hclosing]
          rfl
        · cases hread.symm.trans hclosing
      · exact h
    · exact h

end

/-! ### Every run -/

theorem inv_run (acts : List (Act π)) : Inv (run step (start : Hub π) acts) :=
  foldl_invariant (P := Inv) (fun _ a _ hs => inv_step hs a) inv_start

/-- **No panic.** In every order of the steps, no event is sent on a closed channel and no channel is closed twice. -/
theorem never_panics (acts : List (Act π)) : (run step (start : Hub π) acts).panicked = false := (inv_run acts).calm

/-- **What a client gets** are events of its tenant, in the order in which they were offered and without a gap. Of what
was broadcast to its tenant while it was registered each event was offered to it once, or will be by a call in progress;
and a client that is not stale, and whose channel is empty while `writePump` waits, has got everything that was
offered. -/
theorem delivered_in_order (acts : List (Act π)) (c : ℕ) (cl : Client π)
    (hc : (run step (start : Hub π) acts).conns c = some cl) :
    cl.written <+: cl.offered ∧ (∀ ev ∈ cl.offered, ev.tenantID = cl.tenantID) ∧
      (cl.offered ++ (run step (start : Hub π) acts).owed c cl.tenantID).Perm cl.due ∧
      (cl.stale = false → cl.writer = .waiting → cl.send = [] → cl.written = cl.offered) := by
  have hok := (inv_run acts).ok c cl hc
  refine ⟨hok.flow.written_prefix, hok.own, (inv_run acts).accounts c cl hc, fun hstale hwriter hsend => ?_⟩
  have hflow := hok.flow
  unfold Client.Flow at hflow
  rw [hwriter] at hflow
  simp only [hstale, hsend, Bool.false_eq_true, if_false, List.append_nil] at hflow
  exact hflow.symm

def threeEvents : List (Act ℕ) :=
  [.register 0 "t1", .register 1 "t2", .register 2 "t1", .broadcast ⟨"t1", 7⟩, .broadcast ⟨"t2", 8⟩,
    .offer 1 0, .offer 0 0, .move 0 .take, .offer 0 1, .offer 1 2, .offer 1 1, .offer 0 2, .unlock 1, .unlock 0,
    .broadcast ⟨"t1", 9⟩, .offer 0 0, .move 0 (.write true), .move 0 .check, .move 0 .take, .move 0 (.write true),
    .move 0 .check]

theorem three_delivered :
    (∃ cl, (run step (start : Hub ℕ) threeEvents).conns 0 = some cl ∧ cl.written = cl.offered ∧
      cl.offered = [⟨"t1", 7⟩, ⟨"t1", 9⟩]) ∧
    ∃ cl, (run step (start : Hub ℕ) threeEvents).conns 2 = some cl ∧ cl.offered = [⟨"t1", 7⟩] ∧
      (cl.offered ++ [(⟨"t1", 9⟩ : Event ℕ)]).Perm cl.due :=
  ⟨⟨_, rfl, (delivered_in_order threeEvents 0 _ rfl).2.2.2 rfl rfl rfl, rfl⟩,
    ⟨_, rfl, rfl, (delivered_in_order threeEvents 2 _ rfl).2.2.1⟩⟩

end BookingSystem.Concurrency.Realtime
