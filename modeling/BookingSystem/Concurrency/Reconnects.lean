import BookingSystem.Base.Run
import Mathlib.Data.List.Sort
import Mathlib.Data.List.TakeWhile
import Mathlib.Logic.Function.Basic

/-!
# Realtime streams across a reconnection

Calls of `publishEvent` on any of the nodes draw an id, append the event to the buffer of the tenant and publish it;
every node receives what was published in one order. A client follows the stream of one node, is disconnected, and
reconnects to any node with the id of the last event that it received: the replay sends what the buffer has with larger
ids. But the ids are drawn before the events are published, so an event with a smaller id may come later, and the replay
leaves it out. The client misses nothing as long as no such event is published, or still on its way to the node, while
the client is away, and the buffer reaches back to what was on its way (`reconnect_complete`).
-/

namespace BookingSystem.Concurrency.Reconnects

open Base

def bufferMax : ℕ := 200

/-- `LPUSH` and `LTRIM`: the latest event stands in front. -/
def appendBuffer (buffer : List ℕ) (id : ℕ) : List ℕ := (id :: buffer).take bufferMax

/-- `replay`: what the buffer has after an id, in the order of the ids. -/
def replay (buffer : List ℕ) (lastEventId : ℕ) : List ℕ :=
  (buffer.filter fun id => decide (lastEventId < id)).insertionSort (· ≤ ·)

/-- A client that has not subscribed yet, follows its first stream, is away after an event, waits for the replay of a
node to be sent, and follows the second stream. While it is away, `after` are the events that were appended from the
first one on that had not reached it. -/
inductive Phase (Node : Type)
  | absent
  | live (node : Node)
  | away (last : ℕ) (after : List ℕ)
  | replaying (node : Node) (missed : List ℕ)
  | resumed (node : Node)

/-- The events of one tenant, each by its id. `drawn` and `appended` are the calls of `publishEvent` that wait for their
next step, `channel` is what was published, in order, and `seen` how much of it each node has received. -/
structure Realtime (Node : Type) where
  seq : ℕ := 0
  drawn : List ℕ := []
  appended : List ℕ := []
  buffer : List ℕ := []
  channel : List ℕ := []
  seen : Node → ℕ := fun _ => 0
  phase : Phase Node := .absent
  received : List ℕ := []
  /-- What was appended since the buffer expired last, the latest in front. -/
  kept : List ℕ := []
  /-- How much was published before the first subscription. -/
  since : ℕ := 0
  /-- What was published between the replay's read and the start of the second stream. -/
  window : List ℕ := []

inductive Event (Node : Type)
  | otherTenant
  | draw
  | append (id : ℕ)
  | publish (id : ℕ)
  | expire
  | deliver (node : Node)
  | subscribe (node : Node)
  | disconnect
  | reconnect (node : Node)
  | resume

section

variable {Node : Type}

def Phase.onAppend (id : ℕ) : Phase Node → Phase Node
  | .away last after => .away last (after ++ [id])
  | phase => phase

def windowAfter (s : Realtime Node) (id : ℕ) : List ℕ :=
  match s.phase with
  | .replaying .. => s.window ++ [id]
  | _ => s.window

def undelivered (s : Realtime Node) (node : Node) : List ℕ :=
  s.kept.reverse.dropWhile fun id => decide (id ∈ s.channel.take (s.seen node))

variable {s : Realtime Node}

theorem appendBuffer_take (kept : List ℕ) (id : ℕ) :
    appendBuffer (kept.take bufferMax) id = (id :: kept).take bufferMax := by
  have hmax : bufferMax = 199 + 1 := rfl
  rw [appendBuffer, hmax, List.take_succ_cons, List.take_succ_cons, List.take_take]
  rfl

theorem mem_drop_concat {l : List ℕ} {n x y : ℕ} (h : y ∈ (l ++ [x]).drop n) : y ∈ l.drop n ∨ y = x := by
  rw [List.drop_append] at h
  obtain h | h := List.mem_append.1 h
  · exact .inl h
  · exact .inr (List.mem_singleton.1 (List.mem_of_mem_drop h))

theorem mem_take_concat {l : List ℕ} {n k x y : ℕ} (hn : n ≤ l.length) (h : y ∈ ((l ++ [x]).take n).drop k) :
    y ∈ (l.take n).drop k := by
  rwa [List.take_append_of_le_length hn] at h

/-- The events that are dropped are those that were delivered. -/
theorem mem_undelivered {node : Node} {id : ℕ} (h : id ∈ s.kept) (hnot : id ∉ s.channel.take (s.seen node)) :
    id ∈ undelivered s node := by
  have hmem : id ∈ s.kept.reverse := List.mem_reverse.2 h
  rw [← List.takeWhile_append_dropWhile (p := fun id => decide (id ∈ s.channel.take (s.seen node)))
    (l := s.kept.reverse)] at hmem
  obtain hdelivered | hrest := List.mem_append.1 hmem
  · have hseen := List.mem_takeWhile_imp hdelivered
    exact absurd (of_decide_eq_true hseen) hnot
  · exact hrest

theorem undelivered_prefix (s : Realtime Node) (node : Node) : (undelivered s node).reverse <+: s.kept := by
  have hsuffix : undelivered s node <:+ s.kept.reverse := List.dropWhile_suffix _
  have hfront := List.reverse_prefix.2 hsuffix
  rwa [List.reverse_reverse] at hfront

variable [DecidableEq Node]

def Phase.listens (node : Node) : Phase Node → Bool
  | .live m => decide (m = node)
  | .resumed m => decide (m = node)
  | _ => false

def step (s : Realtime Node) (e : Event Node) : Realtime Node :=
  match e with
  | .otherTenant => { s with seq := s.seq + 1 }
  | .draw => { s with seq := s.seq + 1, drawn := (s.seq + 1) :: s.drawn }
  | .append id =>
    if id ∈ s.drawn then
      { s with
        drawn := s.drawn.erase id
        appended := id :: s.appended
        buffer := appendBuffer s.buffer id
        kept := id :: s.kept
        phase := s.phase.onAppend id }
    else s
  | .publish id =>
    if id ∈ s.appended then
      { s with
        appended := s.appended.erase id
        channel := s.channel ++ [id]
        window := windowAfter s id }
    else s
  | .expire => { s with buffer := [], kept := [] }
  | .deliver node =>
    match s.channel[s.seen node]? with
    | some id =>
      { s with
        seen := Function.update s.seen node (s.seen node + 1)
        received := if s.phase.listens node then s.received ++ [id] else s.received }
    | none => s
  | .subscribe node =>
    match s.phase with
    | .absent => { s with phase := .live node, since := s.channel.length }
    | _ => s
  | .disconnect =>
    match s.phase, s.received.getLast? with
    | .live node, some last => { s with phase := .away last (undelivered s node) }
    | _, _ => s
  | .reconnect node =>
    match s.phase with
    | .away last _ => { s with phase := .replaying node (replay s.buffer last) }
    | _ => s
  | .resume =>
    match s.phase with
    | .replaying node missed => { s with phase := .resumed node, received := s.received ++ missed }
    | _ => s

/-- Of what was published after the first subscription, the client has received whatever the node has, except what was
published between the replay's read and the start of the second stream. -/
def Reached (s : Realtime Node) (node : Node) : Prop :=
  ∀ id ∈ (s.channel.take (s.seen node)).drop s.since, id ∈ s.received ∨ id ∈ s.window

/-- **Nothing is missed**, on the first stream and on the second one. -/
def Complete (s : Realtime Node) : Prop :=
  ∀ node, s.phase.listens node = true → Reached s node

/-- No event with a smaller id than the last one that the client received is on its way to the node when the client is
disconnected, or published while it is away. At most 200 events were appended from the first one on that had not
reached the client, and they have not expired. -/
def Orderly (s : Realtime Node) (e : Event Node) : Prop :=
  match e, s.phase with
  | .publish id, .away last _ => last < id
  | .disconnect, .live node => ∀ last ∈ s.received.getLast?, ∀ id ∈ s.channel.drop (s.seen node), last < id
  | .reconnect _, .away _ after => after.length ≤ bufferMax
  | .expire, .absent => s.appended = []
  | .expire, .live _ => False
  | .expire, .away _ _ => False
  | _, _ => True

/-! ### What holds of the client -/

/-- What the buffer and the streams have of the events, in each phase. -/
def Served (s : Realtime Node) : Prop :=
  match s.phase with
  | .absent => ∀ id ∈ s.appended, id ∈ s.kept
  | .live node => (∀ id ∈ s.appended, id ∈ s.kept) ∧ (∀ id ∈ s.channel.drop s.since, id ∈ s.kept) ∧ Reached s node
  | .away last after => after.reverse <+: s.kept ∧ (∀ id ∈ s.appended, id ∈ after) ∧
    ∀ id ∈ s.channel.drop s.since, id ∈ s.received ∨ id ∈ s.window ∨ (last < id ∧ id ∈ after)
  | .replaying _ missed => ∀ id ∈ s.channel.drop s.since, id ∈ s.received ∨ id ∈ s.window ∨ id ∈ missed
  | .resumed node => Reached s node

/-- The ids are those that were drawn, each in one place, and the buffer has the latest of what was kept. -/
structure Inv (s : Realtime Node) : Prop where
  ids : (s.drawn ++ (s.appended ++ s.channel)).Nodup
  drawn : ∀ id ∈ s.drawn ++ (s.appended ++ s.channel), id ≤ s.seq
  seen : ∀ node, s.seen node ≤ s.channel.length
  buffer : s.buffer = s.kept.take bufferMax
  served : Served s

theorem Inv.complete (h : Inv s) : Complete s := by
  intro node hlistens
  have hserved := h.served
  unfold Served at hserved
  cases hphase : s.phase with
  | live m =>
    rw [hphase] at hserved hlistens
    obtain rfl : m = node := of_decide_eq_true hlistens
    exact hserved.2.2
  | resumed m =>
    rw [hphase] at hserved hlistens
    obtain rfl : m = node := of_decide_eq_true hlistens
    exact hserved
  | absent | away | replaying =>
    rw [hphase] at hlistens
    cases hlistens

/-! ### What each event does -/

omit [DecidableEq Node] in
theorem inv_start (seq : ℕ) : Inv ({ seq := seq } : Realtime Node) where
  ids := List.nodup_nil
  drawn := nofun
  seen _ := le_refl 0
  buffer := rfl
  served := nofun

omit [DecidableEq Node] in
theorem Inv.ids_of_perm (h : Inv s) {ids : List ℕ} (hperm : ids.Perm (s.drawn ++ (s.appended ++ s.channel))) :
    ids.Nodup ∧ ∀ id ∈ ids, id ≤ s.seq :=
  ⟨hperm.nodup_iff.2 h.ids, fun id hid => h.drawn id (hperm.mem_iff.1 hid)⟩

theorem inv_draw (h : Inv s) : Inv (step s .draw) := by
  have hnew : s.seq + 1 ∉ s.drawn ++ (s.appended ++ s.channel) := by
    intro hmem
    have hle := h.drawn _ hmem
    omega
  refine ⟨List.nodup_cons.2 ⟨hnew, h.ids⟩, fun id hid => ?_, h.seen, h.buffer, h.served⟩
  obtain rfl | hid := List.mem_cons.1 hid
  · exact le_refl _
  · exact (h.drawn id hid).trans (Nat.le_succ _)

theorem inv_otherTenant (h : Inv s) : Inv (step s .otherTenant) :=
  ⟨h.ids, fun id hid => (h.drawn id hid).trans (Nat.le_succ _), h.seen, h.buffer, h.served⟩

theorem inv_append (h : Inv s) (id : ℕ) : Inv (step s (.append id)) := by
  dsimp only [step]
  split
  · rename_i hmem
    have hperm : (s.drawn.erase id ++ (id :: s.appended ++ s.channel)).Perm (s.drawn ++ (s.appended ++ s.channel)) :=
      List.perm_middle.trans ((List.perm_cons_erase hmem).symm.append_right _)
    obtain ⟨hids, hdrawn⟩ := h.ids_of_perm hperm
    refine ⟨hids, hdrawn, h.seen, by rw [h.buffer, appendBuffer_take], ?_⟩
    have hserved := h.served
    unfold Served at hserved ⊢
    split at hserved
    · rename_i hphase
      simp only [hphase, Phase.onAppend]
      exact List.forall_mem_cons.2 ⟨List.mem_cons_self, fun x hx => List.mem_cons_of_mem _ (hserved x hx)⟩
    · rename_i node hphase
      obtain ⟨happended, hchannel, hreached⟩ := hserved
      simp only [hphase, Phase.onAppend]
      exact ⟨List.forall_mem_cons.2 ⟨List.mem_cons_self, fun x hx => List.mem_cons_of_mem _ (happended x hx)⟩,
        fun x hx => List.mem_cons_of_mem _ (hchannel x hx), hreached⟩
    · rename_i last after hphase
      obtain ⟨hfront, happended, hchannel⟩ := hserved
      simp only [hphase, Phase.onAppend]
      have hmore : ∀ x ∈ after, x ∈ after ++ [id] := fun x hx => List.mem_append_left _ hx
      refine ⟨?_, List.forall_mem_cons.2 ⟨by simp, fun x hx => hmore x (happended x hx)⟩, fun x hx => ?_⟩
      · rw [List.reverse_append]
        exact List.prefix_cons_inj id |>.2 hfront
      · obtain hx | hx | ⟨hlast, hx⟩ := hchannel x hx
        · exact .inl hx
        · exact .inr (.inl hx)
        · exact .inr (.inr ⟨hlast, hmore x hx⟩)
    · rename_i node missed hphase
      simp only [hphase, Phase.onAppend]
      exact hserved
    · rename_i node hphase
      simp only [hphase, Phase.onAppend]
      exact hserved
  · exact h

theorem inv_publish (h : Inv s) (id : ℕ) (horderly : Orderly s (.publish id)) : Inv (step s (.publish id)) := by
  dsimp only [step]
  split
  · rename_i hmem
    have hperm : (s.drawn ++ (s.appended.erase id ++ (s.channel ++ [id]))).Perm
        (s.drawn ++ (s.appended ++ s.channel)) := by
      refine List.Perm.append_left _ ?_
      rw [← List.append_assoc]
      refine (List.perm_append_singleton id _).trans ?_
      exact (List.perm_cons_erase hmem).symm.append_right _
    obtain ⟨hids, hdrawn⟩ := h.ids_of_perm hperm
    have hlonger : ∀ node, s.seen node ≤ (s.channel ++ [id]).length := by
      intro node
      rw [List.length_append]
      exact (h.seen node).trans (Nat.le_add_right _ _)
    have herase : ∀ x ∈ s.appended.erase id, x ∈ s.appended := fun x hx => List.mem_of_mem_erase hx
    refine ⟨hids, hdrawn, hlonger, h.buffer, ?_⟩
    have hserved := h.served
    unfold Served at hserved ⊢
    unfold Orderly at horderly
    split at hserved
    · rename_i hphase
      simp only [hphase]
      exact fun x hx => hserved x (herase x hx)
    · rename_i node hphase
      obtain ⟨happended, hchannel, hreached⟩ := hserved
      simp only [hphase, windowAfter]
      refine ⟨fun x hx => happended x (herase x hx), fun x hx => ?_, fun x hx =>
        hreached x (mem_take_concat (h.seen node) hx)⟩
      obtain hx | rfl := mem_drop_concat hx
      · exact hchannel x hx
      · exact happended x hmem
    · rename_i last after hphase
      obtain ⟨hfront, happended, hchannel⟩ := hserved
      simp only [hphase] at horderly
      simp only [hphase, windowAfter]
      refine ⟨hfront, fun x hx => happended x (herase x hx), fun x hx => ?_⟩
      obtain hx | rfl := mem_drop_concat hx
      · exact hchannel x hx
      · exact .inr (.inr ⟨horderly, happended x hmem⟩)
    · rename_i node missed hphase
      simp only [hphase, windowAfter]
      intro x hx
      obtain hx | rfl := mem_drop_concat hx
      · obtain hx | hx | hx := hserved x hx
        · exact .inl hx
        · exact .inr (.inl (List.mem_append_left _ hx))
        · exact .inr (.inr hx)
      · exact .inr (.inl (by simp))
    · rename_i node hphase
      simp only [hphase, windowAfter]
      exact fun x hx => hserved x (mem_take_concat (h.seen node) hx)
  · exact h

theorem inv_expire (h : Inv s) (horderly : Orderly s .expire) : Inv (step s .expire) := by
  refine ⟨h.ids, h.drawn, h.seen, rfl, ?_⟩
  have hserved := h.served
  unfold Served at hserved ⊢
  unfold Orderly at horderly
  dsimp only [step]
  split at hserved
  · rename_i hphase
    simp only [hphase] at horderly ⊢
    rw [horderly]
    exact nofun
  · rename_i node hphase
    simp only [hphase] at horderly
  · rename_i last after hphase
    simp only [hphase] at horderly
  · exact hserved
  · exact hserved

/-- What a node receives next the client receives as well, if it follows this node. -/
theorem reached_deliver {m node : Node} {id : ℕ} (hreached : Reached s m)
    (hnext : s.channel[s.seen node]? = some id) :
    ∀ x ∈ (s.channel.take (Function.update s.seen node (s.seen node + 1) m)).drop s.since,
      x ∈ (if decide (m = node) = true then s.received ++ [id] else s.received) ∨ x ∈ s.window := by
  intro x hx
  by_cases hm : m = node
  · subst hm
    rw [Function.update_self, List.take_add_one, hnext] at hx
    rw [if_pos (by simp)]
    obtain hx | rfl := mem_drop_concat hx
    · exact (hreached x hx).imp_left (List.mem_append_left _)
    · exact .inl (by simp)
  · rw [Function.update_of_ne hm] at hx
    rw [if_neg (by simpa using hm)]
    exact hreached x hx

theorem inv_deliver (h : Inv s) (node : Node) : Inv (step s (.deliver node)) := by
  dsimp only [step]
  split
  · rename_i id hnext
    have hlt : s.seen node < s.channel.length := (List.getElem?_eq_some_iff.1 hnext).1
    refine ⟨h.ids, h.drawn, fun m => ?_, h.buffer, ?_⟩
    · dsimp only
      by_cases hm : m = node
      · subst hm
        rw [Function.update_self]
        exact hlt
      · rw [Function.update_of_ne hm]
        exact h.seen m
    · have hserved := h.served
      unfold Served at hserved ⊢
      split at hserved
      · rename_i hphase
        simpa only [hphase] using hserved
      · rename_i m hphase
        obtain ⟨happended, hchannel, hreached⟩ := hserved
        simp only [hphase, Phase.listens]
        exact ⟨happended, hchannel, reached_deliver hreached hnext⟩
      · rename_i last after hphase
        simp only [hphase, Phase.listens, Bool.false_eq_true, if_false]
        exact hserved
      · rename_i m missed hphase
        simp only [hphase, Phase.listens, Bool.false_eq_true, if_false]
        exact hserved
      · rename_i m hphase
        simp only [hphase, Phase.listens]
        exact reached_deliver hserved hnext
  · exact h

theorem inv_subscribe (h : Inv s) (node : Node) : Inv (step s (.subscribe node)) := by
  dsimp only [step]
  split
  · rename_i hphase
    have hserved := h.served
    unfold Served at hserved
    simp only [hphase] at hserved
    refine ⟨h.ids, h.drawn, h.seen, h.buffer, hserved, fun x hx => ?_, fun x hx => ?_⟩
    · rw [List.drop_length] at hx
      cases hx
    · dsimp only at hx
      rw [List.drop_of_length_le (List.length_take_le' _ _)] at hx
      cases hx
  · exact h

theorem inv_disconnect (h : Inv s) (horderly : Orderly s .disconnect) : Inv (step s .disconnect) := by
  dsimp only [step]
  split
  · rename_i node last hphase hlast
    have hserved := h.served
    unfold Served at hserved
    unfold Orderly at horderly
    simp only [hphase] at hserved horderly
    obtain ⟨happended, hchannel, hreached⟩ := hserved
    have hids := (List.nodup_append.1 h.ids).2.1
    obtain ⟨-, hnodup, hdisjoint⟩ := List.nodup_append.1 hids
    refine ⟨h.ids, h.drawn, h.seen, h.buffer, undelivered_prefix s node, fun x hx => ?_, fun x hx => ?_⟩
    · exact mem_undelivered (happended x hx) fun hmem => hdisjoint x hx x (List.mem_of_mem_take hmem) rfl
    · -- the node has passed the event on, or it is still on its way to the node
      have hdue : x ∈ s.channel.drop s.since := hx
      rw [← List.take_append_drop (s.seen node) s.channel, List.drop_append] at hx
      obtain hpassed | hway := List.mem_append.1 hx
      · obtain hx | hx := hreached x hpassed
        · exact .inl hx
        · exact .inr (.inl hx)
      · have hway := List.mem_of_mem_drop hway
        have hkept : x ∈ s.kept := hchannel x hdue
        refine .inr (.inr ⟨horderly last hlast x hway, mem_undelivered hkept fun hmem => ?_⟩)
        rw [← List.take_append_drop (s.seen node) s.channel] at hnodup
        exact (List.nodup_append.1 hnodup).2.2 x hmem x hway rfl
  · exact h

theorem mem_replay {buffer : List ℕ} {last id : ℕ} : id ∈ replay buffer last ↔ id ∈ buffer ∧ last < id := by
  rw [replay, List.mem_insertionSort, List.mem_filter, decide_eq_true_eq]

theorem inv_reconnect (h : Inv s) (node : Node) (horderly : Orderly s (.reconnect node)) :
    Inv (step s (.reconnect node)) := by
  dsimp only [step]
  split
  · rename_i last after hphase
    have hserved := h.served
    unfold Served at hserved
    unfold Orderly at horderly
    simp only [hphase] at hserved horderly
    obtain ⟨hfront, -, hchannel⟩ := hserved
    -- the buffer reaches back to all of `after`
    have hbuffer : ∀ x ∈ after, x ∈ s.buffer := by
      intro x hx
      rw [h.buffer]
      obtain ⟨older, hkept⟩ := hfront
      rw [← hkept, List.take_append, List.take_of_length_le (by rwa [List.length_reverse])]
      exact List.mem_append_left _ (List.mem_reverse.2 hx)
    refine ⟨h.ids, h.drawn, h.seen, h.buffer, fun x hx => ?_⟩
    obtain hx | hx | ⟨hlast, hx⟩ := hchannel x hx
    · exact .inl hx
    · exact .inr (.inl hx)
    · exact .inr (.inr (mem_replay.2 ⟨hbuffer x hx, hlast⟩))
  · exact h

theorem inv_resume (h : Inv s) : Inv (step s .resume) := by
  dsimp only [step]
  split
  · rename_i node missed hphase
    have hserved := h.served
    unfold Served at hserved
    simp only [hphase] at hserved
    refine ⟨h.ids, h.drawn, h.seen, h.buffer, fun x hx => ?_⟩
    have hx : x ∈ s.channel.drop s.since := by
      rw [List.drop_take] at hx
      exact List.mem_of_mem_take hx
    obtain hx | hx | hx := hserved x hx
    · exact .inl (List.mem_append_left _ hx)
    · exact .inr hx
    · exact .inl (List.mem_append_right _ hx)
  · exact h

end

/-- **The reconnection.** In every run in which no event overtakes the one after which the client is disconnected, and
the buffer reaches back, the client misses nothing on its two streams but what is published between the replay's read
and the start of the second stream. -/
theorem reconnect_complete {Node : Type} [DecidableEq Node] (seq : ℕ) (es : List (Event Node))
    (h : AllSteps step Orderly ({ seq := seq } : Realtime Node) es) : Complete (run step { seq := seq } es) := by
  refine (run_invariant (I := Inv) (fun s e hs horderly => ?_) (inv_start seq) h).complete
  cases e with
  | otherTenant => exact inv_otherTenant hs
  | draw => exact inv_draw hs
  | append id => exact inv_append hs id
  | publish id => exact inv_publish hs id horderly
  | expire => exact inv_expire hs horderly
  | deliver node => exact inv_deliver hs node
  | subscribe node => exact inv_subscribe hs node
  | disconnect => exact inv_disconnect hs horderly
  | reconnect node => exact inv_reconnect hs node horderly
  | resume => exact inv_resume hs

def oneByOne : List (Event Bool) :=
  [.subscribe false, .draw, .append 1, .publish 1, .deliver false, .disconnect, .draw, .append 2, .publish 2,
    .reconnect true, .resume, .deliver true, .deliver true]

theorem reconnect_complete_oneByOne : Complete (run step ({} : Realtime Bool) oneByOne) ∧
    (run step ({} : Realtime Bool) oneByOne).received = [1, 2, 1, 2] := by
  refine ⟨reconnect_complete 0 oneByOne ?_, by decide⟩
  refine ⟨trivial, trivial, trivial, trivial, trivial, ?_, trivial, trivial, ?_, ?_, trivial, trivial, trivial, trivial⟩
  · change ∀ last ∈ [1].getLast?, ∀ id ∈ ([1] : List ℕ).drop 1, last < id
    exact fun _ _ id hid => absurd hid List.not_mem_nil
  · change 1 < 2
    decide
  · change [2].length ≤ 200
    decide

def overtaken : List (Event Bool) :=
  [.subscribe false, .draw, .draw, .append 2, .publish 2, .deliver false, .disconnect, .append 1, .publish 1,
    .deliver true, .deliver true, .reconnect true, .resume]

/-- The first event is in the buffer, but the replay leaves it out. -/
theorem overtaken_missed : ¬ Complete (run step ({} : Realtime Bool) overtaken) ∧
    (run step ({} : Realtime Bool) overtaken).received = [2] ∧
    (run step ({} : Realtime Bool) overtaken).buffer = [1, 2] ∧
    (run step ({} : Realtime Bool) overtaken).channel = [2, 1] ∧
    (run step ({} : Realtime Bool) overtaken).window = [] := by
  refine ⟨fun hcomplete => ?_, by decide, by decide, by decide, by decide⟩
  have hreached := hcomplete true (by decide) 1 (by decide)
  revert hreached
  decide

end BookingSystem.Concurrency.Reconnects
