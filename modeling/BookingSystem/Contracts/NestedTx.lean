import BookingSystem.Model.TenantTx

/-!
# Savepoints implement nested transactions

A sequence of calls of the query runner is well nested when every start is closed by a commit or a rollback of its own
(`Nested`); its writes are those all of whose blocks are committed. On the connection such a sequence leaves exactly
these writes, the counter is where it was, and every release and every rollback has named the savepoint of its own
block (`savepoints_nest`).
-/

namespace BookingSystem.Contracts.NestedTx

open Base Model.TenantTx Effects.TenantTx

variable {ω : Type}

/-- A call of the query runner inside a request. -/
inductive Call (ω : Type)
  | start
  | commit
  | rollback
  | write (w : ω)
  deriving DecidableEq

/-- Well-nested calls, with the writes all of whose blocks are committed. -/
inductive Nested : List (Call ω) → List ω → Prop
  | nil : Nested [] []
  | write (w : ω) {cs : List (Call ω)} {ws : List ω} (h : Nested cs ws) : Nested (.write w :: cs) (w :: ws)
  | commit {cs cs' : List (Call ω)} {ws ws' : List ω} (h : Nested cs ws) (h' : Nested cs' ws') :
      Nested (.start :: (cs ++ .commit :: cs')) (ws ++ ws')
  | rollback {cs cs' : List (Call ω)} {ws ws' : List ω} (h : Nested cs ws) (h' : Nested cs' ws') :
      Nested (.start :: (cs ++ .rollback :: cs')) ws'

theorem Nested.append {cs ds : List (Call ω)} {ws vs : List ω} (h : Nested cs ws) (h' : Nested ds vs) :
    Nested (cs ++ ds) (ws ++ vs) := by
  induction h with
  | nil => exact h'
  | write w h ih => exact .write w ih
  | commit h h'' ih ih' => simpa using Nested.commit h ih'
  | rollback h h'' ih ih' => simpa using Nested.rollback h ih'

theorem nested_writes (ws : List ω) : Nested (ws.map Call.write) ws := by
  induction ws with
  | nil => exact .nil
  | cons w ws ih => exact .write w ih

/-! ### Every balanced sequence is one -/

def balanced : ℕ → List (Call ω) → Bool
  | n, [] => n == 0
  | n, .start :: cs => balanced (n + 1) cs
  | n, .write _ :: cs => balanced n cs
  | 0, .commit :: _ | 0, .rollback :: _ => false
  | n + 1, .commit :: cs | n + 1, .rollback :: cs => balanced n cs

theorem balanced_split {n : ℕ} {cs : List (Call ω)} (h : balanced (n + 1) cs = true) :
    ∃ a ws c b, Nested a ws ∧ (c = .commit ∨ c = .rollback) ∧ cs = a ++ c :: b ∧ balanced n b = true := by
  induction hlen : cs.length using Nat.strong_induction_on generalizing n cs with
  | _ k ih =>
    cases cs with
    | nil => cases h
    | cons c cs =>
      have hlt : cs.length < k := by
        rw [← hlen]
        exact Nat.lt_succ_self _
      cases c with
      | commit => exact ⟨[], [], .commit, cs, .nil, .inl rfl, rfl, h⟩
      | rollback => exact ⟨[], [], .rollback, cs, .nil, .inr rfl, rfl, h⟩
      | write w =>
        have h' : balanced (n + 1) cs = true := h
        obtain ⟨a, ws, c, b, ha, hc, rfl, hb⟩ := ih _ hlt h' rfl
        exact ⟨.write w :: a, w :: ws, c, b, .write w ha, hc, rfl, hb⟩
      | start =>
        -- the block that opens here, and then the rest of the block around it
        have h' : balanced (n + 1 + 1) cs = true := h
        obtain ⟨a, ws, c, b, ha, hc, rfl, hb⟩ := ih _ hlt h' rfl
        have hlt' : b.length < k := by
          rw [List.length_append, List.length_cons] at hlt
          omega
        obtain ⟨a', ws', c', b', ha', hc', rfl, hb'⟩ := ih _ hlt' hb rfl
        rcases hc with rfl | rfl
        · exact ⟨_, _, c', b', .commit ha ha', hc', by simp, hb'⟩
        · exact ⟨_, _, c', b', .rollback ha ha', hc', by simp, hb'⟩

theorem exists_nested {cs : List (Call ω)} (h : balanced 0 cs = true) : ∃ ws, Nested cs ws := by
  induction hlen : cs.length using Nat.strong_induction_on generalizing cs with
  | _ k ih =>
    cases cs with
    | nil => exact ⟨[], .nil⟩
    | cons c cs =>
      have hlt : cs.length < k := by
        rw [← hlen]
        exact Nat.lt_succ_self _
      cases c with
      | commit => cases h
      | rollback => cases h
      | write w =>
        have h' : balanced 0 cs = true := h
        obtain ⟨ws, hws⟩ := ih _ hlt h' rfl
        exact ⟨w :: ws, .write w hws⟩
      | start =>
        obtain ⟨a, ws, c, b, ha, hc, rfl, hb⟩ := balanced_split h
        have hlt' : b.length < k := by
          rw [List.length_append, List.length_cons] at hlt
          omega
        obtain ⟨ws', hws'⟩ := ih _ hlt' hb rfl
        rcases hc with rfl | rfl
        · exact ⟨_, .commit ha hws'⟩
        · exact ⟨_, .rollback ha hws'⟩

/-! ### The calls on the connection -/

/-- The connection of a request in progress: the savepoints of the blocks that are open, innermost first; for every end
of a block its savepoint and the one that the statement names; and whether all statements went through. -/
structure Session (ω : Type) where
  pinned : Pinned ω := {}
  blocks : List ℕ := []
  ends : List (Option ℕ × Option ℕ) := []
  ok : Bool := true

namespace Session

variable (s : Session ω)

def names : Option ℕ := (s.pinned.tx.since (s.pinned.depth - 1)).head?.map (·.serial)

def close (r : Pinned ω × Bool) : Session ω :=
  ⟨r.1, s.blocks.tail, s.ends ++ [(s.blocks.head?, s.names)], s.ok && r.2⟩

def call : Call ω → Session ω
  | .start =>
    let r := startTransaction false s.pinned
    ⟨r.1, s.pinned.tx.next :: s.blocks, s.ends, s.ok && r.2⟩
  | .commit => s.close (commitTransaction false s.pinned)
  | .rollback => s.close (rollbackTransaction false s.pinned)
  | .write w =>
    let r := query false (.write w) s.pinned
    { s with pinned := r.1, ok := s.ok && r.2 }

end Session

/-- Where a sequence of calls ends that has started in `s` and has kept `ws`. -/
structure After (s s' : Session ω) (ws : List ω) : Prop where
  writes : s'.pinned.tx.writes = s.pinned.tx.writes ++ ws
  failed : s'.pinned.tx.failed = false
  depth : s'.pinned.depth = s.pinned.depth
  saved : Over s.pinned.depth s.pinned.tx.saved s'.pinned.tx.saved
  blocks : s'.blocks = s.blocks
  ends : ∃ own : List ℕ, s'.ends = s.ends ++ own.map fun k => (some k, some k)
  ok : s'.ok = s.ok

section Session

variable {s s' s'' : Session ω} {ws ws' : List ω}

theorem After.refl (hok : s.pinned.tx.failed = false) : After s s [] :=
  ⟨by simp, hok, rfl, .refl .., rfl, ⟨[], by simp⟩, rfl⟩

theorem After.trans (h : After s s' ws) (h' : After s' s'' ws') : After s s'' (ws ++ ws') := by
  obtain ⟨own, hown⟩ := h.ends
  obtain ⟨own', hown'⟩ := h'.ends
  obtain ⟨extra, hextra, hname⟩ := h.saved
  obtain ⟨extra', hextra', hname'⟩ := h'.saved
  refine ⟨?_, h'.failed, h'.depth.trans h.depth, ⟨extra' ++ extra, ?_, fun x hx => ?_⟩, h'.blocks.trans h.blocks,
    ⟨own ++ own', ?_⟩, h'.ok.trans h.ok⟩
  · rw [h'.writes, h.writes, List.append_assoc]
  · rw [hextra', hextra, List.append_assoc]
  · rcases List.mem_append.1 hx with hx | hx
    · exact h.depth ▸ hname' x hx
    · exact hname x hx
  · rw [hown', hown, List.map_append, List.append_assoc]

theorem after_write (hok : s.pinned.tx.failed = false) (w : ω) : After s (s.call (.write w)) [w] := by
  have hq : query false (.write w) s.pinned = (⟨{ s.pinned.tx with writes := s.pinned.tx.writes ++ [w] },
      s.pinned.depth⟩, true) := by
    simp [query, Tx.exec, Tx.exec?, malformed, hok]
  simp only [Session.call, hq]
  exact ⟨rfl, hok, rfl, .refl .., rfl, ⟨[], by simp⟩, by simp⟩

theorem call_start (hn : 0 ≤ s.pinned.depth) (hok : s.pinned.tx.failed = false) :
    s.call .start = ⟨⟨{ s.pinned.tx with
        saved := ⟨s.pinned.depth, s.pinned.tx.next, s.pinned.tx.writes⟩ :: s.pinned.tx.saved
        next := s.pinned.tx.next + 1 }, s.pinned.depth + 1⟩, s.pinned.tx.next :: s.blocks, s.ends, s.ok⟩ := by
  simp [Session.call, startTransaction_eq hn hok]

theorem inside_start (hn : 0 ≤ s.pinned.depth) (hok : s.pinned.tx.failed = false) :
    0 ≤ (s.call .start).pinned.depth ∧ (s.call .start).pinned.tx.failed = false := by
  rw [call_start hn hok]
  exact ⟨Int.add_nonneg hn Int.one_nonneg, hok⟩

theorem names_after (hn : 0 ≤ s.pinned.depth) (hok : s.pinned.tx.failed = false) (h : After (s.call .start) s' ws) :
    s'.names = some s.pinned.tx.next ∧ s'.blocks = s.pinned.tx.next :: s.blocks ∧
      s'.pinned.depth = s.pinned.depth + 1 ∧
      Over (s.pinned.depth + 1)
        (⟨s.pinned.depth, s.pinned.tx.next, s.pinned.tx.writes⟩ :: s.pinned.tx.saved) s'.pinned.tx.saved := by
  have hblocks := h.blocks
  have hdepth := h.depth
  have hover := h.saved
  rw [call_start hn hok] at hblocks hdepth hover
  have hd : s'.pinned.depth - 1 = s.pinned.depth := by
    rw [hdepth]
    exact Int.add_sub_cancel ..
  refine ⟨?_, hblocks, hdepth, hover⟩
  unfold Session.names
  rw [hd, Over.since (p := ⟨s.pinned.depth, s.pinned.tx.next, s.pinned.tx.writes⟩) hover]
  rfl

theorem after_commit (hn : 0 ≤ s.pinned.depth) (hok : s.pinned.tx.failed = false) (h : After (s.call .start) s' ws) :
    After s (s'.call .commit) ws := by
  obtain ⟨hnames, hblocks, hdepth, hover⟩ := names_after hn hok h
  obtain ⟨own, hown⟩ := h.ends
  have hwrites := h.writes
  have hokay := h.ok
  rw [call_start hn hok] at hown hwrites hokay
  have hc := commitTransaction_eq (p := ⟨s.pinned.depth, s.pinned.tx.next, s.pinned.tx.writes⟩) hdepth hover hn h.failed
  simp only [Session.call, Session.close, hc, hnames, hblocks]
  refine ⟨hwrites, h.failed, rfl, .refl .., rfl, ⟨own ++ [s.pinned.tx.next], ?_⟩, ?_⟩
  · rw [hown, List.map_append, List.append_assoc]
    rfl
  · rw [Bool.and_true]
    exact hokay

theorem after_rollback (hn : 0 ≤ s.pinned.depth) (hok : s.pinned.tx.failed = false)
    (h : After (s.call .start) s' ws) : After s (s'.call .rollback) [] := by
  obtain ⟨hnames, hblocks, hdepth, hover⟩ := names_after hn hok h
  obtain ⟨own, hown⟩ := h.ends
  have hokay := h.ok
  rw [call_start hn hok] at hown hokay
  have hr := rollbackTransaction_eq (p := ⟨s.pinned.depth, s.pinned.tx.next, s.pinned.tx.writes⟩) hdepth hover hn
  simp only [Session.call, Session.close, hr, hnames, hblocks]
  refine ⟨by simp, rfl, rfl, (Over.refl ..).cons (Int.le_refl _), rfl, ⟨own ++ [s.pinned.tx.next], ?_⟩, ?_⟩
  · rw [hown, List.map_append, List.append_assoc]
    rfl
  · rw [Bool.and_true]
    exact hokay

end Session

/-- **Well-nested calls.** They keep the writes of the blocks that are committed and leave the level as it was. -/
theorem after_run {cs : List (Call ω)} {ws : List ω} (h : Nested cs ws) {s : Session ω} (hn : 0 ≤ s.pinned.depth)
    (hok : s.pinned.tx.failed = false) : After s (run Session.call s cs) ws := by
  induction h generalizing s with
  | nil => exact .refl hok
  | write w h ih =>
    have hw := after_write hok w
    exact hw.trans (ih (hw.depth ▸ hn) hw.failed)
  | @commit cs cs' ws ws' h h' ih ih' =>
    rw [run_cons, run_append, run_cons]
    obtain ⟨hdepth, hfailed⟩ := inside_start hn hok
    have hblock := after_commit hn hok (ih hdepth hfailed)
    exact hblock.trans (ih' (hblock.depth ▸ hn) hblock.failed)
  | @rollback cs cs' ws ws' h h' ih ih' =>
    rw [run_cons, run_append, run_cons]
    obtain ⟨hdepth, hfailed⟩ := inside_start hn hok
    have hblock := after_rollback hn hok (ih hdepth hfailed)
    exact hblock.trans (ih' (hblock.depth ▸ hn) hblock.failed)

/-- **Savepoints implement nested transactions.** After well-nested calls in the outer transaction, the commit leaves
what there was and, in order, the writes all of whose blocks are committed; the rollback leaves what there was. The
counter is back at `1`, every statement went through, and every end of a block has named the savepoint of its own
block. -/
theorem savepoints_nest {cs : List (Call ω)} {ws : List ω} (h : Nested cs ws) (db : List ω) :
    finish true db (run Session.call {} cs).pinned = db ++ ws ∧ finish false db (run Session.call {} cs).pinned = db ∧
      (run Session.call {} cs).pinned.depth = 1 ∧ (run Session.call {} cs).ok = true ∧
      ∀ e ∈ (run Session.call {} cs).ends, e.1 = e.2 ∧ e.1.isSome = true := by
  have hafter := after_run h (s := {}) Int.one_nonneg rfl
  refine ⟨?_, rfl, hafter.depth, hafter.ok, fun e he => ?_⟩
  · rw [finish, if_pos rfl, Tx.committed, hafter.failed, hafter.writes]
    rfl
  · obtain ⟨own, hown⟩ := hafter.ends
    rw [hown, List.nil_append, List.mem_map] at he
    obtain ⟨k, -, rfl⟩ := he
    exact ⟨rfl, rfl⟩

/-- Three blocks one after the other, all with the same name: the first is given up and its savepoint stays, the second
is committed over it, the third holds a block of its own that is given up. -/
theorem savepoints_nest_siblings :
    finish true [0] (run Session.call {} [.write 1, .start, .write 2, .rollback, .start, .write 3, .commit,
      .start, .start, .write 4, .rollback, .write 5, .commit]).pinned = [0, 1, 3, 5] :=
  (savepoints_nest (.write 1 (.rollback (.write 2 .nil) (.commit (.write 3 .nil)
    (.commit (.rollback (.write 4 .nil) (.write 5 .nil)) .nil)))) [0]).1

end BookingSystem.Contracts.NestedTx
