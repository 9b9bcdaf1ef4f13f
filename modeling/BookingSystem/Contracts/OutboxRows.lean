import BookingSystem.Contracts.NestedTx
import BookingSystem.Effects.Requests
import BookingSystem.Model.System

/-!
# The rows of the sync outbox and the changes they announce

A request starts to write the rows of the sync outbox and does not wait for them: each reaches the connection at some
point after it was started, in whatever inner transaction is open then, or after the outer transaction has ended
(`Weave`). The requests start exactly the rows of the changes they keep (`announces`). So the durable rows are those of
the durable changes iff none of them gets lost on its way: it is executed at a point of the transaction from which on no
open inner transaction is given up, or alone, once the transaction has ended (`outbox_follows_changes_iff`).
-/

namespace BookingSystem.Contracts.OutboxRows

open Base Model Model.BookingsService Model.TenantTx
open Effects Contracts.NestedTx

/-! ### What stays of a sequence of calls -/

section Stays

variable {ω : Type} {cs ds : List (Call ω)} {ws : List ω}

/-- No block that is open before these calls is given up in them. The number counts the blocks that were opened
since. -/
def survives : ℕ → List (Call ω) → Bool
  | _, [] => true
  | n, .write _ :: cs => survives n cs
  | n, .start :: cs => survives (n + 1) cs
  | 0, .commit :: cs => survives 0 cs
  | 0, .rollback :: _ => false
  | n + 1, .commit :: cs | n + 1, .rollback :: cs => survives n cs

def Stays (w : ω) : List (Call ω) → Prop
  | [] => False
  | c :: cs => (c = .write w ∧ survives 0 cs = true) ∨ Stays w cs

theorem nested_append (h : Nested cs ws) (n : ℕ) (ds : List (Call ω)) :
    survives n (cs ++ ds) = survives n ds ∧ balanced n (cs ++ ds) = balanced n ds := by
  induction h generalizing n ds with
  | nil => exact ⟨rfl, rfl⟩
  | write w h ih => exact ih n ds
  | commit h h' ih ih' =>
    rw [List.cons_append, List.append_assoc, survives, balanced, (ih _ _).1, (ih _ _).2]
    exact ih' n ds
  | rollback h h' ih ih' =>
    rw [List.cons_append, List.append_assoc, survives, balanced, (ih _ _).1, (ih _ _).2]
    exact ih' n ds

theorem survives_nested (h : Nested cs ws) (n : ℕ) (ds : List (Call ω)) : survives n (cs ++ ds) = survives n ds :=
  (nested_append h n ds).1

theorem balanced_nested (h : Nested cs ws) (n : ℕ) (ds : List (Call ω)) : balanced n (cs ++ ds) = balanced n ds :=
  (nested_append h n ds).2

theorem stays_append (h : Nested cs ws) (w : ω) (ds : List (Call ω)) :
    Stays w (cs ++ ds) ↔ (w ∈ ws ∧ survives 0 ds = true) ∨ Stays w ds := by
  induction h generalizing ds with
  | nil => simp
  | @write v cs ws h ih =>
    rw [List.cons_append, Stays, ih, survives_nested h, Call.write.injEq, List.mem_cons, or_and_right, or_assoc,
      eq_comm]
  | @commit cs cs' ws ws' h h' ih ih' =>
    have hinner : Stays w (cs ++ (.commit :: (cs' ++ ds))) ↔
        (w ∈ ws ∧ survives 0 (cs' ++ ds) = true) ∨ Stays w (cs' ++ ds) := by
      rw [ih, survives, Stays]
      simp
    rw [List.cons_append, List.append_assoc, List.cons_append, Stays, hinner, ih', survives_nested h', List.mem_append]
    simp only [reduceCtorEq, false_and, false_or]
    rw [← or_assoc, ← or_and_right]
  | @rollback cs cs' ws ws' h h' ih ih' =>
    have hinner : Stays w (cs ++ (.rollback :: (cs' ++ ds))) ↔ Stays w (cs' ++ ds) := by
      rw [ih, survives, Stays]
      simp
    rw [List.cons_append, List.append_assoc, List.cons_append, Stays, hinner, ih']
    simp

theorem mem_iff_stays (h : Nested cs ws) (w : ω) : w ∈ ws ↔ Stays w cs := by
  have happend := stays_append h w []
  rw [List.append_nil] at happend
  rw [happend]
  simp [survives, Stays]

end Stays

/-! ### Schedules -/

section Weave

variable {ω : Type}

/-- What a handler does on its connection: a call that it waits for, or the start of a statement that it does not wait
for. -/
inductive Act (ω : Type)
  | call (c : Call ω)
  | launch (w : ω)

/-- A schedule of a handler: the statements that are on their way, the calls as the connection gets them, and the
statements that are still on their way when the handler is done. -/
inductive Weave : List (Act ω) → List ω → List (Call ω) → List ω → Prop
  | done (late : List ω) : Weave [] late [] late
  | call (c : Call ω) {acts : List (Act ω)} {flight late : List ω} {cs : List (Call ω)}
      (h : Weave acts flight cs late) : Weave (.call c :: acts) flight (c :: cs) late
  | launch (w : ω) {acts : List (Act ω)} {flight late : List ω} {cs : List (Call ω)}
      (h : Weave acts (w :: flight) cs late) : Weave (.launch w :: acts) flight cs late
  | arrive {before after late : List ω} (w : ω) {acts : List (Act ω)} {cs : List (Call ω)}
      (h : Weave acts (before ++ after) cs late) : Weave acts (before ++ w :: after) (.write w :: cs) late

def awaited (acts : List (Act ω)) : List (Call ω) :=
  acts.filterMap fun
    | .call c => some c
    | .launch _ => none

variable {acts : List (Act ω)} {flight late : List ω} {cs : List (Call ω)}

theorem Weave.eq_awaited (h : Weave acts flight cs late) (n : ℕ) :
    balanced n cs = balanced n (awaited acts) ∧ survives n cs = survives n (awaited acts) := by
  induction h generalizing n with
  | done late => exact ⟨rfl, rfl⟩
  | @call c acts flight late cs h ih =>
    cases c with
    | start => exact ih (n + 1)
    | write w => exact ih n
    | commit =>
      cases n with
      | zero => exact ⟨rfl, (ih 0).2⟩
      | succ n => exact ih n
    | rollback =>
      cases n with
      | zero => exact ⟨rfl, rfl⟩
      | succ n => exact ih n
  | launch w h ih => exact ih n
  | arrive w h ih => exact ih n

/-- A row that is written by a statement the handler waits for stays when it does without the others. -/
theorem Weave.stays_iff (h : Weave acts flight cs late) {w : ω} (hflight : w ∉ flight) (hacts : .launch w ∉ acts) :
    Stays w cs ↔ Stays w (awaited acts) := by
  induction h with
  | done late => rfl
  | @call c acts flight late cs h ih =>
    have hrest := ih hflight fun hmem => hacts (List.mem_cons_of_mem _ hmem)
    rw [Stays, (h.eq_awaited _).2, hrest]
    rfl
  | @launch v acts flight late cs h ih =>
    obtain ⟨hne, hacts⟩ := not_or.1 (mt List.mem_cons.2 hacts)
    refine ih (fun hmem => ?_) hacts
    rcases List.mem_cons.1 hmem with rfl | hmem
    · exact hne rfl
    · exact hflight hmem
  | @arrive before after late v acts cs h ih =>
    have hne : v ≠ w := fun heq => hflight (heq ▸ List.mem_append_right _ List.mem_cons_self)
    have hrest : w ∉ before ++ after := fun hmem => by
      rcases List.mem_append.1 hmem with hmem | hmem
      · exact hflight (List.mem_append_left _ hmem)
      · exact hflight (List.mem_append_right _ (List.mem_cons_of_mem _ hmem))
    rw [Stays, ih hrest hacts]
    exact or_iff_right fun heq => hne (Call.write.inj heq.1)

theorem Weave.late_subset (h : Weave acts flight cs late) {w : ω} (hw : w ∈ late) : w ∈ flight ∨ .launch w ∈ acts := by
  induction h with
  | done late => exact .inl hw
  | call c h ih => exact (ih hw).imp_right (List.mem_cons_of_mem _)
  | @launch v acts flight late cs h ih =>
    rcases ih hw with hmem | hmem
    · rcases List.mem_cons.1 hmem with rfl | hmem
      · exact .inr List.mem_cons_self
      · exact .inl hmem
    · exact .inr (List.mem_cons_of_mem _ hmem)
  | @arrive before after late v acts cs h ih =>
    refine (ih hw).imp_left fun hmem => ?_
    rcases List.mem_append.1 hmem with hmem | hmem
    · exact List.mem_append_left _ hmem
    · exact List.mem_append_right _ (List.mem_cons_of_mem _ hmem)

/-- What stays is written by the handler, or was on its way. -/
theorem Weave.stays_subset (h : Weave acts flight cs late) {w : ω} (hw : Stays w cs) :
    w ∈ flight ∨ .launch w ∈ acts ∨ .call (.write w) ∈ acts := by
  induction h with
  | done late => exact hw.elim
  | @call c acts flight late cs h ih =>
    rcases hw with ⟨rfl, -⟩ | hw
    · exact .inr (.inr List.mem_cons_self)
    · exact (ih hw).imp_right (.imp (List.mem_cons_of_mem _) (List.mem_cons_of_mem _))
  | @launch v acts flight late cs h ih =>
    rcases ih hw with hmem | hmem | hmem
    · rcases List.mem_cons.1 hmem with rfl | hmem
      · exact .inr (.inl List.mem_cons_self)
      · exact .inl hmem
    · exact .inr (.inl (List.mem_cons_of_mem _ hmem))
    · exact .inr (.inr (List.mem_cons_of_mem _ hmem))
  | @arrive before after late v acts cs h ih =>
    rcases hw with ⟨hv, -⟩ | hw
    · exact .inl (Call.write.inj hv ▸ List.mem_append_right _ List.mem_cons_self)
    · refine (ih hw).imp_left fun hmem => ?_
      rcases List.mem_append.1 hmem with hmem | hmem
      · exact List.mem_append_left _ hmem
      · exact List.mem_append_right _ (List.mem_cons_of_mem _ hmem)

/-- A schedule of a handler, up to the release of its connection. Of the statements that are late, those in `alone` are
executed after the outer transaction has ended, each in a transaction of its own, and go through; the others are
refused. -/
structure Schedule (acts : List (Act ω)) where
  calls : List (Call ω)
  late : List ω
  alone : List ω
  weave : Weave acts [] calls late
  subperm : alone.Subperm late

def durable (ok : Bool) (s : Schedule acts) : List ω :=
  finish ok [] (Base.run Session.call {} s.calls).pinned ++ s.alone

theorem mem_durable_true {ws : List ω} (h : Nested (awaited acts) ws) (s : Schedule acts) (w : ω) :
    w ∈ durable true s ↔ Stays w s.calls ∨ w ∈ s.alone := by
  have hbalanced : balanced 0 s.calls = true := by
    rw [(s.weave.eq_awaited _).1, ← List.append_nil (awaited acts), balanced_nested h]
    rfl
  obtain ⟨ws', hws'⟩ := exists_nested hbalanced
  have hafter := after_run hws' (s := {}) Int.one_nonneg rfl
  have hfinish : finish true [] (Base.run Session.call {} s.calls).pinned = ws' := by
    rw [finish, if_pos rfl, Tx.committed, hafter.failed, hafter.writes]
    rfl
  rw [durable, hfinish, List.mem_append, mem_iff_stays hws']

end Weave

/-! ### Requests on their connection -/

def actsOf : Piece → List (Act Row)
  | .transaction committed rows =>
    .call .start :: (rows.map (fun row => .call (.write row)) ++ [.call (if committed then .commit else .rollback)])
  | .write row => [.call (.write row)]
  | .launch row => [.launch row]

theorem awaited_append {ω : Type} (as bs : List (Act ω)) : awaited (as ++ bs) = awaited as ++ awaited bs :=
  List.filterMap_append

theorem awaited_transaction (committed : Bool) (rows : List Row) :
    awaited (actsOf (.transaction committed rows)) =
      .start :: (rows.map Call.write ++ [if committed then .commit else .rollback]) := by
  have hbody : awaited (rows.map fun row => Act.call (.write row)) = rows.map Call.write := by
    simp [awaited, List.filterMap_map]
  rw [← hbody, ← List.singleton_append, ← List.singleton_append, actsOf]
  simp [awaited]

theorem nested_piece (p : Piece) : Nested (awaited (actsOf p)) (keptRows p) := by
  cases p with
  | transaction committed rows =>
    rw [awaited_transaction]
    cases committed with
    | true => simpa [keptRows] using Nested.commit (nested_writes rows) .nil
    | false => simpa [keptRows] using Nested.rollback (nested_writes rows) .nil
  | write row => exact .write row .nil
  | launch row => exact .nil

theorem nested_pieces (ps : List Piece) : Nested (awaited (ps.flatMap actsOf)) (ps.flatMap keptRows) := by
  induction ps with
  | nil => exact .nil
  | cons p ps ih =>
    rw [List.flatMap_cons, awaited_append]
    exact (nested_piece p).append ih

def actsOfRequest (env : Env) (now : Instant) (st : Store) (req : Request) : List (Act Row) :=
  (req.pieces env now st).flatMap actsOf

section Placed

variable {ps : List Piece} (h : ∀ p ∈ ps, placed p = true) {row : Row}

include h

theorem not_awaited (hrow : outboxRow row = true) : .call (.write row) ∉ ps.flatMap actsOf := by
  intro hmem
  obtain ⟨p, hp, hmem⟩ := List.mem_flatMap.1 hmem
  have hplaced := h p hp
  cases p with
  | transaction committed rows =>
    have hin : row ∈ rows := by
      cases committed <;> simpa [actsOf] using hmem
    have hnot := List.all_eq_true.1 hplaced row hin
    simp [hrow] at hnot
  | write row' =>
    obtain rfl : row = row' := by simpa [actsOf] using hmem
    simp [placed, hrow] at hplaced
  | launch row' => simp [actsOf] at hmem

theorem not_launched (hrow : outboxRow row = false) : .launch row ∉ ps.flatMap actsOf := by
  intro hmem
  obtain ⟨p, hp, hmem⟩ := List.mem_flatMap.1 hmem
  have hplaced := h p hp
  cases p with
  | transaction committed rows => simp [actsOf] at hmem
  | write row' => simp [actsOf] at hmem
  | launch row' =>
    obtain rfl : row = row' := by simpa [actsOf] using hmem
    rw [placed, hrow] at hplaced
    cases hplaced

end Placed

theorem launch_mem_actsOf {ps : List Piece} {row : Row} : .launch row ∈ ps.flatMap actsOf ↔ .launch row ∈ ps := by
  constructor
  · intro hmem
    obtain ⟨p, hp, hmem⟩ := List.mem_flatMap.1 hmem
    cases p with
    | transaction committed rows => simp [actsOf] at hmem
    | write row' => simp [actsOf] at hmem
    | launch row' =>
      obtain rfl : row = row' := by simpa [actsOf] using hmem
      exact hp
  · exact fun hmem => List.mem_flatMap.2 ⟨_, hmem, List.mem_singleton_self _⟩

/-! ### The outbox and the bookings -/

section Outbox

variable (env : Env) (now : Instant) (st : Store) (req : Request)

/-- There is a durable row of the sync outbox for every durable change, and none for a change that is not durable. -/
def OutboxFollows (s : Schedule (actsOfRequest env now st req)) : Prop :=
  ∀ id event, .booking id event ∈ durable (req.succeeds env now st) s ↔
    .syncOutbox req.tenantId id event ∈ durable (req.succeeds env now st) s

/-- Every row that the request starts to write arrives in time, at a point from which on no open inner transaction is
given up, or goes through alone. -/
def Arrives (s : Schedule (actsOfRequest env now st req)) : Prop :=
  ∀ id event, .launch (.syncOutbox req.tenantId id event) ∈ req.pieces env now st →
    Stays (.syncOutbox req.tenantId id event) s.calls ∨ .syncOutbox req.tenantId id event ∈ s.alone

variable {env now st req} (s : Schedule (actsOfRequest env now st req))

theorem mem_durable (row : Row) :
    row ∈ durable true s ↔ Stays row s.calls ∨ row ∈ s.alone := mem_durable_true (nested_pieces _) s row

theorem booking_mem_durable (id : Uuid) (event : BookingEvent) :
    .booking id event ∈ durable true s ↔ (id, event) ∈ changes (req.pieces env now st) := by
  have hplaced := (announces env now st req).placed
  have hlaunch : .launch (.booking id event) ∉ actsOfRequest env now st req := not_launched hplaced rfl
  have halone : .booking id event ∉ s.alone := fun hmem =>
    (s.weave.late_subset (s.subperm.subset hmem)).elim List.not_mem_nil hlaunch
  rw [mem_durable, or_iff_left halone, s.weave.stays_iff List.not_mem_nil hlaunch, mem_changes]
  exact (mem_iff_stays (nested_pieces _) _).symm

theorem mem_changes_of_outbox {ok : Bool} {id : Uuid} {event : BookingEvent}
    (h : .syncOutbox req.tenantId id event ∈ durable ok s) : (id, event) ∈ changes (req.pieces env now st) := by
  have hannounces := announces env now st req
  have hlaunch : .launch (.syncOutbox req.tenantId id event) ∈ actsOfRequest env now st req := by
    have halone : .syncOutbox req.tenantId id event ∈ s.alone →
        .launch (.syncOutbox req.tenantId id event) ∈ actsOfRequest env now st req := fun hmem =>
      (s.weave.late_subset (s.subperm.subset hmem)).resolve_left List.not_mem_nil
    cases ok with
    | true =>
      rcases (mem_durable s _).1 h with hstays | hmem
      · rcases s.weave.stays_subset hstays with hnil | hmem | hmem
        · cases hnil
        · exact hmem
        · exact absurd hmem (not_awaited hannounces.placed rfl)
      · exact halone hmem
    | false => exact halone h
  rw [hannounces.changes, mem_announced]
  exact launch_mem_actsOf.1 hlaunch

/-- **Outbox rows live and die with their booking change** in exactly the schedules in which every row that the request
starts to write arrives. -/
theorem outbox_follows_changes_iff : OutboxFollows env now st req s ↔ Arrives env now st req s := by
  have hannounced : ∀ id event, (id, event) ∈ changes (req.pieces env now st) ↔
      .launch (.syncOutbox req.tenantId id event) ∈ req.pieces env now st := fun id event => by
    rw [(announces env now st req).changes, mem_announced]
  cases hok : req.succeeds env now st with
  | true =>
    simp only [OutboxFollows, Arrives, hok]
    refine forall₂_congr fun id event => ?_
    rw [booking_mem_durable, hannounced, ← mem_durable]
    exact ⟨fun h => h.1, fun h => ⟨h, fun hmem => (hannounced id event).1 (mem_changes_of_outbox s hmem)⟩⟩
  | false =>
    have hnone := changes_of_failed env now st req hok
    have hleft : OutboxFollows env now st req s := by
      intro id event
      rw [hok]
      refine iff_of_false (fun hmem => ?_) fun hmem => ?_
      · have hlaunch := (s.weave.late_subset (s.subperm.subset hmem)).resolve_left List.not_mem_nil
        exact not_launched (announces env now st req).placed rfl hlaunch
      · have hmem := mem_changes_of_outbox s hmem
        rw [hnone] at hmem
        cases hmem
    refine iff_of_true hleft fun id event hlaunch => ?_
    have hmem := (hannounced id event).2 hlaunch
    rw [hnone] at hmem
    cases hmem

end Outbox

/-! ### A daily meeting -/

def oneRoom : Env := office (.single { id := "r", tenantId := "t" }) .empty .empty

def takenTomorrow : Store :=
  { bookings := ⟨[{ id := "x", tenantId := "t", resourceId := "r", userId := "v", startTime := 90000000,
                    endTime := 93600000, status := .confirmed }], by decide⟩
    steps := .empty
    approvals := [] }

/-- The user `u` books the room for two days, from one o'clock to two. -/
def twoDays : Request :=
  .createSeries "t" "u" { resourceId := "r", startTime := 3600000, endTime := 7200000 } "series"
    [(3600000, 7200000), (90000000, 93600000)] fun i => ⟨"b" ++ toString i, fun _ => "s", "token"⟩

theorem pieces_twoDays :
    twoDays.pieces oneRoom 0 takenTomorrow =
      [.write (.recurrence "series"), .transaction true [.booking "b0" .created], dispatchSync .created "t" "b0",
        .transaction false [], dispatchNotification .created "b0"] := by
  decide +kernel

theorem weave_twoDays :
    Weave (actsOfRequest oneRoom 0 takenTomorrow twoDays) []
      [.write (.recurrence "series"), .start, .write (.booking "b0" .created), .commit, .start,
        .write (.syncOutbox "t" "b0" .created), .rollback] [.notification "b0" .created] := by
  rw [actsOfRequest, pieces_twoDays]
  refine .call _ (.call _ (.call _ (.call _ (.launch _ (.call _ ?_)))))
  exact @Weave.arrive _ [] [] _ _ _ _ (.call _ (.launch _ (.done _)))

/-- The second day cannot be booked, and the row of the first day is given up with it: the first day is booked, and no
calendar hears of it. -/
theorem outbox_row_lost :
    ¬ OutboxFollows oneRoom 0 takenTomorrow twoDays ⟨_, _, [], weave_twoDays, List.nil_subperm⟩ := by
  intro h
  have hok : twoDays.succeeds oneRoom 0 takenTomorrow = true := by decide +kernel
  have hlost := h "b0" .created
  rw [hok] at hlost
  revert hlost
  decide +kernel

end BookingSystem.Contracts.OutboxRows
