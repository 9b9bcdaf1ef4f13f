import BookingSystem.Base.Run
import BookingSystem.Service.Webhooks
import Mathlib.Logic.Function.Basic

/-!
# Attempts side by side

A row is due from the moment it is inserted, and a tick of the retry loop starts an attempt for every row that is due,
whether another attempt of it is under way or not. Each attempt writes the number of attempts that it had read plus one.
So the attempts are counted, and no two run at a time, as long as no tick finds a row due while an attempt of it is
under way, and every attempt posts and writes its row (`counted_once`).
-/

namespace BookingSystem.Concurrency.WebhookRetries

open Base Service
open Model (Uuid Instant)

/-! ### The workers -/

/-- Where an attempt stands: started, waiting for the answer, or about to write what was answered. -/
inductive Stage
  | waiting
  | posting
  | answered (answer : Answer) (answeredAt : Instant)
  deriving DecidableEq, Repr

structure Running where
  job : Attempt
  stage : Stage
  deriving DecidableEq, Repr

/-- The rows, the attempts that are under way in any of the workers, and how often each delivery was posted. -/
structure Dispatch where
  rows : Table Delivery := .empty
  running : List Running := []
  posts : Uuid → ℕ := fun _ => 0

/-- What happens: a row is inserted and its first attempt started, a tick scans the rows, the address of an attempt is
refused, an attempt posts, is answered, writes the row, or ends without having written it. -/
inductive Event
  | enqueue (id tenantId : Uuid) (sub : Subscription) (event payload : String) (now : Instant)
  | tick (subs : Table Subscription) (now : Instant)
  | refuse (a : Attempt) (reason : String) (now : Instant)
  | post (a : Attempt)
  | answer (a : Attempt) (answer : Answer) (now : Instant)
  | record (a : Attempt) (answer : Answer) (answeredAt now : Instant)
  | lose (r : Running)

def step (s : Dispatch) (e : Event) : Dispatch :=
  match e with
  | .enqueue id tenantId sub event payload now =>
    match s.rows.insert? (enqueued id tenantId sub event payload now) with
    | some rows => { s with rows := rows, running := ⟨firstAttempt id sub event payload, .waiting⟩ :: s.running }
    | none => s
  | .tick subs now => { s with running := s.running ++ (retryScan subs now s.rows).map fun a => ⟨a, .waiting⟩ }
  | .refuse a reason now =>
    if ⟨a, .waiting⟩ ∈ s.running then
      { s with
        rows := scheduleRetry a.id (a.priorAttempts + 1) 0 ("ssrf: " ++ reason) now s.rows
        running := s.running.erase ⟨a, .waiting⟩ }
    else s
  | .post a =>
    if ⟨a, .waiting⟩ ∈ s.running then
      { s with
        running := ⟨a, .posting⟩ :: s.running.erase ⟨a, .waiting⟩
        posts := Function.update s.posts a.id (s.posts a.id + 1) }
    else s
  | .answer a ans now =>
    if ⟨a, .posting⟩ ∈ s.running then
      { s with running := ⟨a, .answered ans now⟩ :: s.running.erase ⟨a, .posting⟩ }
    else s
  | .record a ans answeredAt now =>
    if ⟨a, .answered ans answeredAt⟩ ∈ s.running then
      { s with
        rows := recordAnswer a ans answeredAt now s.rows
        running := s.running.erase ⟨a, .answered ans answeredAt⟩ }
    else s
  | .lose r => { s with running := s.running.erase r }

def mine (id : Uuid) (s : Dispatch) : List Running := s.running.filter fun r => decide (r.job.id = id)

/-! ### What is asked of a delivery -/

/-- **A delivery is posted once at a time, and its attempts are counted**: no two POSTs are in flight, none can start
when one that went well has been recorded, there are at most as many as `backoff` is long, and when none is under way
the row says how many there were. -/
structure CountedOnce (id : Uuid) (s : Dispatch) : Prop where
  alone : ((mine id s).filter fun r => decide (r.stage = .posting)).length ≤ 1
  unsent : ∀ r ∈ mine id s, r.stage = .waiting → ∀ d, s.rows.find? id = some d → d.deliveredAt = none
  bounded : s.posts id ≤ backoff.length
  counted : mine id s = [] → ∀ d, s.rows.find? id = some d → d.attemptCount = s.posts id

/-- No tick finds the row due while an attempt of it is under way, and no attempt of it is refused or lost. -/
def Calm (id : Uuid) (s : Dispatch) (e : Event) : Prop :=
  match e with
  | .tick subs now => (∃ a ∈ retryScan subs now s.rows, a.id = id) → mine id s = []
  | .refuse a _ _ => a.id ≠ id
  | .lose r => r.job.id ≠ id
  | _ => True

/-! ### The life of a delivery -/

/-- A delivery that is not there yet, one that rests, and one with an attempt under way. -/
inductive Stands (id : Uuid) (s : Dispatch) : Prop
  | absent (hrow : s.rows.find? id = none) (hmine : mine id s = []) (hposts : s.posts id = 0)
  | resting (d : Delivery) (hrow : s.rows.find? id = some d) (hmine : mine id s = [])
      (hposts : s.posts id = d.attemptCount) (hle : d.attemptCount ≤ 5)
  | trying (d : Delivery) (r : Running) (hrow : s.rows.find? id = some d) (hmine : mine id s = [r])
      (hunsent : d.deliveredAt = none) (hprior : r.job.priorAttempts = d.attemptCount) (hlt : d.attemptCount < 5)
      (hposts : s.posts id = d.attemptCount + if r.stage = .waiting then 0 else 1)

section

variable {id : Uuid} {s s' : Dispatch} {r r' : Running}

theorem Stands.countedOnce (h : Stands id s) : CountedOnce id s := by
  cases h with
  | absent hrow hmine hposts =>
    refine ⟨by simp [hmine], fun r hr => ?_, by simp [hposts], fun _ d hd => ?_⟩
    · rw [hmine] at hr
      exact absurd hr List.not_mem_nil
    · cases hrow.symm.trans hd
  | resting d hrow hmine hposts hle =>
    refine ⟨by simp [hmine], fun r hr => ?_, hposts.trans_le hle, fun _ d' hd' => ?_⟩
    · rw [hmine] at hr
      exact absurd hr List.not_mem_nil
    · obtain rfl := Option.some.inj (hrow.symm.trans hd')
      exact hposts.symm
  | trying d r hrow hmine hunsent hprior hlt hposts =>
    refine ⟨?_, fun _ _ _ d' hd' => ?_, ?_, fun hnone => ?_⟩
    · rw [hmine]
      exact (List.length_filter_le _ _).trans_eq rfl
    · obtain rfl := Option.some.inj (hrow.symm.trans hd')
      exact hunsent
    · rw [hposts, show backoff.length = 5 from rfl]
      split <;> omega
    · rw [hmine] at hnone
      cases hnone

theorem Stands.of_same (h : Stands id s) (hrow : s'.rows.find? id = s.rows.find? id) (hmine : mine id s' = mine id s)
    (hposts : s'.posts id = s.posts id) : Stands id s' := by
  cases h with
  | absent h1 h2 h3 => exact .absent (hrow.trans h1) (hmine.trans h2) (hposts.trans h3)
  | resting d h1 h2 h3 h4 => exact .resting d (hrow.trans h1) (hmine.trans h2) (hposts.trans h3) h4
  | trying d r h1 h2 h3 h4 h5 h6 => exact .trying d r (hrow.trans h1) (hmine.trans h2) h3 h4 h5 (hposts.trans h6)

theorem Stands.of_mem (h : Stands id s) (hr : r ∈ s.running) (hid : r.job.id = id) :
    ∃ d, s.rows.find? id = some d ∧ mine id s = [r] ∧ d.deliveredAt = none ∧ r.job.priorAttempts = d.attemptCount ∧
      d.attemptCount < 5 ∧ s.posts id = d.attemptCount + if r.stage = .waiting then 0 else 1 := by
  have hmem : r ∈ mine id s := List.mem_filter.2 ⟨hr, by simpa using hid⟩
  cases h with
  | absent _ hmine _ => exact absurd (hmine ▸ hmem) List.not_mem_nil
  | resting _ _ hmine _ _ => exact absurd (hmine ▸ hmem) List.not_mem_nil
  | trying d r' hrow hmine hunsent hprior hlt hposts =>
    obtain rfl : r = r' := by simpa [hmine] using hmem
    exact ⟨d, hrow, hmine, hunsent, hprior, hlt, hposts⟩

/-! ### The list of attempts -/

theorem filter_erase_other {rs : List Running} (h : r.job.id ≠ id) :
    (rs.erase r).filter (fun r => decide (r.job.id = id)) = rs.filter fun r => decide (r.job.id = id) := by
  rw [← List.erase_filter]
  refine List.erase_of_not_mem fun hr => h ?_
  simpa using (List.mem_filter.1 hr).2

theorem filter_erase_only {rs : List Running} (h : rs.filter (fun r => decide (r.job.id = id)) = [r]) :
    (rs.erase r).filter (fun r => decide (r.job.id = id)) = [] := by
  rw [← List.erase_filter, h, List.erase_cons_head]

theorem filter_id_of_mem {as : List Attempt} (hnodup : (as.map Attempt.id).Nodup) {a : Attempt} (ha : a ∈ as) :
    as.filter (fun a' => decide (a'.id = a.id)) = [a] := by
  induction as with
  | nil => cases ha
  | cons b as ih =>
    obtain ⟨hb, hnodup⟩ := List.nodup_cons.1 hnodup
    cases ha with
    | head =>
      rw [List.filter_cons_of_pos (by simp), List.filter_eq_nil_iff.2]
      exact fun a' ha' => by simpa using fun hid => hb (List.mem_map.2 ⟨a', ha', hid⟩)
    | tail _ ha =>
      rw [List.filter_cons_of_neg, ih hnodup ha]
      simpa using fun hid => hb (List.mem_map.2 ⟨a, ha, hid.symm⟩)

theorem mine_of_other (h : r.job.id ≠ id) (h' : r'.job.id ≠ id) :
    mine id { s with running := r' :: s.running.erase r } = mine id s := by
  rw [mine, List.filter_cons_of_neg (by simpa using h'), filter_erase_other h]
  rfl

/-! ### What each event does -/

theorem stands_enqueue (h : Stands id s) (id' tenantId : Uuid) (sub : Subscription) (event payload : String)
    (now : Instant) : Stands id (step s (.enqueue id' tenantId sub event payload now)) := by
  dsimp only [step]
  split
  · rename_i _ rows hrows
    have hnew := (Table.insert?_eq_some_iff.1 hrows).1
    by_cases hid : id' = id
    · subst hid
      -- the row was not there, so nothing has been posted yet
      have hrow := (Table.find?_insert? hrows id').trans (if_pos rfl)
      cases h with
      | absent _ hmine hposts =>
        refine .trying _ ⟨firstAttempt id' sub event payload, .waiting⟩ hrow ?_ rfl rfl (by simp [enqueued])
          (by simpa [enqueued] using hposts)
        rw [mine, List.filter_cons_of_pos (by simp [firstAttempt])]
        exact congrArg (List.cons _) hmine
      | resting _ hold => cases hnew.symm.trans hold
      | trying _ _ hold => cases hnew.symm.trans hold
    · refine h.of_same ((Table.find?_insert? hrows id).trans (if_neg hid)) ?_ rfl
      rw [mine, List.filter_cons_of_neg (by simp [firstAttempt, hid])]
      rfl
  · exact h

theorem mine_tick (subs : Table Subscription) (now : Instant) : mine id (step s (.tick subs now)) = mine id s ++
    ((retryScan subs now s.rows).filter fun a => decide (a.id = id)).map fun a => ⟨a, .waiting⟩ := by
  simp only [mine, step, List.filter_append, List.filter_map]
  rfl

/-- A tick starts nothing of a delivery that is not due, and one attempt of one that rests and is due. -/
theorem stands_tick (h : Stands id s) {subs : Table Subscription} {now : Instant}
    (hcalm : Calm id s (.tick subs now)) : Stands id (step s (.tick subs now)) := by
  have hmine : mine id (step s (.tick subs now)) = _ := mine_tick subs now
  by_cases hscan : ∃ a ∈ retryScan subs now s.rows, a.id = id
  · obtain ⟨a, ha, rfl⟩ := hscan
    obtain ⟨d, hrow, hdue, hprior⟩ := row_of_retryScan ha
    have honly : (retryScan subs now s.rows).filter (fun a' => decide (a'.id = a.id)) = [a] :=
      filter_id_of_mem (nodup_retryScan subs now s.rows) ha
    rw [hcalm ⟨a, ha, rfl⟩, honly] at hmine
    simp only [Delivery.due, Bool.and_eq_true, Option.isNone_iff_eq_none, decide_eq_true_eq] at hdue
    cases h with
    | absent hnone => cases hnone.symm.trans hrow
    | resting d' hrow' _ hposts =>
      obtain rfl := Option.some.inj (hrow.symm.trans hrow')
      exact .trying d _ hrow hmine hdue.1.1 hprior hdue.1.2 hposts
    | trying _ _ _ hbusy =>
      rw [hcalm ⟨a, ha, rfl⟩] at hbusy
      cases hbusy
  · have hnone : (retryScan subs now s.rows).filter (fun a => decide (a.id = id)) = [] := by
      rw [List.filter_eq_nil_iff]
      exact fun a ha => by simpa using fun hid => hscan ⟨a, ha, hid⟩
    rw [hnone] at hmine
    exact h.of_same rfl (hmine.trans (List.append_nil _)) rfl

theorem stands_post (h : Stands id s) (a : Attempt) : Stands id (step s (.post a)) := by
  dsimp only [step]
  split
  · rename_i hmem
    by_cases hid : a.id = id
    · obtain ⟨d, hrow, hmine, hunsent, hprior, hlt, hposts⟩ := h.of_mem hmem hid
      refine .trying d ⟨a, .posting⟩ hrow ?_ hunsent hprior hlt ?_
      · rw [mine, List.filter_cons_of_pos (by simpa using hid), filter_erase_only hmine]
      · rw [if_pos rfl] at hposts
        rw [if_neg nofun, hid]
        exact (Function.update_self ..).trans (congrArg (· + 1) hposts)
    · refine h.of_same rfl ?_ (Function.update_of_ne (Ne.symm hid) _ _)
      have hr : (⟨a, .waiting⟩ : Running).job.id ≠ id := hid
      have hr' : (⟨a, .posting⟩ : Running).job.id ≠ id := hid
      exact mine_of_other hr hr'
  · exact h

theorem stands_answer (h : Stands id s) (a : Attempt) (ans : Answer) (now : Instant) :
    Stands id (step s (.answer a ans now)) := by
  dsimp only [step]
  split
  · rename_i hmem
    by_cases hid : a.id = id
    · obtain ⟨d, hrow, hmine, hunsent, hprior, hlt, hposts⟩ := h.of_mem hmem hid
      refine .trying d ⟨a, .answered ans now⟩ hrow ?_ hunsent hprior hlt ?_
      · rw [mine, List.filter_cons_of_pos (by simpa using hid), filter_erase_only hmine]
      · rw [if_neg nofun] at hposts ⊢
        exact hposts
    · have hr : (⟨a, .posting⟩ : Running).job.id ≠ id := hid
      have hr' : (⟨a, .answered ans now⟩ : Running).job.id ≠ id := hid
      exact h.of_same rfl (mine_of_other hr hr') rfl
  · exact h

theorem stands_record (h : Stands id s) (a : Attempt) (ans : Answer) (answeredAt now : Instant) :
    Stands id (step s (.record a ans answeredAt now)) := by
  dsimp only [step]
  split
  · rename_i hmem
    by_cases hid : a.id = id
    · obtain ⟨d, hrow, hmine, -, hprior, hlt, hposts⟩ := h.of_mem hmem hid
      subst hid
      have hfound : ∃ d', (recordAnswer a ans answeredAt now s.rows).find? a.id = some d' ∧
          d'.attemptCount = a.priorAttempts + 1 := find?_recordAnswer hrow
      obtain ⟨d', hrow', hcount⟩ := hfound
      rw [if_neg nofun] at hposts
      have hprior : a.priorAttempts = d.attemptCount := hprior
      exact .resting d' hrow' (filter_erase_only hmine) (by rw [hcount, hprior]; exact hposts) (by omega)
    · exact h.of_same (find?_recordAnswer_of_ne (Ne.symm hid))
        (filter_erase_other (r := ⟨a, .answered ans answeredAt⟩) hid) rfl
  · exact h

theorem stands_refuse (h : Stands id s) {a : Attempt} (hid : a.id ≠ id) (reason : String) (now : Instant) :
    Stands id (step s (.refuse a reason now)) := by
  dsimp only [step]
  split
  · obtain ⟨next, hrow⟩ := find?_scheduleRetry a.id (a.priorAttempts + 1) 0 ("ssrf: " ++ reason) now s.rows id
    exact h.of_same (hrow.trans (if_neg (Ne.symm hid))) (filter_erase_other (r := ⟨a, .waiting⟩) hid) rfl
  · exact h

theorem stands_step (e : Event) (h : Stands id s) (hcalm : Calm id s e) : Stands id (step s e) := by
  cases e with
  | enqueue id' tenantId sub event payload now => exact stands_enqueue h id' tenantId sub event payload now
  | tick subs now => exact stands_tick h hcalm
  | refuse a reason now => exact stands_refuse h hcalm reason now
  | post a => exact stands_post h a
  | answer a ans now => exact stands_answer h a ans now
  | record a ans answeredAt now => exact stands_record h a ans answeredAt now
  | lose r => exact h.of_same rfl (filter_erase_other hcalm) rfl

end

/-- **Attempts are counted.** In every run in which no tick finds the row of a delivery due while an attempt of it is
under way, and no attempt of it is refused or lost, the delivery is posted once at a time and every POST is counted. -/
theorem counted_once (id : Uuid) (es : List Event) (h : AllSteps step (Calm id) {} es) :
    CountedOnce id (run step {} es) := by
  have hstart : Stands id {} := .absent rfl rfl rfl
  exact (run_invariant (I := Stands id) (fun _ e hs hcalm => stands_step e hs hcalm) hstart h).countedOnce

/-! ### One delivery -/

def hook : Subscription := { id := "s", targetUrl := "https://example.com/hook", secret := "k" }

def hooks : Table Subscription := ⟨[hook], by decide⟩

def created : Event := .enqueue "d" "t" hook "booking.created" "b" 0

def first : Attempt := firstAttempt "d" hook "booking.created" "b"

def patient : List Event :=
  [created, .post first, .answer first (.response 503 "") 1, .record first (.response 503 "") 1 2, .tick hooks 30001,
    .post { first with priorAttempts := 1 }, .answer { first with priorAttempts := 1 } (.response 200 "ok") 30002,
    .record { first with priorAttempts := 1 } (.response 200 "ok") 30002 30003]

theorem counted_once_patient : CountedOnce "d" (run step {} patient) ∧ (run step {} patient).posts "d" = 2 :=
  ⟨counted_once "d" patient
    ⟨trivial, trivial, trivial, trivial, fun _ => by decide, trivial, trivial, trivial, trivial⟩, by decide⟩

/-- The ticks of two workers find the row while its first attempt is about to post. -/
def hasty : List Event :=
  [created, .tick hooks 0, .tick hooks 0, .post first, .post first, .answer first (.response 200 "ok") 1,
    .record first (.response 200 "ok") 1 2, .post first, .answer first (.response 200 "ok") 3,
    .record first (.response 200 "ok") 3 4, .answer first (.response 200 "ok") 3,
    .record first (.response 200 "ok") 3 5]

/-- Two POSTs are in flight, a third starts when the first has been recorded as delivered, and the row counts one. -/
theorem posted_thrice :
    ((mine "d" (run step {} (hasty.take 5))).filter fun r => decide (r.stage = .posting)).length = 2 ∧
      ((run step {} (hasty.take 7)).rows.find? "d").bind Delivery.deliveredAt = some 2 ∧
      ⟨first, .waiting⟩ ∈ (run step {} (hasty.take 7)).running ∧
      mine "d" (run step {} hasty) = [] ∧ (run step {} hasty).posts "d" = 3 ∧
      ((run step {} hasty).rows.find? "d").map Delivery.attemptCount = some 1 := by
  decide

end BookingSystem.Concurrency.WebhookRetries
