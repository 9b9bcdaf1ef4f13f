import BookingSystem.Base.Answers
import BookingSystem.Service.RateLimits
import Mathlib.Data.List.Induction

/-!
# The limiter over a run

A ledger that forgets nothing but what is reset: every granted hit of a key, and its last lock. The limiter has of it
what still counts (`Keeps`), whatever was trimmed or collected, so it answers as the ledger does, and the ledger has no
use for the collector. That no interval as long as the window has more granted hits than the limit is a fact about the
ledger (`ledger_counts`); that a lock holds is one about the buckets (`refused_of_locks`).
-/

namespace BookingSystem.Runs.LoginLimits

open Function (update update_of_ne update_self)
open Base (InTime answers answers_append answers_eq_of_related answers_filter length_answers run)
open Service.RateLimits (Bucket RateLimiter)

variable {κ : Type} [DecidableEq κ] (rl : RateLimiter)

inductive Op (κ : Type) where
  | allow (key : κ)
  | reset (key : κ)
  | gc

abbrev Event (κ : Type) := ℤ × Op κ

abbrev Answer := Bool × ℤ

def step (buckets : κ → Option Bucket) : Event κ → (κ → Option Bucket) × Option Answer
  | (now, .allow key) => ((rl.allow buckets now key).1, some (rl.allow buckets now key).2)
  | (_, .reset key) => (RateLimiter.reset buckets key, none)
  | (now, .gc) => (rl.gc buckets now, none)

def isGc (e : Event κ) : Bool :=
  match e.2 with
  | .gc => true
  | _ => false

/-- The answers to the calls of a run from no buckets. -/
def given (trace : List (Event κ)) : List (Option Answer) := answers (step rl) (fun _ => none) trace

/-! ### The ledger -/

structure Entry where
  granted : List ℤ
  lock : Option ℤ

def Entry.empty : Entry := ⟨[], none⟩

def activeLock (now : ℤ) (lock : Option ℤ) : Option ℤ := lock.filter fun u => decide (now < u)

def within (window now : ℤ) (hits : List ℤ) : List ℤ := hits.filter fun t => decide (t > now - window)

def ledgerAllow (e : Entry) (now : ℤ) : Entry × Answer :=
  match activeLock now e.lock with
  | some u => (e, (false, u - now))
  | none =>
    if ((within rl.window now e.granted).length : ℤ) ≥ rl.limit then
      (⟨e.granted, some (now + rl.lockout)⟩, (false, rl.lockout))
    else (⟨e.granted ++ [now], e.lock⟩, (true, 0))

def ledgerStep (ledger : κ → Entry) : Event κ → (κ → Entry) × Option Answer
  | (now, .allow key) =>
    (update ledger key (ledgerAllow rl (ledger key) now).1, some (ledgerAllow rl (ledger key) now).2)
  | (_, .reset key) => (update ledger key .empty, none)
  | (_, .gc) => (ledger, none)

/-- The bucket has of the entry what still counts. -/
structure Keeps (now : ℤ) (b : Bucket) (e : Entry) : Prop where
  hits : within rl.window now b.hits = within rl.window now e.granted
  lock : activeLock now b.lockedUntil = activeLock now e.lock
  sorted : b.hits.Pairwise (· ≤ ·)
  past : ∀ t ∈ b.hits, t ≤ now

def bucketOf (b : Option Bucket) : Bucket := b.getD ⟨[], none⟩

def KeepsAll (now : ℤ) (buckets : κ → Option Bucket) (ledger : κ → Entry) : Prop :=
  ∀ k, Keeps rl now (bucketOf (buckets k)) (ledger k)

section Keeps

variable {rl} {now : ℤ} {b : Bucket} {e : Entry}

theorem keeps_empty : Keeps rl now ⟨[], none⟩ .empty := ⟨rfl, rfl, .nil, nofun⟩

theorem within_later {w t t' : ℤ} (h : t ≤ t') (hits : List ℤ) : within w t' (within w t hits) = within w t' hits := by
  rw [within, within, within, List.filter_filter]
  refine List.filter_congr fun x _ => ?_
  by_cases hx : x > t' - w
  · simp [hx, show x > t - w by omega]
  · simp [hx]

theorem activeLock_later {t t' : ℤ} (h : t ≤ t') (lock : Option ℤ) :
    activeLock t' (activeLock t lock) = activeLock t' lock := by
  cases lock with
  | none => rfl
  | some u =>
    by_cases hu : t < u
    · simp [activeLock, Option.filter_some, hu]
    · have hu' : ¬ t' < u := by omega
      simp [activeLock, Option.filter_some, hu, hu']

theorem Keeps.later {now' : ℤ} (hnow : now ≤ now') (h : Keeps rl now b e) : Keeps rl now' b e where
  hits := by rw [← within_later hnow, h.hits, within_later hnow]
  lock := by rw [← activeLock_later hnow, h.lock, activeLock_later hnow]
  sorted := h.sorted
  past t ht := (h.past t ht).trans hnow

/-- What a call does with the bucket of its key. -/
def bucketAllow (rl : RateLimiter) (b : Bucket) (now : ℤ) : Bucket × Answer :=
  match activeLock now b.lockedUntil with
  | some u => (b, (false, u - now))
  | none =>
    if ((within rl.window now b.hits).length : ℤ) ≥ rl.limit then
      (⟨within rl.window now b.hits, some (now + rl.lockout)⟩, (false, rl.lockout))
    else (⟨within rl.window now b.hits ++ [now], b.lockedUntil⟩, (true, 0))

theorem allow_eq (rl : RateLimiter) (buckets : κ → Option Bucket) (now : ℤ) (key : κ) :
    rl.allow buckets now key =
      (update buckets key (some (bucketAllow rl (bucketOf (buckets key)) now).1),
        (bucketAllow rl (bucketOf (buckets key)) now).2) := by
  unfold RateLimiter.allow bucketAllow
  dsimp only
  change (match activeLock now (bucketOf (buckets key)).lockedUntil with | some u => _ | none => _) = _
  cases activeLock now (bucketOf (buckets key)).lockedUntil with
  | some u => rfl
  | none =>
    change (if ((within rl.window now (bucketOf (buckets key)).hits).length : ℤ) ≥ rl.limit then _ else _) = _
    dsimp only
    split
    · rfl
    · rfl

theorem Keeps.allow (h : Keeps rl now b e) :
    (bucketAllow rl b now).2 = (ledgerAllow rl e now).2 ∧
      Keeps rl now (bucketAllow rl b now).1 (ledgerAllow rl e now).1 := by
  have hsorted : (within rl.window now b.hits).Pairwise (· ≤ ·) := h.sorted.filter _
  have hpast : ∀ t ∈ within rl.window now b.hits, t ≤ now := fun t ht => h.past t (List.mem_filter.1 ht).1
  have hself : within rl.window now (within rl.window now b.hits) = within rl.window now b.hits :=
    within_later le_rfl _
  unfold bucketAllow ledgerAllow
  rw [← h.lock, ← h.hits]
  cases activeLock now b.lockedUntil with
  | some u => exact ⟨rfl, h⟩
  | none =>
    dsimp only
    split
    · exact ⟨rfl, hself.trans h.hits, rfl, hsorted, hpast⟩
    · refine ⟨rfl, ?_, h.lock, ?_, ?_⟩
      · dsimp only
        unfold within at hself ⊢
        rw [List.filter_append, List.filter_append, hself]
        exact congrArg (· ++ _) h.hits
      · exact List.pairwise_append.2 ⟨hsorted, List.pairwise_singleton _ _, fun t ht u hu => by
          rw [List.mem_singleton.1 hu]
          exact hpast t ht⟩
      · intro t ht
        obtain ht | ht := List.mem_append.1 ht
        · exact hpast t ht
        · exact (List.mem_singleton.1 ht).le

theorem Keeps.collected (h : Keeps rl now b e) (hb : rl.collectable now b = true) : Keeps rl now ⟨[], none⟩ e := by
  obtain ⟨hlock, hlast⟩ := Bool.and_eq_true_iff.1 hb
  refine ⟨?_, ?_, .nil, nofun⟩
  · rw [← h.hits]
    obtain ⟨t, ht, hold⟩ := (Option.any_eq_true _ _).1 hlast
    have hold := of_decide_eq_true hold
    obtain ⟨init, hinit⟩ := List.getLast?_eq_some_iff.1 ht
    refine (List.filter_eq_nil_iff.2 fun u hu => ?_).symm
    have hle : u ≤ t := by
      rw [hinit] at hu
      obtain hu | hu := List.mem_append.1 hu
      · exact (List.pairwise_append.1 (hinit ▸ h.sorted)).2.2 u hu t (List.mem_singleton_self t)
      · exact (List.mem_singleton.1 hu).le
    simp only [decide_eq_true_eq]
    omega
  · rw [← h.lock]
    cases hu : b.lockedUntil with
    | none => rfl
    | some u =>
      rw [hu] at hlock
      have hpassed : now > u := by simpa using hlock
      have hnot : ¬ now < u := by omega
      simp [activeLock, Option.filter_some, hnot]

end Keeps

section KeepsAll

variable {rl} {now : ℤ} {buckets : κ → Option Bucket} {ledger : κ → Entry}

omit [DecidableEq κ] in
theorem keepsAll_initial : KeepsAll rl now (fun _ : κ => none) fun _ => .empty := fun _ => keeps_empty

theorem KeepsAll.update (h : KeepsAll rl now buckets ledger) (key : κ) {b : Option Bucket} {e : Entry}
    (hb : Keeps rl now (bucketOf b) e) :
    KeepsAll rl now (update buckets key b) (update ledger key e) := by
  intro k
  by_cases hk : k = key
  · subst hk
    rw [update_self, update_self]
    exact hb
  · rw [update_of_ne hk, update_of_ne hk]
    exact h k

omit [DecidableEq κ] in
theorem KeepsAll.gc (h : KeepsAll rl now buckets ledger) : KeepsAll rl now (rl.gc buckets now) ledger := by
  intro k
  unfold RateLimiter.gc
  cases hb : buckets k with
  | none =>
    have hk := h k
    rw [hb] at hk
    exact hk
  | some b =>
    have hk : Keeps rl now b (ledger k) := by
      have hk := h k
      rw [hb] at hk
      exact hk
    cases hc : rl.collectable now b with
    | true =>
      rw [Option.filter_some, if_neg (by simp [hc])]
      exact hk.collected hc
    | false =>
      rw [Option.filter_some, if_pos (by simp [hc])]
      exact hk

theorem KeepsAll.step {e : Event κ} (h : KeepsAll rl e.1 buckets ledger) :
    (step rl buckets e).2 = (ledgerStep rl ledger e).2 ∧
      KeepsAll rl e.1 (step rl buckets e).1 (ledgerStep rl ledger e).1 := by
  obtain ⟨now, op⟩ := e
  cases op with
  | allow key =>
    obtain ⟨hanswer, hkeeps⟩ := (h key).allow
    rw [LoginLimits.step, ledgerStep, allow_eq]
    exact ⟨congrArg some hanswer, h.update key hkeeps⟩
  | reset key => exact ⟨rfl, h.update key keeps_empty⟩
  | gc => exact ⟨rfl, h.gc⟩

end KeepsAll

variable {rl}

theorem given_eq {trace : List (Event κ)} (h : InTime Prod.fst trace) :
    given rl trace = answers (ledgerStep rl) (fun _ => .empty) trace :=
  answers_eq_of_related (R := KeepsAll rl) (fun ht hR k => (hR k).later ht) KeepsAll.step h fun _ _ => keepsAll_initial

theorem given_without_gc {trace : List (Event κ)} (h : InTime Prod.fst trace) :
    (given rl (trace.filter fun e => !isGc e)).reduceOption = (given rl trace).reduceOption := by
  rw [given_eq h, given_eq (h.filter _)]
  refine answers_filter (fun ledger e he => ?_) _ _
  obtain ⟨now, op⟩ := e
  cases op with
  | gc => rfl
  | allow key => cases he
  | reset key => cases he

/-! ### Granted hits -/

/-- A call for the key that is answered with true. -/
def grants (key : κ) (x : Event κ × Option Answer) : Bool :=
  match x.1.2, x.2 with
  | .allow k, some (true, _) => decide (k = key)
  | _, _ => false

/-- How many calls for the key return true after one time and up to another. -/
def grantedIn (key : κ) (lo hi : ℤ) (trace : List (Event κ)) (as : List (Option Answer)) : ℕ :=
  (trace.zip as).countP fun x => grants key x && decide (lo < x.1.1 ∧ x.1.1 ≤ hi)

theorem grantedIn_concat (key : κ) (lo hi : ℤ) {trace : List (Event κ)} {as : List (Option Answer)}
    (h : trace.length = as.length) (e : Event κ) (a : Option Answer) :
    grantedIn key lo hi (trace ++ [e]) (as ++ [a]) =
      grantedIn key lo hi trace as + if grants key (e, a) && decide (lo < e.1 ∧ e.1 ≤ hi) then 1 else 0 := by
  rw [grantedIn, List.zip_append h, List.countP_append]
  simp [grantedIn, List.countP_cons]

variable (rl) in
/-- The ledger after a run. -/
def ledgerOf (trace : List (Event κ)) : κ → Entry := run (fun s e => (ledgerStep rl s e).1) (fun _ => .empty) trace

theorem ledgerOf_concat (trace : List (Event κ)) (e : Event κ) :
    ledgerOf rl (trace ++ [e]) = (ledgerStep rl (ledgerOf rl trace) e).1 := by
  rw [ledgerOf, Base.run_append]
  rfl

variable (rl) in
/-- What a step can do with the granted hits of a key. -/
theorem ledgerStep_cases (ledger : κ → Entry) (e : Event κ) (key : κ) :
    (((ledgerStep rl ledger e).1 key).granted = (ledger key).granted ∧
        grants key (e, (ledgerStep rl ledger e).2) = false) ∨
      (e.2 = .reset key ∧ ((ledgerStep rl ledger e).1 key).granted = [] ∧
        grants key (e, (ledgerStep rl ledger e).2) = false) ∨
      (((within rl.window e.1 (ledger key).granted).length : ℤ) < rl.limit ∧
        ((ledgerStep rl ledger e).1 key).granted = (ledger key).granted ++ [e.1] ∧
        grants key (e, (ledgerStep rl ledger e).2) = true) := by
  obtain ⟨now, op⟩ := e
  cases op with
  | gc => exact .inl ⟨rfl, rfl⟩
  | reset k =>
    by_cases hk : key = k
    · subst hk
      refine .inr (.inl ⟨rfl, ?_, rfl⟩)
      dsimp only [ledgerStep]
      rw [update_self]
      rfl
    · refine .inl ⟨?_, rfl⟩
      dsimp only [ledgerStep]
      rw [update_of_ne hk]
  | allow k =>
    by_cases hk : key = k
    · subst hk
      dsimp only [ledgerStep]
      rw [update_self]
      unfold ledgerAllow
      split
      · exact .inl ⟨rfl, rfl⟩
      · split
        · exact .inl ⟨rfl, rfl⟩
        · rename_i hroom
          exact .inr (.inr ⟨not_le.1 hroom, rfl, by simp [grants]⟩)
    · refine .inl ⟨?_, ?_⟩
      · dsimp only [ledgerStep]
        rw [update_of_ne hk]
      · unfold grants
        dsimp only [ledgerStep]
        split
        · rename_i heq _
          obtain rfl : k = _ := by injection heq
          exact decide_eq_false (Ne.symm hk)
        · rfl

theorem mem_granted {trace : List (Event κ)} {key : κ} {t : ℤ} (ht : t ∈ (ledgerOf rl trace key).granted) :
    ∃ e ∈ trace, e.1 = t := by
  induction trace using List.reverseRecOn with
  | nil => cases ht
  | append_singleton trace e ih =>
    rw [ledgerOf_concat] at ht
    obtain ⟨hsame, -⟩ | ⟨-, hnil, -⟩ | ⟨-, hmore, -⟩ := ledgerStep_cases rl (ledgerOf rl trace) e key
    · obtain ⟨e', he', heq⟩ := ih (hsame ▸ ht)
      exact ⟨e', List.mem_append_left _ he', heq⟩
    · rw [hnil] at ht
      cases ht
    · rw [hmore] at ht
      obtain ht | ht := List.mem_append.1 ht
      · obtain ⟨e', he', heq⟩ := ih ht
        exact ⟨e', List.mem_append_left _ he', heq⟩
      · exact ⟨e, List.mem_append_right _ (List.mem_singleton_self e), (List.mem_singleton.1 ht).symm⟩

/-- An interval has no more granted hits than the limit, and as many as the ledger as long as it goes on: what is within
the interval is within the window of a call in it. -/
theorem ledger_counts {trace : List (Event κ)} (h : InTime Prod.fst trace) {key : κ} {lo : ℤ}
    (hreset : ∀ e ∈ trace, lo < e.1 → e.1 ≤ lo + rl.window → e.2 ≠ .reset key) :
    grantedIn key lo (lo + rl.window) trace (answers (ledgerStep rl) (fun _ => .empty) trace) ≤ rl.limit.toNat ∧
      ((∀ e ∈ trace, e.1 ≤ lo + rl.window) →
        grantedIn key lo (lo + rl.window) trace (answers (ledgerStep rl) (fun _ => .empty) trace) =
          ((ledgerOf rl trace key).granted.filter fun t => decide (lo < t)).length) := by
  induction trace using List.reverseRecOn with
  | nil => exact ⟨Nat.zero_le _, fun _ => rfl⟩
  | append_singleton trace e ih =>
    obtain ⟨hbefore, -, horder⟩ := List.pairwise_append.1 h
    obtain ⟨hle, heq⟩ := ih hbefore fun e' he' => hreset e' (List.mem_append_left _ he')
    have hpast : ∀ e' ∈ trace, e'.1 ≤ e.1 := fun e' he' => horder e' he' e (List.mem_singleton_self e)
    rw [answers_append, answers, answers, grantedIn_concat _ _ _ (length_answers _ _ _).symm, ledgerOf_concat]
    change _ + (if grants key (e, (ledgerStep rl (ledgerOf rl trace) e).2) && _ then 1 else 0) ≤ _ ∧
      (_ → _ + (if grants key (e, (ledgerStep rl (ledgerOf rl trace) e).2) && _ then 1 else 0) = _)
    by_cases hover : lo + rl.window < e.1
    · -- The interval is over.
      have hnot : ¬ (lo < e.1 ∧ e.1 ≤ lo + rl.window) := fun h => absurd hover (not_lt.2 h.2)
      simp only [hnot, decide_false, Bool.and_false, Bool.false_eq_true, if_false, Nat.add_zero]
      exact ⟨hle, fun hall => absurd hover (not_lt.2 (hall e (List.mem_append_right _ (List.mem_singleton_self e))))⟩
    · have hwithin : ∀ e' ∈ trace, e'.1 ≤ lo + rl.window := fun e' he' => (hpast e' he').trans (not_lt.1 hover)
      have heq := heq hwithin
      obtain ⟨hsame, hno⟩ | ⟨hres, hnil, hno⟩ | ⟨hroom, hmore, hyes⟩ :=
        ledgerStep_cases rl (ledgerOf rl trace) e key
      · rw [hno, hsame]
        simp only [Bool.false_and, Bool.false_eq_true, if_false, Nat.add_zero]
        exact ⟨hle, fun _ => heq⟩
      · -- A reset comes before the interval, and so does all that it forgets.
        have hearly : e.1 ≤ lo := by
          by_contra hlate
          exact hreset e (List.mem_append_right _ (List.mem_singleton_self e)) (not_le.1 hlate) (not_lt.1 hover) hres
        rw [hno, hnil]
        simp only [Bool.false_and, Bool.false_eq_true, if_false, Nat.add_zero]
        refine ⟨hle, fun _ => heq.trans ?_⟩
        rw [List.filter_eq_nil_iff.2 fun t ht => ?_]
        · rfl
        · obtain ⟨e', he', rfl⟩ := mem_granted ht
          simp only [decide_eq_true_eq]
          exact not_lt.2 ((hpast e' he').trans hearly)
      · have hless : ((ledgerOf rl trace key).granted.filter fun t => decide (lo < t)).length ≤
            (within rl.window e.1 (ledgerOf rl trace key).granted).length := by
          refine (List.monotone_filter_right _ fun t ht => ?_).length_le
          have hlate : lo < t := of_decide_eq_true ht
          exact decide_eq_true (by omega)
        rw [hyes, hmore, List.filter_append, List.length_append]
        by_cases hinside : lo < e.1
        · simp only [hinside, not_lt.1 hover, and_self, decide_true, Bool.and_self, if_true, List.filter_cons_of_pos,
            List.filter_nil, List.length_singleton]
          exact ⟨by omega, fun _ => by rw [heq]⟩
        · simp only [hinside, false_and, decide_false, Bool.and_false, Bool.false_eq_true, if_false, Nat.add_zero,
            not_false_eq_true, List.filter_cons_of_neg, List.filter_nil, List.length_nil]
          exact ⟨hle, fun _ => heq⟩

/-! ### Locks -/

variable (rl) in
/-- The buckets after a run. -/
def after (trace : List (Event κ)) : κ → Option Bucket := run (fun s e => (step rl s e).1) (fun _ => none) trace

variable (rl) in
/-- A call that finds no lock and is refused sets one. -/
def Locks (buckets : κ → Option Bucket) (now : ℤ) (key : κ) : Prop :=
  activeLock now (bucketOf (buckets key)).lockedUntil = none ∧ (rl.allow buckets now key).2.1 = false

theorem bucketAllow_locked {b : Bucket} {now u : ℤ} (hlock : b.lockedUntil = some u) (hu : now < u) :
    bucketAllow rl b now = (b, (false, u - now)) := by
  simp [bucketAllow, activeLock, Option.filter_some, hlock, hu]

theorem lock_step {buckets : κ → Option Bucket} {key : κ} {u : ℤ}
    (h : ∃ b, buckets key = some b ∧ b.lockedUntil = some u) {e : Event κ} (hreset : e.2 ≠ .reset key) (hu : e.1 < u) :
    ∃ b, (step rl buckets e).1 key = some b ∧ b.lockedUntil = some u := by
  obtain ⟨b, hb, hlock⟩ := h
  obtain ⟨now, op⟩ := e
  have hu : now < u := hu
  cases op with
  | allow k =>
    dsimp only [step]
    rw [allow_eq]
    dsimp only
    by_cases hk : key = k
    · subst hk
      rw [update_self, hb, show bucketOf (some b) = b from rfl, bucketAllow_locked hlock hu]
      exact ⟨b, rfl, hlock⟩
    · rw [update_of_ne hk]
      exact ⟨b, hb, hlock⟩
  | reset k =>
    have hk : key ≠ k := fun h => hreset (by rw [h])
    exact ⟨b, (update_of_ne hk _ _).trans hb, hlock⟩
  | gc =>
    have hkeep : rl.collectable now b = false := by
      have hnot : ¬ u < now := by omega
      simp [RateLimiter.collectable, hlock, hnot]
    refine ⟨b, ?_, hlock⟩
    dsimp only [step, RateLimiter.gc]
    rw [hb, Option.filter_some, if_pos (by rw [hkeep]; rfl)]

theorem lock_run {buckets : κ → Option Bucket} {key : κ} {u : ℤ}
    (h : ∃ b, buckets key = some b ∧ b.lockedUntil = some u) {between : List (Event κ)}
    (hreset : ∀ e ∈ between, e.2 ≠ .reset key) (hu : ∀ e ∈ between, e.1 < u) :
    ∃ b, run (fun s e => (step rl s e).1) buckets between key = some b ∧ b.lockedUntil = some u := by
  induction between generalizing buckets with
  | nil => exact h
  | cons e between ih =>
    rw [Base.run_cons]
    exact ih (lock_step h (hreset e List.mem_cons_self) (hu e List.mem_cons_self))
      (fun e' he' => hreset e' (List.mem_cons_of_mem _ he')) fun e' he' => hu e' (List.mem_cons_of_mem _ he')

theorem lock_of_locks {buckets : κ → Option Bucket} {key : κ} {now : ℤ} (h : Locks rl buckets now key) :
    ∃ b, (step rl buckets (now, .allow key)).1 key = some b ∧ b.lockedUntil = some (now + rl.lockout) := by
  obtain ⟨hfree, hrefused⟩ := h
  dsimp only [step]
  rw [allow_eq] at hrefused ⊢
  dsimp only at hrefused ⊢
  rw [update_self]
  refine ⟨_, rfl, ?_⟩
  unfold bucketAllow at hrefused ⊢
  rw [hfree] at hrefused ⊢
  dsimp only at hrefused ⊢
  split at hrefused
  · rename_i hfull
    rw [if_pos hfull]
  · cases hrefused

theorem refused_of_locks {before between : List (Event κ)} {t u : ℤ} {key : κ}
    (hlocks : Locks rl (after rl before) t key) (hreset : ∀ e ∈ between, e.2 ≠ .reset key)
    (htime : ∀ e ∈ between, e.1 ≤ u) (hu : u < t + rl.lockout) :
    (rl.allow (after rl (before ++ (t, .allow key) :: between)) u key).2.1 = false := by
  rw [after, Base.run_append, Base.run_cons]
  obtain ⟨b, hb, hlock⟩ := lock_run (lock_of_locks hlocks) hreset fun e he => lt_of_le_of_lt (htime e he) hu
  rw [allow_eq]
  dsimp only [after] at hb ⊢
  rw [hb, show bucketOf (some b) = b from rfl, bucketAllow_locked hlock hu]

/-- In an interval as long as the window without a reset of the key no more calls are granted than the limit; from a
call that sets a lock to its end every call without a reset is refused; and the collector changes no answer. -/
theorem limiter_bounds (rl : RateLimiter) {trace : List (Event κ)} (h : InTime Prod.fst trace) :
    (∀ key lo, (∀ e ∈ trace, lo < e.1 → e.1 ≤ lo + rl.window → e.2 ≠ .reset key) →
        grantedIn key lo (lo + rl.window) trace (given rl trace) ≤ rl.limit.toNat) ∧
      (∀ before t key between u rest, trace = before ++ (t, .allow key) :: between ++ (u, .allow key) :: rest →
        Locks rl (after rl before) t key → (∀ e ∈ between, e.2 ≠ .reset key) → u < t + rl.lockout →
        (rl.allow (after rl (before ++ (t, .allow key) :: between)) u key).2.1 = false) ∧
      (given rl (trace.filter fun e => !isGc e)).reduceOption = (given rl trace).reduceOption := by
  refine ⟨fun key lo hreset => ?_, ?_, given_without_gc h⟩
  · rw [given_eq h]
    exact (ledger_counts h hreset).1
  · rintro before t key between u rest rfl hlocks hreset hu
    refine refused_of_locks hlocks hreset (fun e he => ?_) hu
    have hlast := (List.pairwise_append.1 h).2.2 e (List.mem_append_right _ (List.mem_cons_of_mem _ he)) (u, .allow key)
      List.mem_cons_self
    exact hlast

/-- Three attempts and a turn of the collector, with a limit of two. -/
theorem limiter_bounds_login :
    grantedIn "ip" 0 (0 + 60) [(1, .allow "ip"), (2, .allow "ip"), (3, .gc), (4, .allow "ip")]
      (given ⟨2, 60, 300⟩ [(1, .allow "ip"), (2, .allow "ip"), (3, .gc), (4, .allow "ip")]) ≤ 2 :=
  (limiter_bounds ⟨2, 60, 300⟩ (by simp [InTime])).1 "ip" 0 (by simp)

end BookingSystem.Runs.LoginLimits
