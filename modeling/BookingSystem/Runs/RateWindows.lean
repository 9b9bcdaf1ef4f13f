import BookingSystem.Base.Answers
import BookingSystem.Service.RateLimits
import Mathlib.Data.List.Induction

/-!
# The two backends of the rate limit

The counter in memory stops at the limit and Redis goes on counting, so the one is the lesser of the other and the limit
as long as both are live (`Mirrors`). The sweep takes what is no longer live. Hence both backends give the same answers
with and without it, and a window that a request opens has no more allowed requests than the limit (`backends_agree`).
-/

namespace BookingSystem.Runs.RateWindows

open Function (update_eq_self update_of_ne update_self)
open Base (InTime answers answers_append answers_eq_of_related length_answers run)
open Service.RateLimits (Counter Entry Guard RateLimitOptions Verdict checkMemory checkRedis live reject windowLua)

variable {κ : Type} [DecidableEq κ] (opts : RateLimitOptions)

/-- A request for a key at a time. -/
abbrev Request (κ : Type) := ℤ × κ

def memoryStep (g : Guard κ) (r : Request κ) : Guard κ × Verdict := checkMemory opts g r.1 r.2

def unsweptStep (g : Guard κ) (r : Request κ) : Guard κ × Verdict := g.count opts r.1 r.2

def redisStep (store : κ → Option Entry) (r : Request κ) : (κ → Option Entry) × Verdict :=
  checkRedis opts store r.1 r.2

def memory (trace : List (Request κ)) : List Verdict := answers (memoryStep opts) .initial trace

def unswept (trace : List (Request κ)) : List Verdict := answers (unsweptStep opts) .initial trace

def redis (trace : List (Request κ)) : List Verdict := answers (redisStep opts) (fun _ => none) trace

/-! ### Live counters -/

def liveCounter (now : ℤ) (c : Option Counter) : Option Counter := c.filter fun c => decide (now < c.resetAt)

/-- The counter that memory has for an entry of Redis. -/
def counterOf (limit : ℕ) (e : Entry) : Counter := ⟨min e.value limit, e.expireAt⟩

/-- What is live at a time is the same in both; no entry counts nothing. -/
structure Mirrors (now : ℤ) (g : Guard κ) (store : κ → Option Entry) : Prop where
  same : ∀ k, liveCounter now (g.hits k) = (live now (store k)).map (counterOf opts.limit)
  counted : ∀ k, ∀ e ∈ store k, 1 ≤ e.value

section Mirrors

variable {opts} {now : ℤ} {g : Guard κ} {store : κ → Option Entry}

omit [DecidableEq κ] in
theorem mirrors_initial : Mirrors opts now (.initial : Guard κ) (fun _ => none) := ⟨fun _ => rfl, nofun⟩

theorem live_later {t t' : ℤ} (h : t ≤ t') (e : Option Entry) : live t' (live t e) = live t' e := by
  cases e with
  | none => rfl
  | some e =>
    by_cases he : t < e.expireAt
    · simp [live, Option.filter_some, he]
    · have he' : ¬ t' < e.expireAt := by omega
      simp [live, Option.filter_some, he, he']

theorem liveCounter_later {t t' : ℤ} (h : t ≤ t') (c : Option Counter) :
    liveCounter t' (liveCounter t c) = liveCounter t' c := by
  cases c with
  | none => rfl
  | some c =>
    by_cases hc : t < c.resetAt
    · simp [liveCounter, Option.filter_some, hc]
    · have hc' : ¬ t' < c.resetAt := by omega
      simp [liveCounter, Option.filter_some, hc, hc']

theorem liveCounter_map (now : ℤ) (limit : ℕ) (e : Option Entry) :
    liveCounter now (e.map (counterOf limit)) = (live now e).map (counterOf limit) := by
  cases e with
  | none => rfl
  | some e =>
    by_cases he : now < e.expireAt
    · simp [liveCounter, live, Option.filter_some, counterOf, he]
    · simp [liveCounter, live, Option.filter_some, counterOf, he]

omit [DecidableEq κ] in
theorem Mirrors.later {now' : ℤ} (hnow : now ≤ now') (h : Mirrors opts now g store) : Mirrors opts now' g store where
  same k := by rw [← liveCounter_later hnow, h.same, liveCounter_map, live_later hnow]
  counted := h.counted

omit [DecidableEq κ] in
theorem Mirrors.sweep (h : Mirrors opts now g store) : Mirrors opts now (g.sweep now) store where
  same k := by
    rw [← h.same]
    unfold Guard.sweep
    split
    · rfl
    · cases hk : g.hits k with
      | none => simp [liveCounter, hk]
      | some c =>
        by_cases hc : c.resetAt ≤ now
        · simp [liveCounter, Option.filter_some, hk, hc]
        · simp [liveCounter, Option.filter_some, hk, hc]
  counted := h.counted

theorem Mirrors.update (h : Mirrors opts now g store) (key : κ) {c : Counter} {e : Entry}
    (hc : c = counterOf opts.limit e) (he : 1 ≤ e.value) :
    Mirrors opts now { g with hits := Function.update g.hits key (some c) } (Function.update store key (some e)) where
  same k := by
    dsimp only
    by_cases hk : k = key
    · subst hk
      rw [update_self, update_self, hc]
      exact liveCounter_map now opts.limit (some e)
    · rw [update_of_ne hk, update_of_ne hk]
      exact h.same k
  counted k e' he' := by
    by_cases hk : k = key
    · subst hk
      rw [update_self, Option.mem_some_iff] at he'
      exact he' ▸ he
    · rw [update_of_ne hk] at he'
      exact h.counted k e' he'

theorem windowLua_gone {w : ℤ} {key : κ} (h : live now (store key) = none) :
    windowLua w store now key =
      (Function.update store key (some ⟨1, now + w⟩), 1, if now < now + w then now + w - now else -2) := by
  rw [windowLua, h]
  rfl

theorem windowLua_live {w : ℤ} {key : κ} {e : Entry} (h : live now (store key) = some e) (he : 1 ≤ e.value) :
    windowLua w store now key =
      (Function.update store key (some ⟨e.value + 1, e.expireAt⟩), e.value + 1, e.expireAt - now) := by
  have hlive : now < e.expireAt := by simpa using (Option.filter_eq_some_iff.1 h).2
  rw [windowLua, h]
  simp [hlive, Nat.ne_of_gt he]

theorem Mirrors.count (hlimit : 1 ≤ opts.limit) (h : Mirrors opts now g store) (key : κ) :
    (g.count opts now key).2 = (checkRedis opts store now key).2 ∧
      Mirrors opts now (g.count opts now key).1 (checkRedis opts store now key).1 := by
  have hsame := h.same key
  cases he : live now (store key) with
  | none =>
    have hopened : g.count opts now key =
        ({ g with hits := Function.update g.hits key (some ⟨1, now + opts.windowMs⟩) }, .allowed) := by
      unfold Guard.count
      cases hc : g.hits key with
      | none => rfl
      | some c =>
        have hdead : c.resetAt ≤ now := by
          simpa [hc, he, liveCounter, Option.filter_some] using hsame
        exact if_pos hdead
    have hredis : checkRedis opts store now key =
        (Function.update store key (some ⟨1, now + opts.windowMs⟩), .allowed) := by
      rw [checkRedis, windowLua_gone he]
      dsimp only
      rw [if_neg (by omega)]
    rw [hopened, hredis]
    exact ⟨rfl, h.update key (by rw [counterOf, Nat.min_eq_left hlimit]) le_rfl⟩
  | some e =>
    have hvalue := h.counted key e (Option.filter_eq_some_iff.1 he).1
    have hlive : now < e.expireAt := by simpa using (Option.filter_eq_some_iff.1 he).2
    have hc : g.hits key = some (counterOf opts.limit e) := by
      rw [he, Option.map_some] at hsame
      exact (Option.filter_eq_some_iff.1 hsame).1
    have hredis : checkRedis opts store now key =
        (Function.update store key (some ⟨e.value + 1, e.expireAt⟩),
          if e.value + 1 > opts.limit then reject (e.expireAt - now) else .allowed) := by
      rw [checkRedis, windowLua_live he hvalue]
    rw [hredis]
    unfold Guard.count
    rw [hc]
    dsimp only [counterOf]
    rw [if_neg (not_le.2 hlive)]
    by_cases hfull : opts.limit ≤ e.value
    · -- Memory stops, Redis counts on.
      rw [if_pos (by omega), if_pos (by omega)]
      have hkeep : Function.update g.hits key (some (counterOf opts.limit ⟨e.value + 1, e.expireAt⟩)) = g.hits := by
        have hfull' : counterOf opts.limit ⟨e.value + 1, e.expireAt⟩ = counterOf opts.limit e := by
          simp only [counterOf, Counter.mk.injEq, and_true]
          omega
        rw [hfull', ← hc]
        exact update_eq_self key g.hits
      have hnext := h.update key (e := ⟨e.value + 1, e.expireAt⟩) rfl (Nat.le_add_left 1 _)
      rw [hkeep] at hnext
      exact ⟨rfl, hnext⟩
    · rw [if_neg (by omega), if_neg (by omega)]
      refine ⟨rfl, h.update key ?_ (Nat.le_add_left 1 _)⟩
      simp only [counterOf, Counter.mk.injEq, and_true]
      omega

end Mirrors

/-! ### The answers agree -/

variable {opts}

theorem memory_eq_redis (hlimit : 1 ≤ opts.limit) {trace : List (Request κ)} (h : InTime Prod.fst trace) :
    memory opts trace = redis opts trace :=
  answers_eq_of_related (R := Mirrors opts) (fun ht => Mirrors.later ht) (fun {_ _ r} hR => hR.sweep.count hlimit r.2) h
    fun _ _ => mirrors_initial

theorem unswept_eq_redis (hlimit : 1 ≤ opts.limit) {trace : List (Request κ)} (h : InTime Prod.fst trace) :
    unswept opts trace = redis opts trace :=
  answers_eq_of_related (R := Mirrors opts) (fun ht => Mirrors.later ht) (fun {_ _ r} hR => hR.count hlimit r.2) h
    fun _ _ => mirrors_initial

/-! ### Windows -/

/-- When the last window of the key was opened: a request opens one when the window before has run out. -/
def opening (w : ℤ) (key : κ) (before : List (Request κ)) : Option ℤ :=
  before.foldl
    (fun s r => if r.2 = key then (if s.any fun s => decide (r.1 < s + w) then s else some r.1) else s) none

/-- A request for the key at this time opens a window. -/
def Opens (w : ℤ) (key : κ) (before : List (Request κ)) (t : ℤ) : Prop := ∀ s ∈ opening w key before, s + w ≤ t

/-- How many requests for the key are allowed from one time on and before another. -/
def allowedIn (key : κ) (lo hi : ℤ) (trace : List (Request κ)) (verdicts : List Verdict) : ℕ :=
  (trace.zip verdicts).countP fun x => x.1.2 = key ∧ lo ≤ x.1.1 ∧ x.1.1 < hi ∧ x.2 = .allowed

theorem allowedIn_append {key : κ} {lo hi : ℤ} {es fs : List (Request κ)} {vs ws : List Verdict}
    (h : es.length = vs.length) :
    allowedIn key lo hi (es ++ fs) (vs ++ ws) = allowedIn key lo hi es vs + allowedIn key lo hi fs ws := by
  rw [allowedIn, List.zip_append h, List.countP_append]
  rfl

theorem allowedIn_eq_zero {key : κ} {lo hi : ℤ} {es : List (Request κ)} {vs : List Verdict}
    (h : ∀ r ∈ es, r.2 = key → r.1 < lo ∨ hi ≤ r.1) : allowedIn key lo hi es vs = 0 := by
  rw [allowedIn, List.countP_eq_zero]
  rintro ⟨r, v⟩ hx
  have hr := h r (List.of_mem_zip hx).1
  simp only [decide_eq_true_eq]
  rintro ⟨hkey, hlo, hhi, -⟩
  have := hr hkey
  omega

theorem opening_concat (w : ℤ) (key : κ) (before : List (Request κ)) (r : Request κ) :
    opening w key (before ++ [r]) =
      if r.2 = key then
        if (opening w key before).any fun s => decide (r.1 < s + w) then opening w key before else some r.1
      else opening w key before := by
  rw [opening, List.foldl_append]
  rfl

theorem lt_opening {w : ℤ} (hw : 0 < w) (key : κ) (before : List (Request κ)) {r : Request κ} (hr : r ∈ before)
    (hkey : r.2 = key) : ∃ s ∈ opening w key before, r.1 < s + w := by
  induction before using List.reverseRecOn with
  | nil => cases hr
  | append_singleton before r' ih =>
    rw [opening_concat]
    obtain hr | hr := List.mem_append.1 hr
    · obtain ⟨s, hs, hlt⟩ := ih hr
      rw [hs]
      dsimp only [Option.any_some]
      split
      · split
        · exact ⟨s, rfl, hlt⟩
        · rename_i hover
          refine ⟨r'.1, rfl, ?_⟩
          have hover : s + w ≤ r'.1 := by simpa using hover
          omega
      · exact ⟨s, rfl, hlt⟩
    · obtain rfl := List.mem_singleton.1 hr
      rw [if_pos hkey]
      split
      · rename_i hwithin
        obtain ⟨s, hs, hlt⟩ := (Option.any_eq_true _ _).1 hwithin
        exact ⟨s, hs, of_decide_eq_true hlt⟩
      · exact ⟨r.1, rfl, by omega⟩

theorem redisStep_other {store : κ → Option Entry} {r : Request κ} {key : κ} (h : r.2 ≠ key) :
    (redisStep opts store r).1 key = store key := update_of_ne (Ne.symm h) _ _

theorem redisStep_gone {store : κ → Option Entry} {t : ℤ} {key : κ} (h : live t (store key) = none)
    (hlimit : 1 ≤ opts.limit) :
    redisStep opts store (t, key) = (Function.update store key (some ⟨1, t + opts.windowMs⟩), .allowed) := by
  rw [redisStep, checkRedis, windowLua_gone h]
  dsimp only
  rw [if_neg (by omega)]

theorem redisStep_live {store : κ → Option Entry} {t : ℤ} {key : κ} {e : Entry} (h : live t (store key) = some e)
    (he : 1 ≤ e.value) :
    redisStep opts store (t, key) = (Function.update store key (some ⟨e.value + 1, e.expireAt⟩),
      if e.value + 1 > opts.limit then reject (e.expireAt - t) else .allowed) := by
  rw [redisStep, checkRedis, windowLua_live h he]

theorem live_eq_none_iff {x : Option Entry} {y : Option ℤ} {w t : ℤ} (h : x.map Entry.expireAt = y.map (· + w)) :
    live t x = none ↔ ∀ s ∈ y, s + w ≤ t := by
  cases x with
  | none =>
    cases y with
    | none => simp [live]
    | some s => cases h
  | some e =>
    cases y with
    | none => cases h
    | some s =>
      have he : e.expireAt = s + w := by simpa using h
      simp [live, Option.filter_eq_none_iff, he]

/-- In Redis an entry runs out when the last window does. -/
theorem redis_opening (hlimit : 1 ≤ opts.limit) (key : κ) (before : List (Request κ)) :
    ((run (fun s e => (redisStep opts s e).1) (fun _ => none) before key).map Entry.expireAt =
      (opening opts.windowMs key before).map (· + opts.windowMs)) ∧
      ∀ e ∈ run (fun s e => (redisStep opts s e).1) (fun _ => none) before key, 1 ≤ e.value := by
  induction before using List.reverseRecOn with
  | nil => exact ⟨rfl, nofun⟩
  | append_singleton before r ih =>
    rw [Base.run_append, opening_concat, Base.run_cons, Base.run_nil]
    generalize run (fun s e => (redisStep opts s e).1) (fun _ => none) before = store at ih ⊢
    obtain ⟨t, k⟩ := r
    dsimp only
    by_cases hk : k = key
    · subst hk
      rw [if_pos rfl]
      obtain ⟨hexpire, hvalue⟩ := ih
      cases hlive : live t (store k) with
      | none =>
        rw [redisStep_gone hlive hlimit, if_neg]
        · dsimp only
          rw [update_self]
          exact ⟨rfl, by simp⟩
        · rw [Option.any_eq_true]
          rintro ⟨s, hs, hlt⟩
          exact absurd (of_decide_eq_true hlt) (not_lt.2 ((live_eq_none_iff hexpire).1 hlive s hs))
      | some e =>
        have he : store k = some e := (Option.filter_eq_some_iff.1 hlive).1
        have hlt : t < e.expireAt := by simpa using (Option.filter_eq_some_iff.1 hlive).2
        rw [redisStep_live hlive (hvalue e he)]
        dsimp only
        rw [update_self]
        rw [he, Option.map_some] at hexpire
        obtain ⟨s, hs, hsum⟩ := Option.map_eq_some_iff.1 hexpire.symm
        rw [hs, if_pos (by simpa [hsum] using hlt), Option.map_some, Option.map_some, hsum]
        exact ⟨rfl, by simp⟩
    · rw [if_neg hk, redisStep_other hk]
      exact ih

theorem allowedIn_cons (key : κ) (lo hi : ℤ) (r : Request κ) (es : List (Request κ)) (v : Verdict) (vs : List Verdict) :
    allowedIn key lo hi (r :: es) (v :: vs) =
      allowedIn key lo hi es vs + if r.2 = key ∧ lo ≤ r.1 ∧ r.1 < hi ∧ v = .allowed then 1 else 0 := by
  rw [allowedIn, List.zip_cons_cons, List.countP_cons]
  simp [allowedIn]

/-- What is left of a window. -/
theorem allowedIn_rest {key : κ} {es : List (Request κ)} (hes : InTime Prod.fst es) {store : κ → Option Entry}
    {e : Entry} (he : store key = some e) (hvalue : 1 ≤ e.value) (lo : ℤ) :
    allowedIn key lo e.expireAt es (answers (redisStep opts) store es) ≤ opts.limit - e.value := by
  induction es generalizing store e with
  | nil => exact Nat.zero_le _
  | cons r es ih =>
    obtain ⟨t, k⟩ := r
    obtain ⟨hfirst, hrest⟩ := List.pairwise_cons.1 hes
    by_cases hover : e.expireAt ≤ t
    · -- The window has run out, and the clock does not go back.
      rw [allowedIn_eq_zero fun r hr _ => .inr ?_]
      · exact Nat.zero_le _
      · obtain rfl | hr := List.mem_cons.1 hr
        · exact hover
        · exact hover.trans (hfirst r hr)
    · rw [answers, allowedIn_cons]
      dsimp only
      by_cases hk : k = key
      · subst hk
        have hlive : live t (store k) = some e := by
          rw [he]
          exact Option.filter_eq_some_iff.2 ⟨rfl, by simpa using hover⟩
        rw [redisStep_live hlive hvalue]
        have hself : Function.update store k (some ⟨e.value + 1, e.expireAt⟩) k = some ⟨e.value + 1, e.expireAt⟩ :=
          update_self _ _ _
        have hnext := ih hrest hself (Nat.le_add_left 1 _)
        dsimp only at hnext ⊢
        by_cases hfull : e.value + 1 > opts.limit
        · rw [if_pos hfull, if_neg (fun h => by cases h.2.2.2)]
          omega
        · rw [if_neg hfull]
          split
          · omega
          · omega
      · rw [if_neg (fun h => hk h.1)]
        exact ih hrest ((redisStep_other hk).trans he) hvalue

theorem allowedIn_le (hlimit : 1 ≤ opts.limit) {before after : List (Request κ)} {key : κ} {t : ℤ}
    (h : InTime Prod.fst (before ++ (t, key) :: after)) (hopens : Opens opts.windowMs key before t) :
    allowedIn key t (t + opts.windowMs) (before ++ (t, key) :: after) (redis opts (before ++ (t, key) :: after)) ≤
      opts.limit := by
  obtain ⟨hexpire, -⟩ := redis_opening hlimit key before
  have hgone := (live_eq_none_iff (t := t) hexpire).2 hopens
  have hbefore : allowedIn key t (t + opts.windowMs) before (answers (redisStep opts) (fun _ => none) before) = 0 := by
    refine allowedIn_eq_zero fun r hr hkey => ?_
    by_cases hw : 0 < opts.windowMs
    · obtain ⟨s, hs, hlt⟩ := lt_opening hw key before hr hkey
      exact .inl (lt_of_lt_of_le hlt (hopens s hs))
    · omega
  have hafter := (List.pairwise_cons.1 (List.pairwise_append.1 h).2.1).2
  rw [redis, answers_append, allowedIn_append (length_answers _ _ _).symm, hbefore, Nat.zero_add, answers,
    redisStep_gone hgone hlimit, allowedIn_cons]
  generalize run (fun s e => (redisStep opts s e).1) (fun _ => none) before = store
  have hself : Function.update store key (some ⟨1, t + opts.windowMs⟩) key = some ⟨1, t + opts.windowMs⟩ :=
    update_self _ _ _
  have hrest : _ ≤ opts.limit - 1 := allowedIn_rest hafter hself le_rfl t
  dsimp only at hrest ⊢
  split
  · omega
  · omega

/-- Both backends give the same answers, with the sweep and without it, and in a window that a request opens no more
requests of its key are allowed than the limit. -/
theorem backends_agree (hlimit : 1 ≤ opts.limit) {trace : List (Request κ)} (h : InTime Prod.fst trace) :
    memory opts trace = redis opts trace ∧
      (∀ before t key after, trace = before ++ (t, key) :: after → Opens opts.windowMs key before t →
        allowedIn key t (t + opts.windowMs) trace (memory opts trace) ≤ opts.limit) ∧
      memory opts trace = unswept opts trace := by
  refine ⟨memory_eq_redis hlimit h, ?_, (memory_eq_redis hlimit h).trans (unswept_eq_redis hlimit h).symm⟩
  rintro before t key after rfl hopens
  rw [memory_eq_redis hlimit h]
  exact allowedIn_le hlimit h hopens

/-- Three attempts from one address with a limit of two. -/
theorem backends_agree_login :
    memory ⟨2, 10000⟩ [(0, "1.2.3.4"), (5, "1.2.3.4"), (7, "1.2.3.4")] =
      redis ⟨2, 10000⟩ [(0, "1.2.3.4"), (5, "1.2.3.4"), (7, "1.2.3.4")] :=
  (backends_agree (by decide) (by simp [InTime])).1

end BookingSystem.Runs.RateWindows
