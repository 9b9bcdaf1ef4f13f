import Mathlib.Algebra.Order.Group.Int
import Mathlib.Data.List.Basic
import Mathlib.Logic.Function.Basic

/-!
# Rate limits

The guard of the Node service, with a counter for each key in memory or in Redis, and the limiter of the Go service,
which keeps the times of the hits. Times are milliseconds there and nanoseconds here; every step is given the time.
-/

namespace BookingSystem.Service.RateLimits

variable {κ : Type} [DecidableEq κ]

/-! ### The guard -/

structure RateLimitOptions where
  limit : ℕ
  windowMs : ℤ

inductive Verdict where
  | allowed
  | rejected (retryAfter : ℤ)
  deriving DecidableEq

/-- `reject`: whole seconds, rounded up, and at least one. -/
def reject (remainingMs : ℤ) : Verdict := .rejected (max 1 (-(-remainingMs / 1000)))

structure Counter where
  count : ℕ
  resetAt : ℤ

/-- The fields `hits` and `lastSweep`. -/
structure Guard (κ : Type) where
  hits : κ → Option Counter
  lastSweep : ℤ

def Guard.initial : Guard κ := ⟨fun _ => none, 0⟩

/-- The counters that have run out go, at most once a minute. -/
def Guard.sweep (g : Guard κ) (now : ℤ) : Guard κ :=
  if now - g.lastSweep < 60000 then g
  else ⟨fun k => (g.hits k).filter fun c => !decide (c.resetAt ≤ now), now⟩

/-- `checkMemory` after the sweep. -/
def Guard.count (opts : RateLimitOptions) (g : Guard κ) (now : ℤ) (key : κ) : Guard κ × Verdict :=
  let opened : Guard κ × Verdict :=
    ({ g with hits := Function.update g.hits key (some ⟨1, now + opts.windowMs⟩) }, .allowed)
  match g.hits key with
  | none => opened
  | some c =>
    if c.resetAt ≤ now then opened
    else if c.count ≥ opts.limit then (g, reject (c.resetAt - now))
    else ({ g with hits := Function.update g.hits key (some ⟨c.count + 1, c.resetAt⟩) }, .allowed)

def checkMemory (opts : RateLimitOptions) (g : Guard κ) (now : ℤ) (key : κ) : Guard κ × Verdict :=
  (g.sweep now).count opts now key

/-- A key of Redis with its time to live: it is there before `expireAt`. -/
structure Entry where
  value : ℕ
  expireAt : ℤ

def live (now : ℤ) (e : Option Entry) : Option Entry := e.filter fun e => decide (now < e.expireAt)

/-- `WINDOW_LUA`: the count and what `PTTL` gives, which is -2 when the key is gone. -/
def windowLua (windowMs : ℤ) (store : κ → Option Entry) (now : ℤ) (key : κ) : (κ → Option Entry) × (ℕ × ℤ) :=
  let c := ((live now (store key)).map Entry.value).getD 0 + 1
  let expireAt := if c = 1 then now + windowMs else ((live now (store key)).map Entry.expireAt).getD 0
  (Function.update store key (some ⟨c, expireAt⟩), (c, if now < expireAt then expireAt - now else -2))

def checkRedis (opts : RateLimitOptions) (store : κ → Option Entry) (now : ℤ) (key : κ) :
    (κ → Option Entry) × Verdict :=
  let (store', count, ttl) := windowLua opts.windowMs store now key
  (store', if count > opts.limit then reject ttl else .allowed)

/-! ### The limiter -/

structure RateLimiter where
  limit : ℤ
  window : ℤ
  lockout : ℤ

/-- No lock is the zero time, which no clock shows plus a duration. -/
structure Bucket where
  hits : List ℤ
  lockedUntil : Option ℤ

namespace RateLimiter

variable (rl : RateLimiter)

def allow (buckets : κ → Option Bucket) (now : ℤ) (key : κ) : (κ → Option Bucket) × (Bool × ℤ) :=
  let b := (buckets key).getD ⟨[], none⟩
  match b.lockedUntil.filter fun u => decide (now < u) with
  | some u => (Function.update buckets key (some b), (false, u - now))
  | none =>
    let cutoff := now - rl.window
    let hits := b.hits.filter fun t => decide (t > cutoff)
    if (hits.length : ℤ) ≥ rl.limit then
      (Function.update buckets key (some ⟨hits, some (now + rl.lockout)⟩), (false, rl.lockout))
    else (Function.update buckets key (some ⟨hits ++ [now], b.lockedUntil⟩), (true, 0))

def reset (buckets : κ → Option Bucket) (key : κ) : κ → Option Bucket := Function.update buckets key none

/-- The test of `gcLoop`. -/
def collectable (now : ℤ) (b : Bucket) : Bool :=
  (b.lockedUntil.all fun u => decide (now > u)) && (b.hits.getLast?.any fun t => decide (t < now - rl.window))

/-- One turn of `gcLoop`. -/
def gc (buckets : κ → Option Bucket) (now : ℤ) : κ → Option Bucket :=
  fun k => (buckets k).filter fun b => !rl.collectable now b

end RateLimiter

end BookingSystem.Service.RateLimits
