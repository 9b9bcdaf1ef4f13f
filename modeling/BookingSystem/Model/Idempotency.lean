import BookingSystem.Model.Entities
import Mathlib.Logic.Function.Basic

/-!
# `IdempotencyMiddleware` under `WithTenantTx`

A POST with an `Idempotency-Key` is looked up in `idempotency_keys`; if it is not there the handler runs in the
transaction of the request, its response is sent and, if it is a 2xx, inserted into the table, and then the transaction
is committed. The lookup and the insert go through the pool and are visible at once. Each of these is one step, and the
steps of different requests come in any order.
-/

namespace BookingSystem.Model.Idempotency

open Base

/-- What a lookup asks for: the key, the caller and the path. -/
structure Scope where
  key : String
  tenantId : Uuid
  userId : String
  requestPath : String
  deriving DecidableEq, Repr

/-- A request as the middleware sees it. -/
structure Request where
  method : String := "POST"
  idempotencyKey : String := ""
  tenantId : Option Uuid := none
  userId : String := ""
  path : String
  deriving DecidableEq, Repr

def Request.scope (r : Request) : Option Scope :=
  if r.method = "POST" ∧ r.idempotencyKey ≠ "" ∧ r.userId ≠ "" then
    r.tenantId.map fun tenantId => ⟨r.idempotencyKey, tenantId, r.userId, r.path⟩
  else none

structure Response where
  code : ℕ
  body : String
  deriving DecidableEq, Repr

def Response.ok (r : Response) : Bool := decide (200 ≤ r.code) && decide (r.code < 300)

/-- A row of `idempotency_keys`. The producer is no column: it is the request that has inserted the row. -/
structure CachedResponse (ι : Type) where
  scope : Scope
  response : Response
  expiresAt : Instant
  producer : ι

instance (ι : Type) : Keyed (CachedResponse ι) String := ⟨fun row => row.scope.key⟩

@[simp] theorem key_cachedResponse {ι : Type} (row : CachedResponse ι) : (key row : String) = row.scope.key := rfl

def ttlMs : ℤ := 24 * 3600 * 1000

/-- How far a request is: not looked up yet; missed, with the handler to run; answered by the handler; through with the
cache, with the transaction still open; finished, with its writes durable or not; or answered from the cache. -/
inductive Phase
  | ready
  | missed
  | answered (response : Response)
  | kept (response : Response)
  | finished (response : Response) (durable : Bool)
  | replayed (response : Response)
  deriving DecidableEq, Repr

/-- The table and the requests. -/
structure State (ι : Type) where
  cache : Table (CachedResponse ι)
  phase : ι → Phase

/-- What happens. A statement that goes through the pool may fail, and so may the `COMMIT`; `prune` is the scheduler's
deletion of expired rows. -/
inductive Event (ι : Type)
  | lookup (r : ι) (now : Instant) (ok : Bool)
  | handle (r : ι) (response : Response)
  | insert (r : ι) (now : Instant) (ok : Bool)
  | commit (r : ι) (ok : Bool)
  | prune (now : Instant)

variable {ι : Type} [DecidableEq ι] (req : ι → Request)

def State.hit (st : State ι) (scope : Scope) (now : Instant) : Option Response :=
  ((st.cache.find? scope.key).filter fun row => decide (row.scope = scope) && decide (now < row.expiresAt)).map
    (·.response)

/-- `INSERT … ON CONFLICT (key) DO NOTHING`. -/
def State.insert (st : State ι) (row : CachedResponse ι) : State ι :=
  { st with cache := (st.cache.insert? row).getD st.cache }

def State.goto (st : State ι) (r : ι) (phase : Phase) : State ι :=
  { st with phase := Function.update st.phase r phase }

/-- A cached response with a code that is not `0` is replayed; any error of the lookup counts as a miss. -/
def lookup (st : State ι) (r : ι) (now : Instant) (ok : Bool) : State ι :=
  match (req r).scope with
  | none => st.goto r .missed
  | some scope =>
    match (st.hit scope now).filter fun response => ok && response.code != 0 with
    | some response => st.goto r (.replayed response)
    | none => st.goto r .missed

/-- The response is offered to the cache if it is a 2xx; an error of the insert is ignored. -/
def offer (st : State ι) (r : ι) (response : Response) (now : Instant) (ok : Bool) : State ι :=
  match (req r).scope with
  | none => st.goto r (.kept response)
  | some scope =>
    if response.ok && ok then (st.insert ⟨scope, response, now + ttlMs, r⟩).goto r (.kept response)
    else st.goto r (.kept response)

def close (st : State ι) (r : ι) (response : Response) (ok : Bool) : State ι :=
  st.goto r (.finished response (ok && decide (response.code < 500)))

def step (st : State ι) (e : Event ι) : State ι :=
  match e with
  | .lookup r now ok => if st.phase r = .ready then lookup req st r now ok else st
  | .handle r response => if st.phase r = .missed then st.goto r (.answered response) else st
  | .insert r now ok =>
    match st.phase r with
    | .answered response => offer req st r response now ok
    | _ => st
  | .commit r ok =>
    match st.phase r with
    | .kept response => close st r response ok
    | _ => st
  | .prune now =>
    { st with
      cache := ⟨st.cache.rows.filter fun row => decide (now ≤ row.expiresAt),
        st.cache.nodup.sublist (List.filter_sublist.map key)⟩ }

def init (ι : Type) : State ι := ⟨.empty, fun _ => .ready⟩

end BookingSystem.Model.Idempotency
