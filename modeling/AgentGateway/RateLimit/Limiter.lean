/-
The local rate limiter (`http/localratelimit.rs`): a token bucket of two
atomic words, `available` and `refillAt`, and a counter.

Its functions take no lock. A call is a thread that performs one atomic
operation a turn (a load, an exchange, a fetch-and-add), and the turns of
any number of calls interleave. `Call` has one constructor for each place
such an operation is about to be made, with the local variables that are
live there; `Call.next` is the operation together with the code up to the
next one. `refill` is a subroutine, so its places carry their caller.

Words are machine words and wrap around. A clock reading is a number of
nanoseconds in a word too. The weak exchange in `fetch_update` may fail
for no reason; such a turn changes nothing and is left out.
-/
import Mathlib.Data.List.Basic
import Mathlib.Algebra.Group.Nat.Defs

namespace AgentGateway.RateLimit

structure Parameters where
  capacity : UInt64
  refillAmount : UInt64
  refillInterval : UInt64

structure Ratelimiter where
  available : UInt64
  dropped : UInt64
  parameters : Parameters
  refillAt : UInt64

-- ======== building

inductive Error
  | availableTokensTooHigh
  | maxTokensTooLow
  | refillAmountTooHigh
  | refillIntervalTooLong

/-- The interval is that of a `core::time::Duration`, which holds more
nanoseconds than a word. -/
structure Builder where
  initialAvailable : UInt64
  maxTokens : UInt64
  refillAmount : UInt64
  refillInterval : Nat

namespace Builder

def new (amount : UInt64) (interval : Nat) : Builder := ⟨0, 1, amount, interval⟩

def build (b : Builder) (now : UInt64) : Except Error Ratelimiter :=
  if b.maxTokens < b.refillAmount then .error .maxTokensTooLow
  else if 2 ^ 64 - 1 < b.refillInterval then .error .refillIntervalTooLong
  else
    .ok {
      available := b.initialAvailable
      dropped := 0
      parameters := {
        capacity := b.maxTokens
        refillAmount := b.refillAmount
        refillInterval := UInt64.ofNat b.refillInterval }
      refillAt := now + UInt64.ofNat b.refillInterval }

end Builder

/-- What a rate limit is configured with; which requests it counts does
not matter here. -/
structure RateLimitSpec where
  maxTokens : UInt64
  tokensPerFill : UInt64
  fillInterval : Nat

def RateLimitSpec.builder (spec : RateLimitSpec) : Builder :=
  { Builder.new spec.tokensPerFill spec.fillInterval with
    initialAvailable := spec.maxTokens
    maxTokens := spec.maxTokens }

def RateLimitSpec.tryFrom (spec : RateLimitSpec) (now : UInt64) : Except Error Ratelimiter :=
  spec.builder.build now

-- ======== arithmetic

def saturatingAdd (v a : UInt64) : UInt64 :=
  if v.toNat + a.toNat < 2 ^ 64 then v + a else UInt64.ofNat (2 ^ 64 - 1)

def saturatingSub (v a : UInt64) : UInt64 := if a ≤ v then v - a else 0

def unsignedAbs (k : Int64) : UInt64 :=
  if k < 0 then 0 - k.toUInt64 else k.toUInt64

/-- The closure `amend_tokens` updates `available` with. -/
def amended (tokensToRemove : Int64) (v : UInt64) : UInt64 :=
  if tokensToRemove < 0 then saturatingAdd v (unsignedAbs tokensToRemove)
  else saturatingSub v (unsignedAbs tokensToRemove)

/-- The number of refills due at `time`, if one is due at `refillAt`. -/
def intervalsDue (p : Parameters) (time refillAt : UInt64) : UInt64 :=
  (time - refillAt) / p.refillInterval + 1

/-- What a refill adds, from the `available` it has read: its amount, or
what is missing to the capacity. -/
def tokensToAdd (p : Parameters) (amount available : UInt64) : UInt64 :=
  if p.capacity ≤ available + amount then p.capacity - available else amount

-- ======== calls

inductive Request
  | tryWaitN (n : UInt64)
  | available
  | availableRefill
  | amendTokens (tokensToRemove : Int64)

/-- Where `refill` returns to. -/
inductive Caller
  | tryWaitN (n : UInt64)
  | availableRefill

inductive Outcome
  | granted (n : UInt64)
  | refused (capacity available wait : UInt64)
  | tokens (available : UInt64)
  | amended (tokensToRemove : Int64)

/-- A refill result is the time to wait if no refill was due. -/
inductive Call
  | requested (request : Request)
  | refill (caller : Caller)
  | refillLoop (caller : Caller) (time : UInt64)
  | refillExchange (caller : Caller) (time refillAt : UInt64)
  | refillLoad (caller : Caller) (intervals : UInt64)
  | refillAdd (caller : Caller) (amount available : UInt64)
  | refillDropped (caller : Caller) (tokens : UInt64)
  | acquireLoad (n : UInt64) (refillResult : Option UInt64)
  | acquireExchange (n : UInt64) (refillResult : Option UInt64) (available : UInt64)
  | load
  | amendExchange (tokensToRemove : Int64) (prev : UInt64)
  | returned (outcome : Outcome)
  | panicked

def Caller.resume (refillResult : Option UInt64) : Caller → Call
  | .tryWaitN n => .acquireLoad n refillResult
  | .availableRefill => .load

variable (l : Ratelimiter)

/-- One turn of a call; a call that is over takes none. -/
def Call.next (now : UInt64) : Call → Option (Ratelimiter × Call)
  | .requested (.tryWaitN n) =>
    if n = 0 ∨ l.parameters.capacity < n then
      some (l, .returned (.refused l.parameters.capacity l.available 0))
    else some (l, .refill (.tryWaitN n))
  | .requested .available => some (l, .returned (.tokens l.available))
  | .requested .availableRefill => some (l, .refill .availableRefill)
  | .requested (.amendTokens k) =>
    if k = 0 then some (l, .returned (.amended k))
    else some (l, .amendExchange k l.available)
  | .refill caller => some (l, .refillLoop caller now)
  | .refillLoop caller time =>
    if time < l.refillAt then
      some (l, caller.resume (some (l.refillAt - time)))
    -- the division by the interval panics
    else if l.parameters.refillInterval = 0 then some (l, .panicked)
    else some (l, .refillExchange caller time l.refillAt)
  | .refillExchange caller time refillAt =>
    let intervals := intervalsDue l.parameters time refillAt
    if l.refillAt = refillAt then
      some ({ l with
        refillAt := refillAt + intervals * l.parameters.refillInterval },
        .refillLoad caller intervals)
    else some (l, .refillLoop caller time)
  | .refillLoad caller intervals =>
    some (l, .refillAdd caller (intervals * l.parameters.refillAmount) l.available)
  | .refillAdd caller amount available =>
    let toAdd := tokensToAdd l.parameters amount available
    let l' := { l with available := l.available + toAdd }
    if l.parameters.capacity ≤ available + amount then
      some (l', .refillDropped caller (amount - toAdd))
    else some (l', caller.resume none)
  | .refillDropped caller tokens =>
    some ({ l with dropped := l.dropped + tokens }, caller.resume none)
  | .acquireLoad n refillResult =>
    if l.available < n then
      match refillResult with
      -- somebody else took the tokens: refill once more
      | none => some (l, .refill (.tryWaitN n))
      | some wait =>
        some (l, .returned (.refused l.parameters.capacity l.available wait))
    else some (l, .acquireExchange n refillResult l.available)
  | .acquireExchange n refillResult available =>
    if l.available = available then
      some ({ l with available := available - n }, .returned (.granted n))
    else some (l, .acquireLoad n refillResult)
  | .load => some (l, .returned (.tokens l.available))
  | .amendExchange k prev =>
    if l.available = prev then
      some ({ l with available := amended k prev }, .returned (.amended k))
    else some (l, .amendExchange k l.available)
  | .returned _ => none
  | .panicked => none

/-- What a true-up after an answer removes (`llm/mod.rs`, `amend_tokens`):
the tokens of the answer, and what the count made before the request was
off by. -/
def tokensToRemove (requestInput responseInput responseOutput : Option UInt64) : Int64 :=
  let inputMismatch : Int64 :=
    match requestInput, responseInput with
    | some req, some resp => resp.toInt64 - req.toInt64
    | _, none => 0
    | _, some resp => resp.toInt64
  inputMismatch + (responseOutput.getD 0).toInt64

-- ======== system

/-- The intervals one refill took, and when the first of them ended. -/
structure Credit where
  refillAt : UInt64
  intervals : UInt64

/-- A limiter, its calls, and the clock. The last two fields record what
happened and are read by no operation: the intervals refills took, and
the tokens refills raised `available` by. -/
structure State where
  limiter : Ratelimiter
  calls : List Call
  now : UInt64
  credits : List Credit
  refilled : Nat

inductive Action
  | call (request : Request)
  | run (call : Nat)
  | tick (now : UInt64)

/-- The intervals the next turn of a call takes. -/
def Call.credit : Call → List Credit
  | .refillExchange _ time refillAt =>
    if l.refillAt = refillAt then
      [⟨refillAt, intervalsDue l.parameters time refillAt⟩]
    else []
  | _ => []

/-- What a turn from `l` to `l'` refilled. -/
def Call.refilled (l' : Ratelimiter) : Call → Nat
  | .refillAdd _ _ _ => l'.available.toNat - l.available.toNat
  | _ => 0

namespace State

/-- A new limiter at the time it was built. -/
def start (now : UInt64) : State := ⟨l, [], now, [], 0⟩

def step (s : State) : Action → Option State
  | .call request => some { s with calls := s.calls ++ [.requested request] }
  | .run i => do
      let call ← s.calls[i]?
      let (l, call') ← call.next s.limiter s.now
      some { s with
        limiter := l
        calls := s.calls.set i call'
        credits := s.credits ++ call.credit s.limiter
        refilled := s.refilled + call.refilled s.limiter l }
  | .tick now => if s.now ≤ now then some { s with now := now } else none

def run (s : State) (actions : List Action) : Option State :=
  actions.foldlM step s

end State

end AgentGateway.RateLimit
