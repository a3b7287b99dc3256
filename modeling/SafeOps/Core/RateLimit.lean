import SafeOps.Concurrent.Pool
import Mathlib.Algebra.Order.Ring.Rat
import Mathlib.Logic.Function.Basic

/-! `app/core/rate_limit.py`: the in-process rate limiter. -/

namespace SafeOps.RateLimit
open Concurrent

/-- The `HTTPException` of a refused call. -/
structure Refusal where
  statusCode : Nat
  code : String
  message : String
  deriving DecidableEq

def rateLimited : Refusal :=
  ⟨429, "RATE_LIMITED", "Too many requests. Slow down and try again."⟩

structure Settings where
  maxRequests : Nat
  windowSeconds : Nat

/-- The arguments of `rate_limit` that differ from call to call. -/
structure Call where
  bucket : String
  identity : String

def Call.key (call : Call) : String := call.bucket ++ ":" ++ call.identity

/-- `_buckets`, and what `time.monotonic` reads. -/
structure Limiter where
  buckets : String → List Rat
  clock : Rat

/-- The difference of two readings, which are floats: the exact one, rounded to a float. -/
def difference (round : Rat → Rat) (now first : Rat) : Rat := round (now - first)

/-- The loop that drops the expired readings from the left. -/
def expire (round : Rat → Rat) (windowSeconds : Nat) (now : Rat) : List Rat → List Rat
  | [] => []
  | first :: window =>
    if windowSeconds < difference round now first then expire round windowSeconds now window else first :: window

inductive Op
  | monotonic
  /-- The block under `_lock`. -/
  | locked (key : String) (now : Rat)

abbrev Op.Reply : Op → Type
  | monotonic => Rat
  | locked _ _ => Bool

abbrev signature : Signature where
  Op := Op
  Reply := Op.Reply

def answer (round : Rat → Rat) (settings : Settings) : (op : Op) → Limiter → op.Reply × Limiter
  | .monotonic, limiter => (limiter.clock, limiter)
  | .locked key now, limiter =>
    let window := expire round settings.windowSeconds now (limiter.buckets key)
    let accepted : Bool := window.length < settings.maxRequests
    (accepted, { limiter with
      buckets := Function.update limiter.buckets key (if accepted then window ++ [now] else window) })

/-- `rate_limit`. -/
def rateLimit (call : Call) : Program signature Refusal Unit := do
  let now ← Program.call Op.monotonic
  let accepted ← Program.call (Op.locked call.key now)
  if accepted then return () else Program.raise rateLimited

/-- The clock goes on to a later reading, or stays where it is. -/
def advance (later : Rat) (limiter : Limiter) : Limiter := { limiter with clock := max limiter.clock later }

def system (round : Rat → Rat) (settings : Settings) : System signature Refusal Unit Limiter Call Rat where
  exec := answer round settings
  code := rateLimit
  disturb := advance

abbrev App := Config signature Refusal Unit Limiter Call

def start (clock : Rat) : App := Config.start ⟨fun _ => [], clock⟩

section History

/-- The reading and the outcome of a call of the key that has taken the lock. -/
def attempt (key : String) (e : Entry signature) : Option (Rat × Bool) :=
  match e with
  | ⟨_, .locked key' now, accepted⟩ => if key' = key then some (now, accepted) else none
  | ⟨_, .monotonic, _⟩ => none

/-- The calls of a key in the order in which they have taken the lock, the latest first. -/
def attempts (key : String) (history : List (Entry signature)) : List (Rat × Bool) :=
  history.filterMap (attempt key)

def readings (key : String) (history : List (Entry signature)) : List Rat := (attempts key history).map (·.1)

/-- The readings of the accepted calls of a key. -/
def accepted (key : String) (history : List (Entry signature)) : List Rat :=
  ((attempts key history).filter (·.2)).map (·.1)

end History

end SafeOps.RateLimit
