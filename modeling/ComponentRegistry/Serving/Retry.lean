import ComponentRegistry.Error

/-! # Retries

Trying again while the store cannot be reached, after delays that double up to a limit.
-/

namespace ComponentRegistry

/-- How often and after which delays something is tried again. -/
structure RetryPolicy where
  /-- Number of attempts; there is always at least one. -/
  attempts : Int := 3
  /-- The first delay in seconds. -/
  initialDelay : Quantity := .double (.ofDecimal false 1 (-1))
  /-- The longest delay in seconds. -/
  longestDelay : Quantity := .double (.ofDecimal false 2 0)
  deriving Repr

/-- A delay doubled `times` times, or halved when `times` is negative. Whole delays are doubled
exactly. A double can be multiplied only by a power of two that is itself a double; one that is too
small for that counts as zero. -/
def Quantity.doubled (delay : Quantity) (times : Int) : Except Failure Quantity :=
  if powerOfTwo 1024 ≤ times.natAbs then .error .overflow
  else
    match delay with
    | .double d =>
      if 1024 ≤ times then .error .overflow
      else if times < Binary64.leastExponent then .ok (.double d.timesZero)
      else .ok (.double (d.scale times))
    | .whole n =>
      if 0 ≤ times then .ok (.whole (n * powerOfTwo times.toNat))
      else if times < Binary64.leastExponent then .ok (.double (Binary64.ofInt n).timesZero)
      else .ok (.double ((Binary64.ofInt n).scale times))

namespace RetryPolicy

/-- The delay after an attempt, counted from zero. -/
def delay (policy : RetryPolicy) (attempt : Int) : Except Failure Quantity :=
  (policy.initialDelay.doubled attempt).map fun doubled => doubled.least policy.longestDelay

/-- What became of a number of attempts. -/
structure Run (α : Type) where
  /-- The outcome of the last attempt, or a failure to wait for it. -/
  result : Except Failure α
  /-- The number of attempts that were made. -/
  calls : Nat
  /-- The delays between them. -/
  delays : List Quantity

/-- Make attempts from `attempt` on, with `remaining` more of them after the next one. `delay` tells
how long to wait after an attempt. -/
def runFrom (delay : Nat → Except Failure Quantity) (call : Nat → Except Failure α)
    (attempt : Nat) : (remaining : Nat) → Run α
  | 0 => ⟨call attempt, attempt + 1, []⟩
  | remaining + 1 =>
    match call attempt with
    | .error (.refused (.unavailable _)) =>
      match delay attempt with
      | .error e => ⟨.error e, attempt + 1, []⟩
      | .ok waited =>
        let run := runFrom delay call (attempt + 1) remaining
        { run with delays := waited :: run.delays }
    | result => ⟨result, attempt + 1, []⟩

/-- Make attempts until one of them reaches the store or none is left. `call` tells the outcome of
each attempt, counted from zero. -/
def run (policy : RetryPolicy) (call : Nat → Except Failure α) : Run α :=
  runFrom (fun attempt => policy.delay attempt) call 0 (policy.attempts - 1).toNat

end RetryPolicy

end ComponentRegistry
