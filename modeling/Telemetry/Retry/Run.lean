import Telemetry.Retry.Policy

/-!
Repeating a call. A failed call is repeated after the policy's wait as long as its failure may pass
and attempts are left; a cancellation ends a wait, but not a call. Times are in milliseconds.
-/
namespace Telemetry

/-- A repeated call: when it was made, when it ended, and with what. -/
structure RetryRun (ε α : Type) where
  starts : List Nat
  finish : Nat
  result : Except ε α

namespace RetryPolicy

variable {ε α : Type}

/-- Whether a wait from `now` on is cut short by a cancellation, and when it ends. A cancellation at
the very end of a wait comes too late, but one that came before cuts even an empty wait short. -/
def endOfWait (cancel : Option Nat) (now delay : Nat) : Bool × Nat :=
  match cancel with
  | none => (false, now + delay)
  | some c => if c < now + delay ∨ c ≤ now then (true, max c now) else (false, now + delay)

/-- Makes call number `attempt` at the time `now`, with `left` retries left; call number `i` takes `cost i`.
The value is absent if a wait is too long for a duration. -/
def runFrom? (p : RetryPolicy) (cancel : Option Nat) (cost : Nat → Nat) (isTransient : ε → Bool)
    (call : Nat → Except ε α) : Nat → Nat → Nat → Option (RetryRun ε α)
  | 0, attempt, now => some ⟨[now], now + cost attempt, call attempt⟩
  | left + 1, attempt, now =>
    match call attempt with
    | .ok a => some ⟨[now], now + cost attempt, .ok a⟩
    | .error e =>
      if isTransient e then
        (p.delay? attempt).bind fun d =>
          match endOfWait cancel (now + cost attempt) d.toMillis with
          | (true, stop) => some ⟨[now], stop, .error e⟩
          | (false, next) =>
            (p.runFrom? cancel cost isTransient call left (attempt + 1) next).map fun r =>
              { r with starts := now :: r.starts }
      else some ⟨[now], now + cost attempt, .error e⟩

/-- Repeats a call, which takes `cost i` when it is made for the time `i` counted from zero, from time zero
on. -/
def runTimed? (p : RetryPolicy) (cancel : Option Nat) (cost : Nat → Nat) (isTransient : ε → Bool)
    (call : Nat → Except ε α) : Option (RetryRun ε α) :=
  p.runFrom? cancel cost isTransient call p.maxRetries 0 0

def run? (p : RetryPolicy) (cancel : Option Nat) (cost : Nat) (isTransient : ε → Bool)
    (call : Nat → Except ε α) : Option (RetryRun ε α) :=
  p.runTimed? cancel (fun _ => cost) isTransient call

end RetryPolicy
end Telemetry
