import Telemetry.Agent.Schedule

/-!
Sending metrics: once and on demand, or in cycles until the work is cancelled. Either way the pool is
drained before the sending is over.
-/
namespace Telemetry.Agent

/-- Metrics that change while they are sent. -/
structure Feed where
  initial : Ledger
  /-- Updates with the times at which they come. -/
  changes : List (Nat × Key × Input)
deriving DecidableEq

namespace Feed

/-- The metrics at a time. Updates take effect in the order of their times, those of one time in the
order in which they are listed; an update that is refused changes nothing. -/
def metricsAt (f : Feed) (time : Nat) : Ledger :=
  ((f.changes.filter fun c => c.1 ≤ time).mergeSort fun a b => a.1 ≤ b.1).foldl (fun l c =>
    match l.apply c.2.1 c.2.2 with
    | .ok (_, l') => l'
    | .error _ => l) f.initial

def bound (f : Feed) : Nat := f.initial.length + f.changes.length

end Feed

structure Sender where
  mode : SendMode
  workers : Nat
  /-- Milliseconds between the starts of two cycles. -/
  period : Nat
  policy : RetryPolicy
deriving DecidableEq

namespace Sender

variable {ρ σ : Type}

/-- The pool of the sender, which has a worker at least. -/
def pool (s : Sender) (capacity : Nat) : Pool Job :=
  { workers := max 1 s.workers, capacity, policy := s.policy }

def jobsAt (s : Sender) (feed : Feed) (time : Nat) : List Job :=
  Job.ofSnapshot s.mode (feed.metricsAt time)

/-- A bound on the moments at which something happens while the given number of jobs is done. -/
def maxMoments (s : Sender) (jobs : Nat) : Nat := 2 * (s.policy.maxRetries + 1) * jobs + 1

def flush (s : Sender) (link : Link ρ σ) (peer : σ) (feed : Feed) (cancel : Option Nat) :
    Schedule ρ σ :=
  let jobs := s.jobsAt feed 0
  let start : Schedule ρ σ := { pool := { s.pool jobs.length with pending := jobs }, peer }
  Schedule.run link s.period (s.jobsAt feed) cancel (s.maxMoments jobs.length)
    ((start.settled link).act .close)

def run (s : Sender) (link : Link ρ σ) (peer : σ) (feed : Feed) (cancel : Nat) : Schedule ρ σ :=
  let cycles := cancel / s.period + 1
  let start : Schedule ρ σ :=
    { pool := s.pool (16 * max 1 s.workers), peer, nextCycle := some s.period }
  Schedule.run link s.period (s.jobsAt feed) (some cancel)
    (cycles + s.maxMoments (cycles * feed.bound) + 1) start

end Sender
end Telemetry.Agent
