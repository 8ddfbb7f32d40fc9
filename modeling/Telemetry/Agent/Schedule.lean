import Telemetry.Agent.Job
import Telemetry.Agent.Pool
import Telemetry.Store.Ledger

/-!
A pool at work, with a clock in milliseconds. What is possible at once happens at once: the queue
accepts jobs and free workers take them. Otherwise the clock goes on to the next moment at which a
send or a wait ends, the work is cancelled or a cycle begins. Cycles begin after every full period;
one that comes while the jobs of the last are not all accepted is made up for.
-/
namespace Telemetry.Agent

/-- What is sent, at which cost and with what result. Of type `ρ` are the results of sends, and of
type `σ` what the other side remembers. -/
structure Link (ρ σ : Type) where
  /-- How long a send takes. -/
  cost : Nat
  send : Job → σ → ρ × σ
  outcome : ρ → Outcome

structure Sent (ρ : Type) where
  start : Nat
  job : Job
  result : ρ
deriving DecidableEq

/-- When the phase of a delivery began and when it ends. -/
structure Deadline where
  ticket : Nat
  start : Nat
  due : Nat
deriving DecidableEq, Repr

structure Schedule (ρ σ : Type) where
  pool : Pool Job
  peer : σ
  now : Nat := 0
  /-- In the order in which the phases began. -/
  deadlines : List Deadline := []
  sent : List (Sent ρ) := []
  maxInFlight : Nat := 0
  /-- The start of the next cycle, if there is one. -/
  nextCycle : Option Nat := none

/-- What ends at the next moment. -/
inductive Moment where
  | phase (d : Deadline)
  | cancellation
  | cycle
deriving DecidableEq, Repr

namespace Schedule

variable {ρ σ : Type}

def act (s : Schedule ρ σ) (step : PoolStep Job) : Schedule ρ σ :=
  { s with pool := s.pool.step step }

def dropDeadline (ticket : Nat) (s : Schedule ρ σ) : Schedule ρ σ :=
  { s with deadlines := s.deadlines.filter fun d => d.ticket ≠ ticket }

def setDeadline (ticket due : Nat) (s : Schedule ρ σ) : Schedule ρ σ :=
  { s.dropDeadline ticket with
    deadlines := (s.dropDeadline ticket).deadlines ++ [⟨ticket, s.now, due⟩] }

def delivery? (s : Schedule ρ σ) (ticket : Nat) : Option (Delivery Job) :=
  (Pool.pick? ticket s.pool.deliveries).map Prod.fst

def giveUp (ticket : Nat) (s : Schedule ρ σ) : Schedule ρ σ :=
  (s.act (.giveUp ticket)).dropDeadline ticket

def pause (ticket : Nat) (s : Schedule ρ σ) : Schedule ρ σ :=
  match s.delivery? ticket with
  | none => s
  | some t =>
    match s.pool.policy.delay? (t.sends - 1) with
    | none => s
    | some d => if s.pool.isCancelled then s.giveUp ticket else s.setDeadline ticket (s.now + d.toMillis)

/-- Ends a send that began at `start`: its result is noted, and the delivery waits or is over. -/
def endSend (link : Link ρ σ) (ticket start : Nat) (s : Schedule ρ σ) : Schedule ρ σ :=
  match s.delivery? ticket with
  | none => s
  | some t =>
    let (result, peer) := link.send t.job s.peer
    match s.pool.step? (.finish ticket (link.outcome result)) with
    | none => s
    | some pool =>
      let s : Schedule ρ σ := { s with pool, peer, sent := s.sent ++ [⟨start, t.job, result⟩] }
      (s.dropDeadline ticket).pause ticket

def beginSend (link : Link ρ σ) (ticket : Nat) (s : Schedule ρ σ) : Schedule ρ σ :=
  let s : Schedule ρ σ := { s with maxInFlight := max s.maxInFlight s.pool.inFlight }
  if link.cost = 0 then s.endSend link ticket s.now else s.setDeadline ticket (s.now + link.cost)

/-- Accepts and takes jobs, in at most the given number of steps, until neither is possible. If no worker
is left to take a job that waits to be accepted, the queue is closed. -/
def settle (link : Link ρ σ) : Nat → Schedule ρ σ → Schedule ρ σ
  | 0, s => s
  | fuel + 1, s =>
    match s.pool.step? .accept with
    | some pool => settle link fuel { s with pool }
    | none =>
      match s.pool.freeWorker?, s.pool.queue with
      | some worker, (ticket, _) :: _ =>
        settle link fuel (beginSend link ticket (s.act (.take worker)))
      | _, _ => if s.pool.isDeserted && !s.pool.pending.isEmpty then s.act .close else s

def settled (link : Link ρ σ) (s : Schedule ρ σ) : Schedule ρ σ :=
  settle link (2 * s.pool.pending.length + s.pool.queue.length + 1) s

/-- The first of the earliest deadlines. -/
def firstDue? : List Deadline → Option Deadline
  | [] => none
  | d :: ds =>
    match firstDue? ds with
    | none => some d
    | some e => if d.due ≤ e.due then some d else some e

/-- The next moment and what ends at it. At one moment phases end first, then the work is cancelled,
then a cycle begins. -/
def next? (cancel : Option Nat) (s : Schedule ρ σ) : Option (Nat × Moment) :=
  let phase := (firstDue? s.deadlines).map fun d => (d.due, Moment.phase d)
  let cancellation := (if s.pool.isCancelled then none else cancel).map fun t =>
    (t, Moment.cancellation)
  let cycle := (if s.pool.pending.isEmpty && !s.pool.isClosed then s.nextCycle else none).map
    fun t => (max t s.now, Moment.cycle)
  ([phase, cancellation, cycle].filterMap id).foldl (fun best m =>
    match best with
    | none => some m
    | some b => if b.1 ≤ m.1 then some b else some m) none

def giveUpAll (s : Schedule ρ σ) : Schedule ρ σ :=
  (s.pool.deliveries.filter fun t => t.phase = .waiting).foldl (fun s t => s.giveUp t.ticket) s

/-- What happens at a moment. A cycle takes the metrics that there are when it begins. -/
def happen (link : Link ρ σ) (period : Nat) (jobsAt : Nat → List Job) (m : Moment) (s : Schedule ρ σ) :
    Schedule ρ σ :=
  match m with
  | .phase d =>
    match s.delivery? d.ticket with
    | none => s
    | some t =>
      match t.phase with
      | .sending => s.endSend link d.ticket d.start
      | .waiting => beginSend link d.ticket (s.act (.resend d.ticket))
  | .cancellation =>
    let s := giveUpAll (s.act .cancel)
    if s.nextCycle.isSome then s.act .close else s
  | .cycle =>
    { s.act (.offer (jobsAt s.now)) with nextCycle := s.nextCycle.map (· + period) }

/-- Lets at most the given number of moments pass, until all is over or nothing will ever happen. -/
def run (link : Link ρ σ) (period : Nat) (jobsAt : Nat → List Job) (cancel : Option Nat) :
    Nat → Schedule ρ σ → Schedule ρ σ
  | 0, s => s
  | fuel + 1, s =>
    if s.pool.isOver then s
    else match s.next? cancel with
      | none => s
      | some (t, m) =>
        run link period jobsAt cancel fuel
          (settled link (happen link period jobsAt m { s with now := t }))

end Schedule
end Telemetry.Agent
