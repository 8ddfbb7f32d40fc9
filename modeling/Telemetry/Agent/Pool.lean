import Telemetry.Retry.Policy

/-!
Workers behind a queue of bounded length. The jobs of a cycle wait until the queue accepts them; a worker
that has no job takes the oldest accepted one and sends it at once; a failed send is repeated after a wait
as long as the failure may pass and attempts are left. A cancellation cuts the waits short and closes the
queue: jobs that are not accepted by then are dropped, and accepted ones are still taken. A worker that
meets a wait too long for a duration panics: its job is over and it takes no other, and when all workers
have panicked the queue neither takes nor gives any more jobs. Which of the possible steps comes next is
not said here.
-/
namespace Telemetry.Agent

inductive Outcome where
  | delivered
  /-- A failure that may pass. -/
  | transient
  | permanent
deriving DecidableEq, Repr

inductive Phase where
  | sending
  | waiting
deriving DecidableEq, Repr

/-- A job in the hands of a worker. Jobs are numbered in the order in which they are accepted. -/
structure Delivery (α : Type) where
  worker : Nat
  ticket : Nat
  job : α
  /-- The sends that have begun. -/
  sends : Nat
  phase : Phase
deriving DecidableEq, Repr

/-- A job that is over: the sends it took, and whether the last one delivered it. -/
structure Finished (α : Type) where
  worker : Nat
  ticket : Nat
  job : α
  sends : Nat
  isDelivered : Bool
deriving DecidableEq, Repr

structure Pool (α : Type) where
  workers : Nat
  capacity : Nat
  policy : RetryPolicy
  /-- The jobs of the cycle that are not accepted yet. -/
  pending : List α := []
  /-- The accepted jobs with their tickets, oldest first. -/
  queue : List (Nat × α) := []
  /-- In the order in which their phases began. -/
  deliveries : List (Delivery α) := []
  finished : List (Finished α) := []
  panicked : List Nat := []
  /-- The number of jobs accepted so far. -/
  accepted : Nat := 0
  isCancelled : Bool := false
  isClosed : Bool := false
deriving DecidableEq, Repr

inductive PoolStep (α : Type) where
  /-- A new cycle begins. -/
  | offer (jobs : List α)
  /-- The queue accepts the next job of the cycle. -/
  | accept
  /-- A worker takes the oldest job and begins to send it. -/
  | take (worker : Nat)
  | finish (ticket : Nat) (outcome : Outcome)
  /-- A wait ends and the send is repeated. -/
  | resend (ticket : Nat)
  /-- A wait is cut short. -/
  | giveUp (ticket : Nat)
  | cancel
  /-- No further job is accepted. -/
  | close
deriving DecidableEq, Repr

namespace Pool

variable {α : Type}

/-- The delivery with a ticket, and the other deliveries. -/
def pick? (ticket : Nat) : List (Delivery α) → Option (Delivery α × List (Delivery α))
  | [] => none
  | t :: ts =>
    if t.ticket = ticket then some (t, ts) else (pick? ticket ts).map fun (u, us) => (u, t :: us)

/-- The workers that do not wait for a job. -/
def occupied (p : Pool α) : List Nat := p.deliveries.map Delivery.worker ++ p.panicked

def freeWorker? (p : Pool α) : Option Nat :=
  (List.range p.workers).find? fun worker => worker ∉ p.occupied

/-- No worker is left, and so no one has the other end of the queue. -/
def isDeserted (p : Pool α) : Bool := (List.range p.workers).all fun worker => worker ∈ p.panicked

def conclude (p : Pool α) (t : Delivery α) (rest : List (Delivery α)) (isDelivered : Bool) : Pool α :=
  { p with
    deliveries := rest
    finished := p.finished ++ [⟨t.worker, t.ticket, t.job, t.sends, isDelivered⟩] }

def panic (p : Pool α) (t : Delivery α) (rest : List (Delivery α)) : Pool α :=
  { p.conclude t rest false with panicked := p.panicked ++ [t.worker] }

def proceed (p : Pool α) (t : Delivery α) (rest : List (Delivery α)) : Pool α :=
  { p with deliveries := rest ++ [t] }

/-- A step, if it is possible. A cycle is cut off by closing, which wants a cancellation, that no worker is
left or that all jobs of the cycle are accepted. -/
def step? (p : Pool α) : PoolStep α → Option (Pool α)
  | .offer jobs => if p.pending.isEmpty ∧ ¬p.isClosed then some { p with pending := jobs } else none
  | .accept =>
    match p.pending with
    | job :: rest =>
      if p.queue.length < p.capacity ∧ ¬p.isClosed ∧ ¬p.isDeserted then
        some { p with
          pending := rest, queue := p.queue ++ [(p.accepted, job)], accepted := p.accepted + 1 }
      else none
    | [] => none
  | .take worker =>
    match p.queue with
    | (ticket, job) :: rest =>
      if worker < p.workers ∧ worker ∉ p.occupied then
        some { p with queue := rest, deliveries := p.deliveries ++ [⟨worker, ticket, job, 1, .sending⟩] }
      else none
    | [] => none
  | .finish ticket outcome =>
    match pick? ticket p.deliveries with
    | some (t, rest) =>
      if t.phase = .sending then
        if outcome = .transient ∧ t.sends ≤ p.policy.maxRetries then
          if (p.policy.delay? (t.sends - 1)).isSome then
            some (p.proceed { t with phase := .waiting } rest)
          else some (p.panic t rest)
        else some (p.conclude t rest (outcome = .delivered))
      else none
    | none => none
  | .resend ticket =>
    match pick? ticket p.deliveries with
    | some (t, rest) =>
      if t.phase = .waiting then
        some (p.proceed { t with phase := .sending, sends := t.sends + 1 } rest)
      else none
    | none => none
  | .giveUp ticket =>
    match pick? ticket p.deliveries with
    | some (t, rest) =>
      if t.phase = .waiting ∧ p.isCancelled then some (p.conclude t rest false) else none
    | none => none
  | .cancel => some { p with isCancelled := true }
  | .close =>
    if p.isCancelled ∨ p.isDeserted ∨ p.pending.isEmpty then
      some { p with pending := [], isClosed := true }
    else none

def run? (p : Pool α) : List (PoolStep α) → Option (Pool α)
  | [] => some p
  | s :: ss => (p.step? s).bind fun p => p.run? ss

/-- A step, or nothing if it is not possible. -/
def step (p : Pool α) (s : PoolStep α) : Pool α := (p.step? s).getD p

/-- All workers end, as no job will come, or have ended. -/
def isOver (p : Pool α) : Bool :=
  p.isClosed && p.deliveries.isEmpty && (p.queue.isEmpty || p.isDeserted)

def inFlight (p : Pool α) : Nat := p.deliveries.countP fun t => t.phase = .sending

end Pool
end Telemetry.Agent
