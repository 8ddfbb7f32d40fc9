import Mathlib.Logic.Relation
import Telemetry.Agent.Sender
import Telemetry.Proofs.Agent.PoolProgress

/-!
What a schedule does. Its functions are opened here: whatever the clock, the link and the retry policy make
of them, the pool moves by steps that are possible, and each send that ends is one of the link. What is
kept or moved is shown from the cases of three relations, one for deliveries under way, one for all that
happens at once and one for the passing of time.
-/
namespace Telemetry.Agent

namespace PoolStep
variable {α : Type}

/-- The jobs that a step brings with a new cycle, if it is one that does. -/
def cycle? : PoolStep α → Option (List α)
  | .offer jobs => some jobs
  | _ => none

def isDelivery : PoolStep α → Bool
  | .resend _ => true
  | .giveUp _ => true
  | _ => false

def isSettling : PoolStep α → Bool
  | .accept => true
  | .take _ => true
  | _ => false

theorem cycle?_eq_none {step : PoolStep α} (h : step.isDelivery ∨ step.isSettling) : step.cycle? = none := by
  cases step with
  | offer jobs => rcases h with h | h <;> cases h
  | _ => rfl

theorem ne_finish {step : PoolStep α} (h : step.isDelivery ∨ step.isSettling) (ticket : Nat)
    (outcome : Outcome) : step ≠ .finish ticket outcome := by
  rintro rfl
  rcases h with h | h <;> cases h

end PoolStep

namespace Schedule
variable {ρ σ : Type}

/-- What is done for the deliveries under way, and the step of the pool that it takes. -/
inductive Serves (link : Link ρ σ) (s : Schedule ρ σ) : Option (PoolStep Job) → Schedule ρ σ → Prop
  | note (deadlines : List Deadline) {maxInFlight : Nat}
      (hmax : maxInFlight ≤ max s.maxInFlight s.pool.inFlight) :
      Serves link s none { s with deadlines, maxInFlight }
  | step {step : PoolStep Job} {pool : Pool Job} (hdelivery : step.isDelivery)
      (hstep : s.pool.step? step = some pool) : Serves link s (some step) { s with pool }
  /-- A send of the link ends. -/
  | send {ticket : Nat} {t : Delivery Job} {rest : List (Delivery Job)} {pool : Pool Job} (start : Nat)
      (hpick : Pool.pick? ticket s.pool.deliveries = some (t, rest))
      (hstep : s.pool.step? (.finish ticket (link.outcome (link.send t.job s.peer).1)) = some pool) :
      Serves link s (some (.finish ticket (link.outcome (link.send t.job s.peer).1))) { s with
        pool, peer := (link.send t.job s.peer).2
        sent := s.sent ++ [⟨start, t.job, (link.send t.job s.peer).1⟩] }

/-- What is done at once. -/
inductive Works (link : Link ρ σ) (s : Schedule ρ σ) : Option (PoolStep Job) → Schedule ρ σ → Prop
  | serve {step : Option (PoolStep Job)} {s' : Schedule ρ σ} (h : s.Serves link step s') :
      Works link s step s'
  | settle {step : PoolStep Job} {pool : Pool Job} (hsettling : step.isSettling)
      (hstep : s.pool.step? step = some pool) : Works link s (some step) { s with pool }
  /-- The queue is closed, as no worker is left for the jobs that wait. -/
  | desert {pool : Pool Job} (hdeserted : s.pool.isDeserted) (hpending : s.pool.pending ≠ [])
      (hstep : s.pool.step? .close = some pool) : Works link s (some .close) { s with pool }

/-- What happens as time passes. -/
inductive Passes (link : Link ρ σ) (period : Nat) (jobsAt : Nat → List Job) (cancel : Option Nat)
    (s : Schedule ρ σ) : Option (PoolStep Job) → Schedule ρ σ → Prop
  | work {step : Option (PoolStep Job)} {s' : Schedule ρ σ} (h : s.Works link step s') :
      Passes link period jobsAt cancel s step s'
  /-- The clock goes on, but not beyond the start of a cycle. -/
  | wait {time : Nat} (hnow : s.now ≤ time)
      (hcycle : s.pool.pending = [] → s.pool.isClosed = false → ∀ due ∈ s.nextCycle, time ≤ max due s.now) :
      Passes link period jobsAt cancel s none { s with now := time }
  | cycle {due : Nat} {pool : Pool Job} (hdue : s.nextCycle = some due) (hle : due ≤ s.now)
      (hbefore : ∀ stop ∈ cancel, s.now < stop)
      (hstep : s.pool.step? (.offer (jobsAt s.now)) = some pool) :
      Passes link period jobsAt cancel s (some (.offer (jobsAt s.now)))
        { s with pool, nextCycle := some (due + period) }
  | cancel (hstop : cancel = some s.now) :
      Passes link period jobsAt cancel s (some .cancel)
        { s with pool := { s.pool with isCancelled := true } }
  /-- The queue is closed at the cancellation, and jobs wait then only because it is full. -/
  | close {pool : Pool Job} (hstop : cancel = some s.now)
      (hfull : s.pool.pending ≠ [] → s.pool.capacity ≤ s.pool.queue.length)
      (hstep : s.pool.step? .close = some pool) :
      Passes link period jobsAt cancel s (some .close) { s with pool }

abbrev ServesTo (link : Link ρ σ) : Schedule ρ σ → Schedule ρ σ → Prop :=
  Relation.ReflTransGen fun s s' => ∃ step, s.Serves link step s'

abbrev WorksTo (link : Link ρ σ) : Schedule ρ σ → Schedule ρ σ → Prop :=
  Relation.ReflTransGen fun s s' => ∃ step, s.Works link step s'

abbrev PassesTo (link : Link ρ σ) (period : Nat) (jobsAt : Nat → List Job) (cancel : Option Nat) :
    Schedule ρ σ → Schedule ρ σ → Prop :=
  Relation.ReflTransGen fun s s' => ∃ step, s.Passes link period jobsAt cancel step s'

section Functions
variable {link : Link ρ σ} {s : Schedule ρ σ} {step : PoolStep Job} {pool : Pool Job} {ticket : Nat}
  {t : Delivery Job} {rest : List (Delivery Job)}

theorem act_of_some (hstep : s.pool.step? step = some pool) : s.act step = { s with pool } := by
  rw [act, Pool.step, hstep, Option.getD_some]

theorem act_of_none (hstep : s.pool.step? step = none) : s.act step = s := by
  rw [act, Pool.step, hstep, Option.getD_none]

theorem delivery?_of_pick? (hpick : Pool.pick? ticket s.pool.deliveries = some (t, rest)) :
    s.delivery? ticket = some t := by
  rw [delivery?, hpick]
  rfl

theorem endSend_of_pick? (start : Nat) (hpick : Pool.pick? ticket s.pool.deliveries = some (t, rest))
    (hstep : s.pool.step? (.finish ticket (link.outcome (link.send t.job s.peer).1)) = some pool) :
    s.endSend link ticket start = (({ s with
      pool, peer := (link.send t.job s.peer).2
      sent := s.sent ++ [⟨start, t.job, (link.send t.job s.peer).1⟩] } : Schedule ρ σ).dropDeadline
        ticket).pause ticket := by
  simp only [endSend, delivery?_of_pick? hpick, hstep]

variable (link)

theorem serves_act (s : Schedule ρ σ) (hdelivery : step.isDelivery) : s.ServesTo link (s.act step) := by
  cases hstep : s.pool.step? step with
  | none => rw [act_of_none hstep]
  | some pool => exact act_of_some hstep ▸ .single ⟨_, .step hdelivery hstep⟩

theorem serves_deadlines (s : Schedule ρ σ) (deadlines : List Deadline) :
    s.ServesTo link { s with deadlines } := .single ⟨_, .note deadlines (Nat.le_max_left _ _)⟩

theorem serves_giveUp (s : Schedule ρ σ) (ticket : Nat) : s.ServesTo link (s.giveUp ticket) :=
  (serves_act link s rfl).trans (serves_deadlines link _ _)

theorem serves_pause (s : Schedule ρ σ) (ticket : Nat) : s.ServesTo link (s.pause ticket) := by
  rw [pause]
  split
  · exact .refl
  · split
    · exact .refl
    · split
      · exact serves_giveUp link s ticket
      · exact serves_deadlines link s _

theorem serves_pause_dropDeadline (s : Schedule ρ σ) (ticket : Nat) :
    s.ServesTo link ((s.dropDeadline ticket).pause ticket) :=
  (serves_deadlines link s _).trans (serves_pause link _ ticket)

theorem serves_endSend (s : Schedule ρ σ) (ticket start : Nat) :
    s.ServesTo link (s.endSend link ticket start) := by
  cases hpick : Pool.pick? ticket s.pool.deliveries with
  | none =>
    have hnone : s.delivery? ticket = none := by rw [delivery?, hpick]; rfl
    simp only [endSend, hnone]
    exact .refl
  | some r =>
    obtain ⟨t, rest⟩ := r
    cases hstep : s.pool.step? (.finish ticket (link.outcome (link.send t.job s.peer).1)) with
    | none =>
      simp only [endSend, delivery?_of_pick? hpick, hstep]
      exact .refl
    | some pool =>
      rw [endSend_of_pick? start hpick hstep]
      exact .head ⟨_, .send start hpick hstep⟩ (serves_pause_dropDeadline link _ ticket)

theorem serves_beginSend (s : Schedule ρ σ) (ticket : Nat) : s.ServesTo link (s.beginSend link ticket) := by
  have hnote : s.ServesTo link { s with maxInFlight := max s.maxInFlight s.pool.inFlight } :=
    .single ⟨_, .note s.deadlines (Nat.le_refl _)⟩
  simp only [beginSend]
  split
  · exact hnote.trans (serves_endSend link _ ticket _)
  · exact hnote.trans (serves_deadlines link _ _)

theorem serves_giveUpAll (s : Schedule ρ σ) : s.ServesTo link s.giveUpAll := by
  have hfold : ∀ (ts : List (Delivery Job)) (s : Schedule ρ σ),
      s.ServesTo link (ts.foldl (fun s t => s.giveUp t.ticket) s) := by
    intro ts
    induction ts with
    | nil => exact fun s => .refl
    | cons t ts ih => exact fun s => (serves_giveUp link s t.ticket).trans (ih _)
  exact hfold _ s

variable {link}

theorem ServesTo.works {s s' : Schedule ρ σ} (h : s.ServesTo link s') : s.WorksTo link s' :=
  Relation.ReflTransGen.mono (fun _ _ ⟨step, h⟩ => ⟨step, .serve h⟩) _ _ h

theorem WorksTo.passes {s s' : Schedule ρ σ} (h : s.WorksTo link s') (period : Nat)
    (jobsAt : Nat → List Job) (cancel : Option Nat) : s.PassesTo link period jobsAt cancel s' :=
  Relation.ReflTransGen.mono (fun _ _ ⟨step, h⟩ => ⟨step, .work h⟩) _ _ h

variable (link)

theorem works_settle (fuel : Nat) (s : Schedule ρ σ) : s.WorksTo link (s.settle link fuel) := by
  induction fuel generalizing s with
  | zero => exact .refl
  | succ fuel ih =>
    rw [settle]
    split
    · next pool haccept => exact .head ⟨_, .settle rfl haccept⟩ (ih _)
    · split
      · next worker ticket job rest hworker hqueue =>
        have htake : s.WorksTo link (s.act (.take worker)) := by
          cases hstep : s.pool.step? (.take worker) with
          | none => rw [act_of_none hstep]
          | some pool => exact act_of_some hstep ▸ .single ⟨_, .settle rfl hstep⟩
        exact (htake.trans (serves_beginSend link _ ticket).works).trans (ih _)
      · split
        · next hdeserted =>
          rw [Bool.and_eq_true, Bool.not_eq_true', List.isEmpty_eq_false_iff] at hdeserted
          have hstep := Pool.step?_close (.inr (.inl hdeserted.1))
          exact act_of_some hstep ▸ .single ⟨_, .desert hdeserted.1 hdeserted.2 hstep⟩
        · exact .refl

theorem works_settled (s : Schedule ρ σ) : s.WorksTo link (s.settled link) := works_settle link _ s

end Functions

section Fields
variable {link : Link ρ σ} {s s' s'' : Schedule ρ σ} {step : Option (PoolStep Job)}

/-- The schedules differ in their deliveries at most. -/
structure SameQueue (s s' : Schedule ρ σ) : Prop where
  pending : s'.pool.pending = s.pool.pending
  queue : s'.pool.queue = s.pool.queue
  isCancelled : s'.pool.isCancelled = s.pool.isCancelled
  isClosed : s'.pool.isClosed = s.pool.isClosed
  now : s'.now = s.now
  nextCycle : s'.nextCycle = s.nextCycle

theorem SameQueue.trans (h : s.SameQueue s') (h' : s'.SameQueue s'') : s.SameQueue s'' where
  pending := h'.pending.trans h.pending
  queue := h'.queue.trans h.queue
  isCancelled := h'.isCancelled.trans h.isCancelled
  isClosed := h'.isClosed.trans h.isClosed
  now := h'.now.trans h.now
  nextCycle := h'.nextCycle.trans h.nextCycle

theorem SameQueue.refl (s : Schedule ρ σ) : s.SameQueue s := ⟨rfl, rfl, rfl, rfl, rfl, rfl⟩

theorem Serves.sameQueue (h : s.Serves link step s') : s.SameQueue s' := by
  cases h with
  | note => exact ⟨rfl, rfl, rfl, rfl, rfl, rfl⟩
  | step hdelivery hstep =>
    cases Pool.moves_of_step? hstep with
    | resend => exact ⟨rfl, rfl, rfl, rfl, rfl, rfl⟩
    | giveUp => exact ⟨rfl, rfl, rfl, rfl, rfl, rfl⟩
    | _ => cases hdelivery
  | send start hpick hstep =>
    generalize link.outcome _ = outcome at hstep
    cases Pool.moves_of_step? hstep with
    | wait => exact ⟨rfl, rfl, rfl, rfl, rfl, rfl⟩
    | panic => exact ⟨rfl, rfl, rfl, rfl, rfl, rfl⟩
    | finish => exact ⟨rfl, rfl, rfl, rfl, rfl, rfl⟩

theorem ServesTo.sameQueue (h : s.ServesTo link s') : s.SameQueue s' := by
  induction h with
  | refl => exact .refl s
  | tail _ hlast ih =>
    obtain ⟨step, hlast⟩ := hlast
    exact ih.trans hlast.sameQueue

/-- What is done at once takes no time and neither begins a cycle nor cancels the work. -/
structure SameTime (s s' : Schedule ρ σ) : Prop where
  now : s'.now = s.now
  nextCycle : s'.nextCycle = s.nextCycle
  isCancelled : s'.pool.isCancelled = s.pool.isCancelled

theorem Works.sameTime (h : s.Works link step s') : s.SameTime s' := by
  cases h with
  | serve h => exact ⟨h.sameQueue.now, h.sameQueue.nextCycle, h.sameQueue.isCancelled⟩
  | settle hsettling hstep =>
    cases Pool.moves_of_step? hstep with
    | accept => exact ⟨rfl, rfl, rfl⟩
    | take => exact ⟨rfl, rfl, rfl⟩
    | _ => cases hsettling
  | desert hdeserted hpending hstep =>
    cases Pool.moves_of_step? hstep with
    | close => exact ⟨rfl, rfl, rfl⟩

theorem WorksTo.sameTime (h : s.WorksTo link s') : s.SameTime s' := by
  induction h with
  | refl => exact ⟨rfl, rfl, rfl⟩
  | tail _ hlast ih =>
    obtain ⟨step, hlast⟩ := hlast
    obtain ⟨hnow, hcycle, hcancelled⟩ := hlast.sameTime
    exact ⟨hnow.trans ih.now, hcycle.trans ih.nextCycle, hcancelled.trans ih.isCancelled⟩

/-- What is done at once are steps of the pool that begin no cycle. -/
theorem Works.moves (h : s.Works link step s') : step = none ∧ s'.pool = s.pool ∨
    ∃ move, step = some move ∧ s.pool.Moves move s'.pool ∧ move.cycle? = none := by
  cases h with
  | serve h =>
    cases h with
    | note => exact .inl ⟨rfl, rfl⟩
    | step hdelivery hstep =>
      exact .inr ⟨_, rfl, Pool.moves_of_step? hstep, PoolStep.cycle?_eq_none (.inl hdelivery)⟩
    | send start hpick hstep => exact .inr ⟨_, rfl, Pool.moves_of_step? hstep, rfl⟩
  | settle hsettling hstep =>
    exact .inr ⟨_, rfl, Pool.moves_of_step? hstep, PoolStep.cycle?_eq_none (.inr hsettling)⟩
  | desert hdeserted hpending hstep => exact .inr ⟨_, rfl, Pool.moves_of_step? hstep, rfl⟩

/-- What each such step keeps holds at the end. -/
theorem WorksTo.keeps {P : Pool Job → Prop} (h : s.WorksTo link s') (hs : P s.pool)
    (hkeeps : ∀ {p q step}, p.Moves step q → step.cycle? = none → P p → P q) : P s'.pool := by
  induction h with
  | refl => exact hs
  | tail _ hlast ih =>
    obtain ⟨step, hlast⟩ := hlast
    rcases hlast.moves with ⟨-, heq⟩ | ⟨move, -, hmoves, hcycle⟩
    · exact heq ▸ ih
    · exact hkeeps hmoves hcycle ih

theorem WorksTo.exists_tells {h : History Job} (hworks : s.WorksTo link s') (hp : h.Tells s.pool) :
    ∃ h', History.Tells h' s'.pool :=
  hworks.keeps (P := fun q => ∃ h', History.Tells h' q) ⟨h, hp⟩ fun hmoves _ ⟨_, hp⟩ => ⟨_, hp.step hmoves⟩

theorem WorksTo.isClosed (h : s.WorksTo link s') (hclosed : s.pool.isClosed) : s'.pool.isClosed :=
  h.keeps (P := fun q => q.isClosed) hclosed fun hmoves _ hclosed => by
    cases hmoves with
    | close => rfl
    | _ => exact hclosed

theorem capacity_of_moves {p q : Pool Job} {step : PoolStep Job} (hstep : p.Moves step q) :
    q.capacity = p.capacity := by
  cases hstep <;> rfl

theorem WorksTo.settings (h : s.WorksTo link s') :
    s'.pool.workers = s.pool.workers ∧ s'.pool.policy = s.pool.policy ∧
      s'.pool.capacity = s.pool.capacity := by
  refine h.keeps (P := fun q => q.workers = s.pool.workers ∧ q.policy = s.pool.policy ∧
    q.capacity = s.pool.capacity) ⟨rfl, rfl, rfl⟩ fun hmoves _ hsettings => ?_
  rwa [Pool.workers_of_moves hmoves, Pool.policy_of_moves hmoves, capacity_of_moves hmoves]

end Fields

end Schedule
end Telemetry.Agent
