import Mathlib.Data.List.Forall2
import Telemetry.Proofs.Agent.SenderEnds

/-!
Logs of senders. A log says which steps the pool of a schedule has done, and when. With the history of these
steps it accounts for all that a schedule shows: the sends in its record are those that have ended, one
after another over the same link, and a cycle has the jobs of the time at which it begins.
-/
namespace Telemetry.Agent

abbrev Log := List (Nat × PoolStep Job)

namespace Log

def steps (log : Log) : List (PoolStep Job) := log.map Prod.snd

/-- The starts of the cycles. -/
def ticks (log : Log) : List Nat := (log.filter fun e => e.2.cycle?.isSome).map Prod.fst

theorem steps_append (log log' : Log) : (log ++ log').steps = log.steps ++ log'.steps := List.map_append

theorem ticks_append (log log' : Log) : (log ++ log').ticks = log.ticks ++ log'.ticks := by
  rw [ticks, List.filter_append, List.map_append]
  rfl

/-- Cycles begin after full periods and before the cancellation. One is late only if the last job of the
cycle before it is accepted at the moment at which it begins. -/
def IsPunctual (log : Log) (period stop : Nat) : Prop :=
  ∀ i time, log.ticks[i]? = some time →
    (i + 1) * period ≤ time ∧ time < stop ∧ (time = (i + 1) * period ∨ (time, .accept) ∈ log)

/-- The queue of a pool is closed because no worker is left for the jobs that wait, or at the cancellation:
jobs wait then only because the queue is full, and if none waits, no cycle that is due has not begun,
unless the last job of the cycle before it is accepted at the same moment. -/
def Closes (log : Log) (p : Pool Job) (period stop : Nat) : Prop :=
  ∃ (before : Log) (time : Nat) (after : Log) (q : Pool Job) (h : History Job),
    log = before ++ (time, .close) :: after ∧ p.watch? {} before.steps = some (q, h) ∧
      (q.isDeserted ∧ q.pending ≠ [] ∨ time = stop ∧ (q.pending ≠ [] → q.capacity ≤ q.queue.length) ∧
        (q.pending = [] → stop ≤ (before.ticks.length + 1) * period ∨ (stop, .accept) ∈ before))

theorem Closes.append {log : Log} {p : Pool Job} {period stop : Nat} (h : log.Closes p period stop)
    (log' : Log) : Closes (log ++ log') p period stop := by
  obtain ⟨before, time, after, q, g, rfl, h⟩ := h
  exact ⟨before, time, after ++ log', q, g, by simp, h⟩

end Log

namespace Pool
variable {α : Type} {p q r : Pool α} {h g : History α} {step : PoolStep α} {steps : List (PoolStep α)}

theorem watch?_concat (hrun : p.watch? h steps = some (q, g)) (hstep : q.step? step = some r) :
    p.watch? h (steps ++ [step]) = some (r, q.note g step) := by
  induction steps generalizing p h with
  | nil =>
    cases hrun
    rw [List.nil_append, watch?, hstep]
    rfl
  | cons first steps ih =>
    obtain ⟨p', hfirst, hrest⟩ := Option.bind_eq_some_iff.1 hrun
    rw [List.cons_append, watch?, hfirst]
    exact ih hrest

theorem cycles_note (p : Pool α) (h : History α) (step : PoolStep α) :
    (p.note h step).cycles = h.cycles ++ step.cycle?.toList := by
  cases step <;> simp [note, PoolStep.cycle?]

theorem accepted_note_subset (p : Pool α) (h : History α) (step : PoolStep α) :
    h.accepted ⊆ (p.note h step).accepted := by
  cases step with
  | accept => exact List.subset_append_left _ _
  | _ => exact List.Subset.refl _

theorem ended_note (p : Pool α) (h : History α) (hstep : ∀ ticket outcome, step ≠ .finish ticket outcome) :
    (p.note h step).ended = h.ended := by
  cases step with
  | finish ticket outcome => exact absurd rfl (hstep ticket outcome)
  | _ => rfl

theorem dropped_note (hpending : p.pending = []) (step : PoolStep α) :
    (p.note h step).dropped = h.dropped := by
  cases step with
  | close => rw [note, hpending, List.append_nil]
  | _ => rfl

end Pool

namespace Link
variable {ρ σ : Type}

def sendAll (link : Link ρ σ) : List Job → σ → List ρ × σ
  | [], peer => ([], peer)
  | job :: jobs, peer =>
    let (result, peer) := link.send job peer
    let (results, peer) := link.sendAll jobs peer
    (result :: results, peer)

theorem sendAll_concat (link : Link ρ σ) (jobs : List Job) (job : Job) (peer : σ) :
    link.sendAll (jobs ++ [job]) peer =
      ((link.sendAll jobs peer).1 ++ [(link.send job (link.sendAll jobs peer).2).1],
        (link.send job (link.sendAll jobs peer).2).2) := by
  induction jobs generalizing peer with
  | nil => rfl
  | cons first jobs ih =>
    simp only [List.cons_append, sendAll, ih]

end Link

namespace Schedule
variable {ρ σ : Type} {link : Link ρ σ} {peer : σ} {p₀ : Pool Job} {jobsAt : Nat → List Job} {log : Log}
  {h h' : History Job} {s s' : Schedule ρ σ} {step : PoolStep Job} {label : Option (PoolStep Job)}
  {period : Nat} {cancel : Option Nat}

/-- The sends of a schedule are those that have ended, in this order and with these results, and they are
all that the other side has seen. -/
structure Explains (link : Link ρ σ) (peer : σ) (h : History Job) (s : Schedule ρ σ) : Prop where
  sent : List.Forall₂ (fun x e => (e.1, x.job) ∈ h.accepted ∧ link.outcome x.result = e.2) s.sent h.ended
  peer : link.sendAll (s.sent.map Sent.job) peer = (s.sent.map Sent.result, s.peer)

theorem Explains.congr (hs : Explains link peer h s) (haccepted : h.accepted ⊆ h'.accepted)
    (hended : h'.ended = h.ended) (hsent : s'.sent = s.sent) (hpeer : s'.peer = s.peer) :
    Explains link peer h' s' where
  sent := by
    rw [hsent, hended]
    exact hs.sent.imp fun x e ⟨hjob, hresult⟩ => ⟨haccepted hjob, hresult⟩
  peer := by rw [hsent, hpeer, hs.peer]

theorem Explains.send (hs : Explains link peer h s) (h' : History Job) {ticket : Nat} {job : Job} (start : Nat)
    (hjob : (ticket, job) ∈ h.accepted) (haccepted : h.accepted ⊆ h'.accepted)
    (hended : h'.ended = h.ended ++ [(ticket, link.outcome (link.send job s.peer).1)]) (pool : Pool Job) :
    Explains link peer h' { s with
      pool, peer := (link.send job s.peer).2, sent := s.sent ++ [⟨start, job, (link.send job s.peer).1⟩] } where
  sent := by
    rw [hended]
    refine List.rel_append ?_ (.cons ⟨haccepted hjob, rfl⟩ .nil)
    exact hs.sent.imp fun x e ⟨hjob, hresult⟩ => ⟨haccepted hjob, hresult⟩
  peer := by
    rw [List.map_append, List.map_append, List.map_singleton, Link.sendAll_concat, hs.peer]
    rfl

/-- A log and a history account for a schedule whose pool was at first such a one. -/
structure Logs (link : Link ρ σ) (peer : σ) (p₀ : Pool Job) (jobsAt : Nat → List Job) (log : Log)
    (h : History Job) (s : Schedule ρ σ) : Prop where
  watch : p₀.watch? {} log.steps = some (s.pool, h)
  cycles : h.cycles = log.ticks.map jobsAt
  sorted : (log.map Prod.fst).Pairwise (· ≤ ·)
  past : ∀ time ∈ log.map Prod.fst, time ≤ s.now
  explains : Explains link peer h s
  slots : s.maxInFlight ≤ p₀.workers

section Steps
variable (hp₀ : History.Tells {} p₀) (hs : Logs link peer p₀ jobsAt log h s)
include hs

theorem Logs.moves (hpool : s.pool.step? step = some s'.pool)
    (hcycle : ∀ jobs ∈ step.cycle?, jobs = jobsAt s.now) (hnow : s'.now = s.now)
    (hexplains : Explains link peer (s.pool.note h step) s') (hslots : s'.maxInFlight ≤ p₀.workers) :
    Logs link peer p₀ jobsAt (log ++ [(s.now, step)]) (s.pool.note h step) s' := by
  refine ⟨?_, ?_, ?_, ?_, hexplains, hslots⟩
  · rw [Log.steps_append]
    exact Pool.watch?_concat hs.watch hpool
  · rw [Log.ticks_append, List.map_append, Pool.cycles_note, hs.cycles]
    congr 1
    cases hstep : step.cycle? with
    | none => simp [Log.ticks, hstep]
    | some jobs => simp [Log.ticks, hstep, hcycle jobs hstep]
  · rw [List.map_append, List.pairwise_append]
    exact ⟨hs.sorted, List.pairwise_singleton _ _, fun time htime now hnow =>
      List.mem_singleton.1 hnow ▸ hs.past time htime⟩
  · rw [List.map_append, hnow]
    intro time htime
    rcases List.mem_append.1 htime with htime | htime
    · exact hs.past time htime
    · exact Nat.le_of_eq (List.mem_singleton.1 htime)

theorem Logs.moves_of_ne_finish {pool : Pool Job} (hpool : s.pool.step? step = some pool)
    (hcycle : ∀ jobs ∈ step.cycle?, jobs = jobsAt s.now)
    (hstep : ∀ ticket outcome, step ≠ .finish ticket outcome) (nextCycle : Option Nat) :
    Logs link peer p₀ jobsAt (log ++ [(s.now, step)]) (s.pool.note h step) { s with pool, nextCycle } :=
  hs.moves hpool hcycle rfl (hs.explains.congr (Pool.accepted_note_subset _ _ _) (Pool.ended_note _ _ hstep)
    rfl rfl) hs.slots

include hp₀

theorem Logs.tells : h.Tells s.pool := hp₀.watch? hs.watch

theorem Logs.serves (hserves : s.Serves link label s') :
    Logs link peer p₀ jobsAt (log ++ label.toList.map (s.now, ·)) (label.elim h (s.pool.note h)) s' := by
  have hp := hs.tells hp₀
  cases hserves with
  | note deadlines hmax =>
    have hworkers : s.pool.inFlight ≤ p₀.workers :=
      (Pool.settings_of_watch? hs.watch).1 ▸ hp.staffed.inFlight_le
    simp only [Option.toList_none, List.map_nil, List.append_nil]
    exact { hs with
      explains := ⟨hs.explains.sent, hs.explains.peer⟩
      slots := Nat.le_trans hmax (Nat.max_le.2 ⟨hs.slots, hworkers⟩) }
  | step hdelivery hstep =>
    have hcycle := PoolStep.cycle?_eq_none (.inl hdelivery)
    exact hs.moves_of_ne_finish hstep (fun jobs hjobs => by cases hcycle ▸ hjobs)
      (PoolStep.ne_finish (.inl hdelivery)) s.nextCycle
  | @send ticket t rest pool start hpick hstep =>
    obtain rfl : t.ticket = ticket := Pool.ticket_of_pick? hpick
    have hturn := hp.handles.mem_turns ((Pool.perm_of_pick? hpick).mem_iff.2 List.mem_cons_self)
    have hjob : (t.ticket, t.job) ∈ h.accepted := hp.queues.turns ▸ List.mem_append_left _ hturn
    exact hs.moves hstep (fun jobs hjobs => by cases hjobs) rfl
      (hs.explains.send (s.pool.note h _) start hjob (List.Subset.refl _) rfl pool) hs.slots

theorem Logs.works (hworks : s.Works link label s') :
    Logs link peer p₀ jobsAt (log ++ label.toList.map (s.now, ·)) (label.elim h (s.pool.note h)) s' := by
  cases hworks with
  | serve hserves => exact hs.serves hp₀ hserves
  | settle hsettling hstep =>
    have hcycle := PoolStep.cycle?_eq_none (.inr hsettling)
    exact hs.moves_of_ne_finish hstep (fun jobs hjobs => by cases hcycle ▸ hjobs)
      (PoolStep.ne_finish (.inr hsettling)) s.nextCycle
  | desert hdeserted hpending hstep =>
    exact hs.moves_of_ne_finish hstep (fun jobs hjobs => by cases hjobs) (fun _ _ heq => by cases heq) s.nextCycle

theorem Logs.passes (hpasses : s.Passes link period jobsAt cancel label s') :
    Logs link peer p₀ jobsAt (log ++ label.toList.map (s.now, ·)) (label.elim h (s.pool.note h)) s' := by
  cases hpasses with
  | work hworks => exact hs.works hp₀ hworks
  | wait hnow hcycle =>
    simp only [Option.toList_none, List.map_nil, List.append_nil]
    exact { hs with
      past := fun time htime => Nat.le_trans (hs.past time htime) hnow
      explains := ⟨hs.explains.sent, hs.explains.peer⟩ }
  | cycle hdue hle hbefore hstep =>
    exact hs.moves_of_ne_finish hstep (fun jobs hjobs => (Option.some.inj hjobs).symm)
      (fun _ _ heq => by cases heq) _
  | cancel hstop =>
    exact hs.moves_of_ne_finish rfl (fun jobs hjobs => by cases hjobs) (fun _ _ heq => by cases heq) s.nextCycle
  | close hstop hfull hstep =>
    exact hs.moves_of_ne_finish hstep (fun jobs hjobs => by cases hjobs) (fun _ _ heq => by cases heq) s.nextCycle

end Steps

theorem logs_nil (link : Link ρ σ) (peer : σ) (p₀ : Pool Job) (jobsAt : Nat → List Job)
    (nextCycle : Option Nat) : Logs link peer p₀ jobsAt [] {} { pool := p₀, peer, nextCycle } :=
  ⟨rfl, rfl, .nil, fun _ h => absurd h List.not_mem_nil, ⟨.nil, rfl⟩, Nat.zero_le _⟩

/-- What is kept as time passes holds at the end, with a log and a history that account for it. -/
theorem Logs.passesTo {P : Log → History Job → Schedule ρ σ → Prop} (hp₀ : History.Tells {} p₀)
    (hs : Logs link peer p₀ jobsAt log h s) (hbegin : P log h s)
    (hpasses : s.PassesTo link period jobsAt cancel s')
    (hkeeps : ∀ {log h s label s'}, Logs link peer p₀ jobsAt log h s → P log h s →
      s.Passes link period jobsAt cancel label s' →
        P (log ++ label.toList.map (s.now, ·)) (label.elim h (s.pool.note h)) s') :
    ∃ log h, Logs link peer p₀ jobsAt log h s' ∧ P log h s' := by
  induction hpasses with
  | refl => exact ⟨log, h, hs, hbegin⟩
  | tail _ hlast ih =>
    obtain ⟨label, hlast⟩ := hlast
    obtain ⟨log, h, hs, hkept⟩ := ih
    exact ⟨_, _, hs.passes hp₀ hlast, hkeeps hs hkept hlast⟩

theorem ticks_of_label (log : Log) (now : Nat) (hcycle : ∀ step ∈ label, step.cycle? = none) :
    (log ++ label.toList.map (now, ·)).ticks = log.ticks := by
  cases label with
  | none => simp
  | some step => simp [Log.ticks, hcycle step rfl]

theorem cycle?_of_moves (hmoves : label = none ∧ s'.pool = s.pool ∨
      ∃ step, label = some step ∧ s.pool.Moves step s'.pool ∧ step.cycle? = none) :
    ∀ step ∈ label, step.cycle? = none := by
  rcases hmoves with ⟨rfl, -⟩ | ⟨step, rfl, -, hcycle⟩
  · exact fun _ hstep => by cases hstep
  · exact fun _ hstep => Option.some.inj hstep ▸ hcycle

/-- A schedule that runs in cycles until `stop` keeps to the clock. -/
structure IsPaced (p₀ : Pool Job) (period stop : Nat) (log : Log) (s : Schedule ρ σ) : Prop where
  next : s.nextCycle = some ((log.ticks.length + 1) * period)
  punctual : log.IsPunctual period stop
  late : s.pool.pending = [] → s.pool.isClosed = false →
    s.now ≤ (log.ticks.length + 1) * period ∨ (s.now, .accept) ∈ log
  closes : s.pool.isClosed → log.Closes p₀ period stop

section Pacing
variable {stop : Nat} (hpaced : IsPaced p₀ period stop log s)
include hpaced

theorem IsPaced.congr (label : Option (PoolStep Job)) (hcycle : ∀ step ∈ label, step.cycle? = none)
    (hnext : s'.nextCycle = s.nextCycle)
    (hlate : s'.pool.pending = [] → s'.pool.isClosed = false →
      s'.now ≤ (log.ticks.length + 1) * period ∨ (s'.now, .accept) ∈ log ++ label.toList.map (s.now, ·))
    (hcloses : s'.pool.isClosed → Log.Closes (log ++ label.toList.map (s.now, ·)) p₀ period stop) :
    IsPaced p₀ period stop (log ++ label.toList.map (s.now, ·)) s' := by
  have hticks := ticks_of_label log s.now hcycle
  refine ⟨by rw [hnext, hpaced.next, hticks], fun i time htime => ?_, by rwa [hticks], hcloses⟩
  obtain ⟨hdue, hbefore, hlate⟩ := hpaced.punctual i time (hticks ▸ htime)
  exact ⟨hdue, hbefore, hlate.imp_right (List.mem_append_left _)⟩

theorem IsPaced.of_same (label : Option (PoolStep Job)) (hcycle : ∀ step ∈ label, step.cycle? = none)
    (hnext : s'.nextCycle = s.nextCycle) (hnow : s'.now = s.now) (hpending : s'.pool.pending = s.pool.pending)
    (hclosed : s'.pool.isClosed = s.pool.isClosed) :
    IsPaced p₀ period stop (log ++ label.toList.map (s.now, ·)) s' := by
  refine hpaced.congr _ hcycle hnext ?_ fun h => (hpaced.closes (hclosed ▸ h)).append _
  rw [hpending, hclosed, hnow]
  exact fun hnil hopen => (hpaced.late hnil hopen).imp_right (List.mem_append_left _)

/-- A cycle begins when it is due, or late. -/
theorem IsPaced.cycle {due : Nat} {pool : Pool Job} (hdue : s.nextCycle = some due) (hle : due ≤ s.now)
    (hbefore : s.now < stop) (hstep : s.pool.step? (.offer (jobsAt s.now)) = some pool) :
    IsPaced p₀ period stop (log ++ [(s.now, .offer (jobsAt s.now))])
      { s with pool, nextCycle := some (due + period) } := by
  have hticks : Log.ticks (log ++ [(s.now, .offer (jobsAt s.now))]) = log.ticks ++ [s.now] := by
    rw [Log.ticks_append]
    rfl
  have hnext : ((Log.ticks (log ++ [(s.now, .offer (jobsAt s.now))])).length + 1) * period =
      (log.ticks.length + 1) * period + period := by
    rw [hticks, List.length_append, List.length_singleton, Nat.succ_mul]
  obtain rfl : due = (log.ticks.length + 1) * period := Option.some.inj (hdue.symm.trans hpaced.next)
  cases Pool.moves_of_step? hstep with
  | offer hpending hopen =>
    have hlate := hpaced.late hpending hopen
    refine ⟨congrArg some hnext.symm, fun i time htime => ?_, fun _ _ => ?_,
      fun h => (hpaced.closes h).append _⟩
    · rw [hticks] at htime
      rcases Nat.lt_or_ge i log.ticks.length with hi | hi
      · rw [List.getElem?_append_left hi] at htime
        obtain ⟨hdue, hbefore, hlate⟩ := hpaced.punctual i time htime
        exact ⟨hdue, hbefore, hlate.imp_right (List.mem_append_left _)⟩
      · rw [List.getElem?_append_right hi, List.getElem?_singleton] at htime
        split at htime
        · next hlast =>
          cases htime
          obtain rfl : i = log.ticks.length := by omega
          exact ⟨hle, hbefore, hlate.imp (Nat.le_antisymm · hle) (List.mem_append_left _)⟩
        · cases htime
    · rw [hnext]
      exact hlate.imp (Nat.le_add_right_of_le ·) (List.mem_append_left _)

variable (hs : Logs link peer p₀ jobsAt log h s)
include hs

theorem IsPaced.close {pool : Pool Job} (hstep : s.pool.step? .close = some pool)
    (hcut : s.pool.isDeserted ∧ s.pool.pending ≠ [] ∨ s.now = stop ∧
      (s.pool.pending ≠ [] → s.pool.capacity ≤ s.pool.queue.length)) :
    IsPaced p₀ period stop (log ++ [(s.now, .close)]) { s with pool } := by
  have hcloses : Log.Closes (log ++ [(s.now, .close)]) p₀ period stop := by
    by_cases hclosed : s.pool.isClosed
    · exact (hpaced.closes hclosed).append _
    · refine ⟨log, s.now, [], s.pool, h, rfl, hs.watch, hcut.imp_right fun ⟨hnow, hfull⟩ =>
        ⟨hnow, hfull, fun hpending => ?_⟩⟩
      exact hnow ▸ hpaced.late hpending (Bool.eq_false_iff.2 hclosed)
  refine hpaced.congr (some .close) (fun step hstep => ?_) rfl (fun _ hopen => ?_) fun _ => hcloses
  · cases hstep
    rfl
  · cases Pool.moves_of_step? hstep with
    | close => cases hopen

theorem IsPaced.works (hworks : s.Works link label s') :
    IsPaced p₀ period stop (log ++ label.toList.map (s.now, ·)) s' := by
  have hcycle := cycle?_of_moves hworks.moves
  cases hworks with
  | serve hserves =>
    obtain ⟨hpending, -, -, hclosed, hnow, hnext⟩ := hserves.sameQueue
    exact hpaced.of_same _ hcycle hnext hnow hpending hclosed
  | @settle step pool hsettling hstep =>
    cases Pool.moves_of_step? hstep with
    | accept hpending hroom hopen halive =>
      exact hpaced.congr _ hcycle rfl (fun _ _ => .inr (by simp)) fun h => (hpaced.closes h).append _
    | take hqueue hworker hfree => exact hpaced.of_same _ hcycle rfl rfl rfl rfl
    | _ => cases hsettling
  | desert hdeserted hpending hstep => exact hpaced.close hs hstep (.inl ⟨hdeserted, hpending⟩)

theorem IsPaced.passes (hpasses : s.Passes link period jobsAt (some stop) label s') :
    IsPaced p₀ period stop (log ++ label.toList.map (s.now, ·)) s' := by
  cases hpasses with
  | work hworks => exact hpaced.works hs hworks
  | @wait time hnow hcycle =>
    refine hpaced.congr none (fun _ hstep => by cases hstep) rfl (fun hpending hopen => ?_)
      fun h => (hpaced.closes h).append _
    have hle := hcycle hpending hopen _ hpaced.next
    rcases Nat.le_total s.now ((log.ticks.length + 1) * period) with hearly | hdue
    · exact .inl (by rwa [Nat.max_eq_left hearly] at hle)
    · rw [Nat.max_eq_right hdue] at hle
      obtain rfl : time = s.now := Nat.le_antisymm hle hnow
      exact (hpaced.late hpending hopen).imp_right (List.mem_append_left _)
  | cycle hdue hle hbefore hstep => exact hpaced.cycle hdue hle (hbefore stop rfl) hstep
  | cancel hstop =>
    exact hpaced.of_same (some .cancel) (fun _ hstep => by cases hstep; rfl) rfl rfl rfl rfl
  | close hstop hfull hstep =>
    exact hpaced.close hs hstep (.inr ⟨(Option.some.inj hstop).symm, hfull⟩)

end Pacing

theorem Passes.moves (hnext : s.nextCycle = none) (hpasses : s.Passes link period jobsAt cancel label s') :
    s'.nextCycle = none ∧ (label = none ∧ s'.pool = s.pool ∨
      ∃ step, label = some step ∧ s.pool.Moves step s'.pool ∧ step.cycle? = none) := by
  cases hpasses with
  | work hworks => exact ⟨hworks.sameTime.nextCycle.trans hnext, hworks.moves⟩
  | wait hnow hcycle => exact ⟨hnext, .inl ⟨rfl, rfl⟩⟩
  | cycle hdue hle hbefore hstep => cases hdue.symm.trans hnext
  | cancel hstop => exact ⟨hnext, .inr ⟨_, rfl, .cancel, rfl⟩⟩
  | close hstop hfull hstep => exact ⟨hnext, .inr ⟨_, rfl, Pool.moves_of_step? hstep, rfl⟩⟩

/-- A schedule whose only cycle begins at once. -/
structure IsSingle (log : Log) (s : Schedule ρ σ) : Prop where
  ticks : log.ticks = [0]
  nextCycle : s.nextCycle = none

theorem IsSingle.passes (hsingle : IsSingle log s)
    (hpasses : s.Passes link period jobsAt cancel label s') :
    IsSingle (log ++ label.toList.map (s.now, ·)) s' := by
  obtain ⟨hnext, hmoves⟩ := hpasses.moves hsingle.nextCycle
  exact ⟨(ticks_of_label log s.now (cycle?_of_moves hmoves)).trans hsingle.ticks, hnext⟩

/-- All jobs of the only cycle have been accepted. -/
structure IsDrained (log : Log) (h : History Job) (s : Schedule ρ σ) : Prop extends IsSingle log s where
  pending : s.pool.pending = []
  dropped : h.dropped = []

theorem IsDrained.passes (hdrained : IsDrained log h s)
    (hpasses : s.Passes link period jobsAt cancel label s') :
    IsDrained (log ++ label.toList.map (s.now, ·)) (label.elim h (s.pool.note h)) s' := by
  have hsingle := hdrained.toIsSingle.passes hpasses
  obtain ⟨-, ⟨rfl, hpool⟩ | ⟨step, rfl, hmoves, hcycle⟩⟩ := hpasses.moves hdrained.nextCycle
  · exact ⟨hsingle, hpool ▸ hdrained.pending, hdrained.dropped⟩
  · exact ⟨hsingle, pending_of_moves hmoves hcycle hdrained.pending,
      (Pool.dropped_note hdrained.pending step).trans hdrained.dropped⟩

end Schedule

namespace Sender
variable {ρ σ : Type} (link : Link ρ σ) (peer : σ) (feed : Feed)

theorem exists_logs_run (s : Sender) (hperiod : 0 < s.period) (stop : Nat) :
    ∃ log h, Schedule.Logs link peer (s.pool (16 * max 1 s.workers)) (s.jobsAt feed) log h
        (s.run link peer feed stop) ∧
      log.IsPunctual s.period stop ∧ log.Closes (s.pool (16 * max 1 s.workers)) s.period stop := by
  have hp₀ := s.tells_pool (16 * max 1 s.workers)
  have hpaced : Schedule.IsPaced (s.pool (16 * max 1 s.workers)) s.period stop [] (s.atRest peer : Schedule ρ σ) :=
    ⟨by simp [atRest, Log.ticks], fun i time htime => by simp [Log.ticks] at htime,
      fun _ _ => .inl (Nat.zero_le _), fun hclosed => by cases hclosed⟩
  obtain ⟨log, h, hlogs, hpaced⟩ := (Schedule.logs_nil link peer _ (s.jobsAt feed) (some s.period)).passesTo
    (P := fun log _ s' => Schedule.IsPaced (s.pool (16 * max 1 s.workers)) s.period stop log s') hp₀ hpaced
    (passes_run link peer feed hperiod stop) fun hs hpaced hpasses => hpaced.passes hs hpasses
  have hover := isOver_run link peer feed hperiod stop (s := s)
  rw [Pool.isOver, Bool.and_eq_true, Bool.and_eq_true] at hover
  exact ⟨log, h, hlogs, hpaced.punctual, hpaced.closes hover.1.1⟩

theorem exists_logs_flush (s : Sender) (cancel : Option Nat) :
    ∃ log h, Schedule.Logs link peer (s.pool (s.jobsAt feed 0).length) (s.jobsAt feed) log h
        (s.flush link peer feed cancel) ∧ log.ticks = [0] ∧ h.dropped = [] := by
  have hp₀ := s.tells_pool (s.jobsAt feed 0).length
  obtain ⟨e, e', hclosing⟩ := exists_isClosing link peer feed s
  have hoffer : (s.pool (s.jobsAt feed 0).length).step? (.offer (s.jobsAt feed 0)) =
      some (s.loaded peer feed : Schedule ρ σ).pool := rfl
  have hoffered := (Schedule.logs_nil link peer _ (s.jobsAt feed) none).moves_of_ne_finish hoffer
    (fun jobs hjobs => (Option.some.inj hjobs).symm) (fun _ _ heq => by cases heq) none
  have hloaded : Schedule.IsSingle [(0, .offer (s.jobsAt feed 0))] (s.loaded peer feed : Schedule ρ σ) := ⟨rfl, rfl⟩
  obtain ⟨log, h, hlogs, hsingle⟩ := hoffered.passesTo (P := fun log _ => Schedule.IsSingle log) hp₀ hloaded
    (hclosing.accepts.passes s.period (s.jobsAt feed) none) fun _ hsingle hpasses => hsingle.passes hpasses
  have hdropped := (hlogs.tells hp₀).queues.opened hclosing.isClosed
  obtain ⟨log, h, hlogs, hdrained⟩ := hlogs.passesTo (P := Schedule.IsDrained) hp₀
    ⟨hsingle, hclosing.pending, hdropped⟩ (hclosing.works.passes s.period (s.jobsAt feed) none)
    fun _ hdrained hpasses => hdrained.passes hpasses
  have hshut := hlogs.moves_of_ne_finish hclosing.close (fun jobs hjobs => by cases hjobs)
    (fun _ _ heq => by cases heq) e'.nextCycle
  have hdrained' : Schedule.IsDrained (log ++ [(e'.now, .close)]) (e'.pool.note h .close) e'.shut := by
    refine ⟨⟨?_, hdrained.nextCycle⟩, hdrained.pending, ?_⟩
    · rw [Log.ticks_append, hdrained.ticks]
      rfl
    · exact (Pool.dropped_note hdrained.pending _).trans hdrained.dropped
  obtain ⟨log, h, hlogs, hdrained⟩ := hshut.passesTo (P := Schedule.IsDrained) hp₀ hdrained'
    (hclosing.passes cancel) fun _ hdrained hpasses => hdrained.passes hpasses
  exact ⟨log, h, hlogs, hdrained.ticks, hdrained.dropped⟩

end Sender
end Telemetry.Agent
