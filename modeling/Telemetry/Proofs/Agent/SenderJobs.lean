import Telemetry.Proofs.Agent.SenderLogs

/-!
What becomes of the jobs of a sender. Whatever the transport does and whenever the sending is cancelled,
each job that the queue accepts is taken in its turn by one worker and sent at least once, and at most once
more than it may be repeated. Jobs that the queue has not accepted when it is closed are not sent at all.
A worker that has to wait longer than a duration can say panics, and it is only when all workers have done
so that accepted jobs are left.
-/
namespace Telemetry.Agent

namespace History
variable {α : Type} {h h' : History α} {p q : Pool α}

/-- Accepted jobs have tickets of their own and are taken in their turn, each by one worker, who never has
two sends of it under way nor another job. -/
structure IsOrderly (h : History α) (workers maxRetries : Nat) (p : Pool α) : Prop where
  tickets : h.accepted.map Prod.fst = List.range h.accepted.length
  turns : h.turns ++ p.queue = h.accepted
  once : (p.deliveries.map Delivery.item ++ p.finished.map Finished.item).Perm h.taken
  sends : ∀ ticket ∈ h.turns.map Prod.fst,
    1 ≤ h.begun.count ticket ∧ h.begun.count ticket ≤ 1 + maxRetries
  untouched : ∀ ticket, ticket ∉ h.turns.map Prod.fst → h.begun.count ticket = 0
  singly : ∀ ticket, h.ends ticket ≤ h.begun.count ticket ∧ h.begun.count ticket ≤ h.ends ticket + 1
  slots : p.occupied.Nodup ∧ ∀ worker ∈ p.occupied, worker < workers
  inFlight : p.deliveries.length ≤ workers ∧ p.inFlight ≤ workers
  /-- Only jobs at the end of the last cycle are not accepted. -/
  cycles : ∃ part, h.cycles.getLast?.getD [] = part ++ (h.dropped ++ p.pending) ∧
    h.accepted.map Prod.snd = h.cycles.dropLast.flatten ++ part
  dropped : h.dropped ≠ [] → p.isCancelled ∨ p.isDeserted

/-- Every job that has been taken is over and has been sent as often as it should be, no job is left unless
no worker is, and nothing else happens. -/
structure IsComplete (h : History α) (maxRetries : Nat) (p : Pool α) : Prop where
  pending : p.pending = []
  queue : p.queue ≠ [] → p.isDeserted
  finished : (p.finished.map Finished.item).Perm h.taken
  sends : ∀ ticket ∈ h.turns.map Prod.fst, 1 ≤ h.ends ticket ∧ h.ends ticket ≤ 1 + maxRetries ∧
    h.begun.count ticket = h.ends ticket
  quiet : ∀ steps q h', p.watch? h steps = some (q, h') → h' = h

theorem Handles.delivery_or_finished (hp : h.Handles p) {ticket : Nat}
    (hticket : ticket ∈ h.turns.map Prod.fst) :
    (∃ t, h.Follows p.policy.maxRetries t ∧ t.ticket = ticket) ∨
      ∃ f, h.Concludes p.policy.maxRetries f ∧ f.ticket = ticket := by
  rcases List.mem_append.1 (hp.tickets_perm.mem_iff.2 hticket) with hticket | hticket
  · obtain ⟨t, ht, rfl⟩ := List.mem_map.1 hticket
    exact .inl ⟨t, hp.deliveries t ht, rfl⟩
  · obtain ⟨f, hf, rfl⟩ := List.mem_map.1 hticket
    exact .inr ⟨f, hp.finished f hf, rfl⟩

theorem Handles.sends (hp : h.Handles p) {ticket : Nat} (hticket : ticket ∈ h.turns.map Prod.fst) :
    1 ≤ h.begun.count ticket ∧ h.begun.count ticket ≤ 1 + p.policy.maxRetries ∧
      h.ends ticket ≤ h.begun.count ticket ∧ h.begun.count ticket ≤ h.ends ticket + 1 := by
  rcases hp.delivery_or_finished hticket with ⟨t, ⟨hbegun, hended, hpos, hle⟩, rfl⟩ |
    ⟨f, ⟨hbegun, hended, hpos, hle⟩, rfl⟩
  · have hunder : t.underWay ≤ 1 := by
      rw [Delivery.underWay]
      split <;> omega
    omega
  · omega

theorem Queues.cycles (hp : h.Queues p) :
    ∃ part, h.cycles.getLast?.getD [] = part ++ (h.dropped ++ p.pending) ∧
      h.accepted.map Prod.snd = h.cycles.dropLast.flatten ++ part := by
  obtain ⟨part, hpart⟩ := hp.cut
  refine ⟨part, hpart.symm, ?_⟩
  have hlast : h.cycles.flatten = h.cycles.dropLast.flatten ++ h.cycles.getLast?.getD [] := by
    rcases List.eq_nil_or_concat h.cycles with hnil | ⟨init, last, heq⟩
    · simp [hnil]
    · simp [heq]
  have hjobs := hp.jobs
  rw [hlast, ← hpart, ← List.append_assoc h.cycles.dropLast.flatten] at hjobs
  exact List.append_cancel_right hjobs

theorem Tells.isOrderly (hp : h.Tells p) : h.IsOrderly p.workers p.policy.maxRetries p where
  tickets := by
    have hlength := congrArg List.length hp.queues.tickets
    rw [List.length_map, List.length_range] at hlength
    rw [hlength, hp.queues.tickets]
  turns := hp.queues.turns
  once := hp.handles.items
  sends ticket hticket :=
    have ⟨hpos, hle, _⟩ := hp.handles.sends hticket
    ⟨hpos, hle⟩
  untouched ticket hticket := (hp.handles.others ticket hticket).1
  singly ticket := by
    by_cases hticket : ticket ∈ h.turns.map Prod.fst
    · exact (hp.handles.sends hticket).2.2
    · obtain ⟨hbegun, hended⟩ := hp.handles.others ticket hticket
      omega
  slots := ⟨hp.staffed.nodup, hp.staffed.lt⟩
  inFlight := ⟨hp.staffed.length_deliveries_le, hp.staffed.inFlight_le⟩
  cycles := hp.queues.cycles
  dropped := hp.queues.dropped

theorem Tells.isComplete (hp : h.Tells p) (hover : p.isOver) : h.IsComplete p.policy.maxRetries p := by
  have hempty := hover
  simp only [Pool.isOver, Bool.and_eq_true, Bool.or_eq_true, List.isEmpty_iff] at hempty
  obtain ⟨⟨hclosed, hdeliveries⟩, hleft⟩ := hempty
  have hitems := hp.handles.items
  have htickets := hp.handles.tickets_perm
  rw [hdeliveries, List.map_nil, List.nil_append] at hitems htickets
  refine ⟨hp.queues.closed hclosed, fun hqueue => hleft.resolve_left hqueue, hitems, fun ticket hticket => ?_,
    fun steps q h' hrun => (Pool.watch?_of_isOver hp hover hrun).2⟩
  obtain ⟨f, hf, rfl⟩ := List.mem_map.1 (htickets.mem_iff.2 hticket)
  obtain ⟨hbegun, hended, hpos, hle⟩ := hp.handles.finished f hf
  omega

end History

namespace Pool
variable {α : Type} {p q : Pool α} {h h' : History α} {steps : List (PoolStep α)}

theorem accepted_of_isClosed (hclosed : p.isClosed) (hrun : p.watch? h steps = some (q, h')) :
    h'.accepted = h.accepted ∧ h'.cycles = h.cycles := by
  induction steps generalizing p h with
  | nil =>
    cases hrun
    exact ⟨rfl, rfl⟩
  | cons step steps ih =>
    obtain ⟨r, hstep, hrest⟩ := Option.bind_eq_some_iff.1 hrun
    have hkept : r.isClosed ∧ (p.note h step).accepted = h.accepted ∧
        (p.note h step).cycles = h.cycles := by
      cases moves_of_step? hstep with
      | offer hpending hopen => cases hclosed.symm.trans hopen
      | accept hpending hroom hopen => cases hclosed.symm.trans hopen
      | close hdone => exact ⟨rfl, rfl, rfl⟩
      | _ => exact ⟨hclosed, rfl, rfl⟩
    obtain ⟨haccepted, hcycles⟩ := ih hkept.1 hrest
    exact ⟨haccepted.trans hkept.2.1, hcycles.trans hkept.2.2⟩

end Pool

namespace Sender
variable {ρ σ : Type} {s : Sender} {capacity : Nat} {snapshots : List (List Metric)}
  {steps : List (PoolStep Job)} {h : History Job} {p : Pool Job}

/-- The pool of a sender does such steps, and this is what is seen of them. The cycles are those of such
snapshots. -/
def Reaches (s : Sender) (capacity : Nat) (snapshots : List (List Metric)) (steps : List (PoolStep Job))
    (h : History Job) (p : Pool Job) : Prop :=
  (s.pool capacity).watch? {} steps = some (p, h) ∧ h.cycles = snapshots.map (Job.ofSnapshot s.mode)

/-- A schedule shows what its sender does, at the times of the log: each cycle has the metrics of the time
at which it begins, and the sends are those of the history. -/
structure Performs (s : Sender) (link : Link ρ σ) (peer : σ) (feed : Feed) (capacity : Nat) (log : Log)
    (h : History Job) (r : Schedule ρ σ) : Prop where
  reaches : s.Reaches capacity (log.ticks.map feed.metricsAt) log.steps h r.pool
  sorted : (log.map Prod.fst).Pairwise (· ≤ ·)
  past : ∀ time ∈ log.map Prod.fst, time ≤ r.now
  explains : Schedule.Explains link peer h r
  maxInFlight : r.maxInFlight ≤ max 1 s.workers
  isOver : r.pool.isOver

theorem performs_of_logs {link : Link ρ σ} {peer : σ} {feed : Feed} {log : Log} {r : Schedule ρ σ}
    (hlogs : Schedule.Logs link peer (s.pool capacity) (s.jobsAt feed) log h r) (hover : r.pool.isOver) :
    s.Performs link peer feed capacity log h r where
  reaches := ⟨hlogs.watch, by
    rw [hlogs.cycles, List.map_map]
    rfl⟩
  sorted := hlogs.sorted
  past := hlogs.past
  explains := hlogs.explains
  maxInFlight := hlogs.slots
  isOver := hover

/-- The jobs of snapshots whose cycles are not cut short: one for each metric, or one for all metrics of a
snapshot that is not empty. -/
theorem flatMap_ofSnapshot (mode : SendMode) (snapshots : List (List Metric)) :
    snapshots.flatMap (Job.ofSnapshot mode) =
      match mode with
      | .single => snapshots.flatten.map fun m => .one (Report.ofMetric m)
      | .batch => (snapshots.filter (· ≠ [])).map fun ms => .batch (ms.map Report.ofMetric) := by
  induction snapshots with
  | nil => cases mode <;> rfl
  | cons ms snapshots ih =>
    rw [List.flatMap_cons, ih]
    cases mode with
    | single => simp [Job.ofSnapshot, Function.comp_def]
    | batch => cases ms <;> simp [Job.ofSnapshot]

theorem Reaches.tells (hp : s.Reaches capacity snapshots steps h p) :
    h.Tells p ∧ p.workers = max 1 s.workers ∧ p.policy = s.policy :=
  ⟨(s.tells_pool capacity).watch? hp.1, Pool.settings_of_watch? hp.1⟩

theorem Reaches.accepted_eq (hp : s.Reaches capacity snapshots steps h p) (hpending : p.pending = [])
    (hdropped : h.dropped = []) : h.accepted.map Prod.snd = snapshots.flatMap (Job.ofSnapshot s.mode) := by
  have hjobs := hp.tells.1.queues.jobs
  rwa [hdropped, hpending, List.append_nil, List.append_nil, hp.2, ← List.flatMap_def] at hjobs

/-- Where no wait is too long the workers stay. -/
theorem Reaches.panicked_eq_nil (hp : s.Reaches capacity snapshots steps h p)
    (hdelays : ∀ i < s.policy.maxRetries, (s.policy.delay? i).isSome) : p.panicked = [] := by
  obtain ⟨htells, -, hpolicy⟩ := hp.tells
  by_contra hpanicked
  obtain ⟨i, hi, hnone⟩ := htells.staffed.panics hpanicked
  rw [hpolicy] at hi hnone
  simpa [hnone] using hdelays i hi

def pair : Sender := ⟨.single, 2, 1000, ⟨1, .zero, .zero⟩⟩

def threeCounters : List Metric := [⟨"a", .counter 1⟩, ⟨"b", .counter 2⟩, ⟨"c", .counter 3⟩]

/-- The first job fails twice, and the third one is not accepted before the cancellation. -/
def cutRun : List (PoolStep Job) :=
  [.offer (Job.ofSnapshot .single threeCounters), .accept, .take 0, .accept, .take 1, .finish 0 .transient,
    .resend 0, .cancel, .close, .finish 0 .transient, .finish 1 .delivered]

def busyLink : Link Outcome Unit := ⟨10, fun _ peer => (.transient, peer), id⟩

/-- One worker and a second wait that is too long for a duration. -/
def overlong : Sender := ⟨.single, 1, 1000, ⟨3, { Duration.zero with nanos := 10000000, nanos_lt := by decide },
  ⟨18446744073709551615, 999999999, by decide, by decide⟩⟩⟩

def twoCounters : List Metric := [⟨"a", .counter 1⟩, ⟨"b", .counter 2⟩]

end Sender
end Telemetry.Agent
